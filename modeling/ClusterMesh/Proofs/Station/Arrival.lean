import Mathlib.Data.Finset.Basic
import Mathlib.Order.MinMax
import Mathlib.Tactic.Tauto
import ClusterMesh.Proofs.Station.Preference

/-! Which candidate a station comes to follow that has followed nobody. It does not hang on the
order in which announcements arrive, nor on how often: the station ends up with the best of all
who announced themselves. -/
namespace ClusterMesh

namespace Pick

/-- What is made of a pick by an offer: the first is taken, another one only if it is better, and
one of the same head adds to what is known of it. -/
def weigh (p q : Pick) : Pick :=
  if p.head = nobody then q
  else if p.head = q.head then ⟨min p.hops q.hops, max p.direct q.direct, p.head⟩
  else if q < p then q
  else p

theorem weigh_self (p : Pick) : p.weigh p = p := by
  have hh : min p.hops p.hops = p.hops := if_pos (UInt8.le_refl _)
  have hd : max p.direct p.direct = p.direct := if_pos (UInt32.le_refl _)
  rw [weigh, if_pos rfl, hh, hd]
  split <;> rfl

/-- Of two heads the better one stays. -/
theorem weigh_of_head_ne {p q : Pick} (hp : p.head ≠ nobody) (hne : p.head ≠ q.head) :
    p.weigh q = min p q := by
  rw [weigh, if_neg hp, if_neg hne]
  split
  · next hlt => exact (min_eq_right (le_of_lt hlt)).symm
  · next hlt => exact (min_eq_left (not_lt.1 hlt)).symm

def Coherent (ps : List Pick) : Prop := ∀ p ∈ ps, ∀ q ∈ ps, p.head = q.head → p = q

theorem weigh_of_coherent {p q : Pick} {ps : List Pick} (hp : p.head ≠ nobody)
    (hc : Coherent ps) (hpm : p ∈ ps) (hqm : q ∈ ps) : p.weigh q = min p q := by
  by_cases hh : p.head = q.head
  · rw [← hc p hpm q hqm hh, weigh_self, min_self]
  · exact weigh_of_head_ne hp hh

/-- Who starts with an offer ends up with the best one. -/
theorem foldl_weigh {p : Pick} {ps : List Pick} (hn : ∀ q ∈ p :: ps, q.head ≠ nobody)
    (hc : Coherent (p :: ps)) :
    ps.foldl weigh p ∈ p :: ps ∧ ∀ q ∈ p :: ps, ps.foldl weigh p ≤ q := by
  induction ps generalizing p with
  | nil => simp
  | cons q ps ih =>
    have hmin : p.weigh q = min p q := weigh_of_coherent (hn p (by simp)) hc (by simp) (by simp)
    have hsub : ∀ r ∈ min p q :: ps, r ∈ p :: q :: ps := by
      intro r hr
      obtain rfl | hr := List.mem_cons.1 hr
      · obtain h | h := min_choice p q <;> simp [h]
      · simp [hr]
    obtain ⟨hmem, hle⟩ := ih (p := min p q) (fun r hr => hn r (hsub r hr))
      fun r hr r' hr' => hc r (hsub r hr) r' (hsub r' hr')
    rw [List.foldl_cons, hmin]
    refine ⟨hsub _ hmem, fun r hr => ?_⟩
    have hbest := hle (min p q) (by simp)
    obtain rfl | hr := List.mem_cons.1 hr
    · exact le_trans hbest (min_le_left ..)
    · obtain rfl | hr := List.mem_cons.1 hr
      · exact le_trans hbest (min_le_right ..)
      · exact hle r (by simp [hr])

/-- Who starts without a head ends up with the best offer there is. -/
theorem foldl_weigh_of_nobody {p : Pick} {ps : List Pick} (hp : p.head = nobody)
    (hne : ps ≠ []) (hn : ∀ q ∈ ps, q.head ≠ nobody) (hc : Coherent ps) :
    ps.foldl weigh p ∈ ps ∧ ∀ q ∈ ps, ps.foldl weigh p ≤ q := by
  cases ps with
  | nil => exact absurd rfl hne
  | cons q ps =>
    rw [List.foldl_cons, weigh, if_pos hp]
    exact foldl_weigh hn hc

end Pick

structure Packet.Announces (p : Packet) (length : Nat) (direct : UInt32) : Prop where
  length_eq : p.path.toList.length = length
  candidacy : ∃ b, p.content = .candidacy b ∧ b.direct = direct

theorem Packet.Announces.length_le {p : Packet} {length : Nat} {direct : UInt32}
    (h : p.Announces length direct) : length ≤ maxHops :=
  h.length_eq ▸ p.path.length_le

theorem Packet.toNat_distance (p : Packet) : p.distance.toNat = max 1 p.path.toList.length := by
  have hle := p.path.length_le
  unfold distance hops Bounded.size
  unfold maxHops at hle
  rw [UInt8.toNat_ofNat_of_lt' (by simp)]
  omega

namespace Allegiance

/-- A station that is no candidate and no head weighs an announcement by sender, distance and
neighbors. -/
theorem pick_heed_of_announces {a : Allegiance} (hc : a.office.role ≠ .candidate)
    (ho : a.office.role ≠ .head) {p : Packet} {length : Nat} {direct : UInt32}
    (hp : p.Announces length direct) (hn : p.sender ≠ nobody) :
    (a.heed p).pick = a.pick.weigh ⟨p.distance, direct, p.sender⟩ ∧
      (a.heed p).office.role = a.office.role := by
  obtain ⟨b, hb, rfl⟩ := hp.candidacy
  unfold heed Pick.weigh
  rw [hb]
  dsimp only
  rw [if_neg hc, consider, if_neg (not_or.2 ⟨hc, ho⟩)]
  by_cases hh : a.office.head = nobody
  · have hne : a.office.head ≠ p.sender := fun he => hn (he.symm.trans hh)
    rw [if_neg hne, if_pos (.inl hh), if_pos (by exact hh)]
    exact ⟨rfl, rfl⟩
  · rw [if_neg (show ¬ a.pick.head = nobody from hh)]
    by_cases he : a.office.head = p.sender
    · rw [if_pos he, if_pos (by exact he)]
      exact ⟨rfl, rfl⟩
    · rw [if_neg he, if_neg (show ¬ a.pick.head = p.sender from he)]
      by_cases hp : a.Prefers p.sender p.distance b.direct
      · rw [if_pos hp, if_pos ((prefers_iff_lt hh ..).1 hp)]
        exact ⟨rfl, rfl⟩
      · rw [if_neg hp, if_neg (mt (prefers_iff_lt hh ..).2 hp)]
        exact ⟨rfl, rfl⟩

end Allegiance

namespace Station

def heeded (s : Station) : List Op → List Packet
  | [] => []
  | op :: ops => (s.handled? op).toList ++ heeded (s.step op) ops

theorem kept_step_of_not_handled {s : Station} (h : s.clockwork.InStep) {op : Op}
    (hh : s.handled? op = none) (hr : op.isReset = false) (h3 : s.completes op = false) :
    (s.step op).node.role = s.node.role ∧ (s.step op).pick = s.pick := by
  have hchoice := choice_step_of_not_handled h hh hr
  have ht := turns_step h op
  generalize ho : (s.step op).office = o at ht
  have hsame : o.role = s.node.role ∧ o.head = s.node.head := by
    cases ht with
    | kept => exact ⟨rfl, rfl⟩
    | spoke =>
      obtain ⟨campaign, -, he⟩ := s.office.spoken_eq
      rw [he]
      exact ⟨rfl, rfl⟩
    | decided h3' => exact nomatch h3.symm.trans h3'
    | heeded hq => exact nomatch hh.symm.trans hq
    | reset hr' =>
      rw [hr'] at hr
      cases hr
  have hhead : (s.step op).node.head = s.node.head := (congrArg Office.head ho).trans hsame.2
  refine ⟨(congrArg Office.role ho).trans hsame.1, ?_⟩
  unfold pick Allegiance.pick
  rw [show (s.step op).allegiance.choice = s.allegiance.choice from hchoice,
    show (s.step op).allegiance.office.head = s.allegiance.office.head from hhead]

def offer (length : NodeId → Nat) (direct : NodeId → UInt32) (a : NodeId) : Pick :=
  ⟨UInt8.ofNat (max 1 (length a)), direct a, a⟩

section announcements
variable {length : NodeId → Nat} {direct : NodeId → UInt32}

theorem offer_of_announces {p : Packet} (h : p.Announces (length p.sender) (direct p.sender)) :
    offer length direct p.sender = ⟨p.distance, direct p.sender, p.sender⟩ := by
  have hd : UInt8.ofNat (max 1 (length p.sender)) = p.distance := by
    rw [← h.length_eq, ← p.toNat_distance, UInt8.ofNat_toNat]
  rw [offer, hd]

/-- Without the end of a cycle all that a run of announcements does to the pick of a station
that does not stand is to weigh one after the other. -/
theorem pick_run_of_announcements {s : Station} (h : s.clockwork.InStep)
    (hc : s.node.role ≠ .candidate) (ho : s.node.role ≠ .head) {ops : List Op}
    (hr : ∀ op ∈ ops, op.isReset = false) (hl : s.laps 0 ops = 0)
    (hp : ∀ p ∈ s.heeded ops,
      p.sender ≠ nobody ∧ p.Announces (length p.sender) (direct p.sender)) :
    (s.run ops).pick =
      ((s.heeded ops).map fun p => offer length direct p.sender).foldl Pick.weigh s.pick := by
  induction ops generalizing s with
  | nil => rfl
  | cons op ops ih =>
    have hop := hr op (by simp)
    have hops : ∀ op' ∈ ops, op'.isReset = false := fun op' hm => hr op' (by simp [hm])
    have h3 : s.completes op = false := by
      cases h3 : s.completes op with
      | false => rfl
      | true =>
        rw [laps, hop, h3, laps_eq_add hops] at hl
        simp at hl
    rw [laps, hop, h3] at hl
    have hrest : ∀ p ∈ (s.step op).heeded ops,
        p.sender ≠ nobody ∧ p.Announces (length p.sender) (direct p.sender) :=
      fun p hm => hp p (List.mem_append_right _ hm)
    have hi := inStep_step h op
    rw [run_cons, heeded, List.map_append, List.foldl_append]
    cases hh : s.handled? op with
    | none =>
      obtain ⟨hrole, hpick⟩ := kept_step_of_not_handled h hh hop h3
      rw [ih hi (hrole ▸ hc) (hrole ▸ ho) hops hl hrest, hpick]
      rfl
    | some p =>
      obtain ⟨hn, hann⟩ := hp p (List.mem_append_left _ (by simp [hh]))
      have ha := allegiance_step_of_handled hh
      obtain ⟨hpick, hrole⟩ :=
        Allegiance.pick_heed_of_announces (a := s.allegiance) hc ho hann hn
      rw [← ha] at hpick hrole
      have hrole : (s.step op).node.role = s.node.role := hrole
      rw [ih hi (hrole ▸ hc) (hrole ▸ ho) hops hl hrest]
      have hfirst : (s.step op).pick = s.pick.weigh (offer length direct p.sender) := by
        rw [offer_of_announces hann]
        exact hpick
      rw [hfirst]
      rfl

/-- Nearer, or as near with more direct neighbors, or equal in both with the lower name. -/
def Outdoes (length : NodeId → Nat) (direct : NodeId → UInt32) (a b : NodeId) : Prop :=
  max 1 (length a) < max 1 (length b) ∨ max 1 (length a) = max 1 (length b) ∧
    (direct b < direct a ∨ direct a = direct b ∧ a < b)

def IsBest (A : Finset NodeId) (length : NodeId → Nat) (direct : NodeId → UInt32)
    (best : NodeId) : Prop :=
  best ∈ A ∧ ∀ a ∈ A, a ≠ best → Outdoes length direct best a

theorem toNat_hops_offer {a : NodeId} (ha : length a ≤ maxHops) :
    (offer length direct a).hops.toNat = max 1 (length a) := by
  have hlt : max 1 (length a) < 256 := by
    unfold maxHops at ha
    omega
  exact UInt8.toNat_ofNat_of_lt' hlt

theorem offer_lt_iff {a b : NodeId} (ha : length a ≤ maxHops) (hb : length b ≤ maxHops) :
    offer length direct a < offer length direct b ↔ Outdoes length direct a b := by
  rw [Pick.lt_iff, UInt8.lt_iff_toNat_lt, ← UInt8.toNat_inj, toNat_hops_offer ha,
    toNat_hops_offer hb]
  rfl

/-- The best offer is that of the one best announcer. -/
theorem isBest_of_le {A : Finset NodeId} (hlen : ∀ a ∈ A, length a ≤ maxHops) {best : NodeId}
    (hb : best ∈ A) (hle : ∀ a ∈ A, offer length direct best ≤ offer length direct a) :
    IsBest A length direct best ∧ ∀ a, IsBest A length direct a → a = best := by
  have hlt : ∀ a ∈ A, a ≠ best → offer length direct best < offer length direct a :=
    fun a ha hne => lt_of_le_of_ne (hle a ha) fun he => hne (congrArg Pick.head he).symm
  refine ⟨⟨hb, fun a ha hne => (offer_lt_iff (hlen best hb) (hlen a ha)).1 (hlt a ha hne)⟩, ?_⟩
  intro a ha
  by_contra hne
  have hback := (offer_lt_iff (hlen a ha.1) (hlen best hb)).2 (ha.2 best hb (Ne.symm hne))
  exact lt_asymm (hlt a ha.1 hne) hback

end announcements

/-- Where all of `A` made their offers and nobody else did, a pick without a head ends up with
the best of them. -/
theorem foldl_offers (length : NodeId → Nat) (direct : NodeId → UInt32) {A : Finset NodeId}
    (hne : A.Nonempty) (hA : ∀ a ∈ A, a ≠ nobody) {senders : List NodeId}
    (hs : ∀ a, a ∈ senders ↔ a ∈ A) {p : Pick} (hp : p.head = nobody) :
    ∃ best ∈ A, (senders.map (offer length direct)).foldl Pick.weigh p =
        offer length direct best ∧
      ∀ a ∈ A, offer length direct best ≤ offer length direct a := by
  have hmem : ∀ q, q ∈ senders.map (offer length direct) ↔
      ∃ a ∈ A, offer length direct a = q := by
    intro q
    simp only [List.mem_map, hs]
  have hn : ∀ q ∈ senders.map (offer length direct), q.head ≠ nobody := by
    intro q hq
    obtain ⟨a, ha, rfl⟩ := (hmem q).1 hq
    exact hA a ha
  -- a sender has one distance and one number of neighbors
  have hc : Pick.Coherent (senders.map (offer length direct)) := by
    intro p hp q hq he
    obtain ⟨a, -, rfl⟩ := (hmem p).1 hp
    obtain ⟨b, -, rfl⟩ := (hmem q).1 hq
    exact congrArg (offer length direct) he
  obtain ⟨a, ha⟩ := hne
  have hsome := List.ne_nil_of_mem ((hmem _).2 ⟨a, ha, rfl⟩)
  obtain ⟨hbest, hle⟩ := Pick.foldl_weigh_of_nobody hp hsome hn hc
  obtain ⟨best, hb, he⟩ := (hmem _).1 hbest
  exact ⟨best, hb, he.symm, fun a ha => he ▸ hle _ ((hmem _).2 ⟨a, ha, rfl⟩)⟩

/-- Which candidate a station without a head comes to follow does not hang on the order in which
announcements arrive. Where each announcer has one distance and one number of direct neighbors
and no cycle ends in between, the head in the end is the one of them that outdoes all others,
chosen by its own distance and neighbors. -/
theorem best_announcer_followed {s : Station} (h : Reachable s) (hh : s.node.head = nobody)
    (hrole : s.node.role = .starting ∨ s.node.role = .discovering ∨ s.node.role = .edge)
    {A : Finset NodeId} (hne : A.Nonempty) (hA : ∀ a ∈ A, a ≠ nobody)
    {length : NodeId → Nat} {direct : NodeId → UInt32} {ops : List Op}
    (hr : ∀ op ∈ ops, op.isReset = false) (hl : s.laps 0 ops = 0)
    (honly : ∀ p ∈ s.heeded ops,
      p.sender ∈ A ∧ p.Announces (length p.sender) (direct p.sender))
    (hall : ∀ a ∈ A, ∃ p ∈ s.heeded ops, p.sender = a) :
    let t := s.run ops
    IsBest A length direct t.node.head ∧
      (∀ a, IsBest A length direct a → a = t.node.head) ∧
      t.choice.hops.toNat = max 1 (length t.node.head) ∧
      t.choice.direct = direct t.node.head := by
  intro t
  have hc : s.node.role ≠ .candidate ∧ s.node.role ≠ .head := by
    obtain hr | hr | hr := hrole <;> simp [hr]
  have hlen : ∀ a ∈ A, length a ≤ maxHops := by
    intro a ha
    obtain ⟨p, hp, rfl⟩ := hall a ha
    exact (honly p hp).2.length_le
  have hrun := pick_run_of_announcements h.inStep hc.1 hc.2 hr hl
    fun p hp => ⟨hA _ (honly p hp).1, (honly p hp).2⟩
  have hsenders : ∀ a, a ∈ (s.heeded ops).map Packet.sender ↔ a ∈ A := by
    intro a
    rw [List.mem_map]
    constructor
    · rintro ⟨p, hp, rfl⟩
      exact (honly p hp).1
    · exact hall a
  obtain ⟨best, hb, hfold, hle⟩ := foldl_offers length direct hne hA hsenders (p := s.pick) hh
  have hpick : t.pick = offer length direct best := by
    rw [hrun, ← hfold, List.map_map]
    rfl
  have hhead : t.node.head = best := congrArg Pick.head hpick
  have hhops : t.choice.hops = (offer length direct best).hops := congrArg Pick.hops hpick
  obtain ⟨hisbest, honlybest⟩ := isBest_of_le hlen hb hle
  rw [hhead, hhops]
  exact ⟨hisbest, honlybest, toNat_hops_offer (hlen best hb), congrArg Pick.direct hpick⟩

/-- Two announcers at one distance with the same number of neighbors, the worse one heard first
and last. -/
theorem best_announcer_followed_of_two :
    let c : Settings := { id := 1, plan := ⟨1, 50, 1, 10⟩ }
    let s := ((fresh c {}).step (.tick .zero)).step (.tick .zero)
    let announcement (sender : NodeId) : Packet := { sender, content := .candidacy { direct := 9 } }
    let ops : List Op := [3, 2, 3].map fun a => .receive (announcement a) (-50) .zero
    Reachable s ∧ s.heeded ops = [3, 2, 3].map announcement ∧
      IsBest {2, 3} (fun _ => 0) (fun _ => 9) (s.run ops).node.head := by
  intro c s announcement ops
  have hs : Station.start c {} = .ok (fresh c {}) := rfl
  have h : Reachable s := ((Reachable.start hs).step _).step _
  have hheeded : s.heeded ops = [3, 2, 3].map announcement := by decide +kernel
  have hmem (a : NodeId) : a ∈ [3, 2, 3] ↔ a ∈ ({2, 3} : Finset NodeId) := by
    simp only [List.mem_cons, List.not_mem_nil, Finset.mem_insert, Finset.mem_singleton]
    tauto
  refine ⟨h, hheeded, (best_announcer_followed h (by decide +kernel) (.inl (by decide +kernel))
    (A := {2, 3}) ⟨2, by simp⟩ (by simp [nobody]) (by simp [ops, Op.isReset])
    (by decide +kernel) ?_ ?_).1⟩
  · intro p hp
    rw [hheeded] at hp
    obtain ⟨a, ha, rfl⟩ := List.mem_map.1 hp
    exact ⟨(hmem a).1 ha, rfl, _, rfl, rfl⟩
  · intro a ha
    refine ⟨announcement a, ?_, rfl⟩
    rw [hheeded]
    exact List.mem_map.2 ⟨a, (hmem a).2 ha, rfl⟩

end Station
end ClusterMesh
