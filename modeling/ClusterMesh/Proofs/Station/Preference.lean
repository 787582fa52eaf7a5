import Mathlib.Data.Prod.Lex
import ClusterMesh.Proofs.Station.Allegiance
import ClusterMesh.Proofs.Station.Laps
import ClusterMesh.Proofs.Station.Roles

/-! Heads in the order in which stations prefer them: the nearest first, of these the one with
most direct neighbors, of these the one with the lowest name. As long as the packets that a
station hears name their senders, its pick only moves up in this order until it is given up. -/
namespace ClusterMesh

structure Pick where
  hops : UInt8
  direct : UInt32
  head : NodeId
  deriving DecidableEq

namespace Pick

def rank (p : Pick) : ℕ ×ₗ ℕᵒᵈ ×ₗ ℕ :=
  toLex (p.hops.toNat, toLex (OrderDual.toDual p.direct.toNat, p.head.toNat))

theorem rank_injective : Function.Injective rank := by
  intro p q h
  obtain ⟨hhops, h⟩ := Prod.ext_iff.1 (toLex.injective h)
  obtain ⟨hdirect, hhead⟩ := Prod.ext_iff.1 (toLex.injective h)
  cases p
  cases q
  rw [mk.injEq]
  exact ⟨UInt8.toNat_inj.1 hhops, UInt32.toNat_inj.1 (OrderDual.toDual.injective hdirect),
    UInt32.toNat_inj.1 hhead⟩

instance : LinearOrder Pick := LinearOrder.lift' rank rank_injective

theorem lt_iff {p q : Pick} :
    p < q ↔ p.hops < q.hops ∨ p.hops = q.hops ∧
      (q.direct < p.direct ∨ p.direct = q.direct ∧ p.head < q.head) := by
  change p.rank < q.rank ↔ _
  simp only [rank, Prod.Lex.toLex_lt_toLex, OrderDual.toDual_lt_toDual, UInt8.lt_iff_toNat_lt,
    UInt32.lt_iff_toNat_lt, UInt8.toNat_inj, UInt32.toNat_inj, EmbeddingLike.apply_eq_iff_eq]

/-- News of the same head add to what is known of it. -/
theorem merge_le (p : Pick) (hops : UInt8) (direct : UInt32) :
    (⟨min p.hops hops, max p.direct direct, p.head⟩ : Pick) ≤ p := by
  have hh : min p.hops hops < p.hops ∨ min p.hops hops = p.hops := by
    change (if p.hops ≤ hops then _ else _) < _ ∨ (if p.hops ≤ hops then _ else _) = _
    split
    · exact .inr rfl
    · next hle => exact .inl (UInt8.not_le.1 hle)
  have hd : p.direct < max p.direct direct ∨ max p.direct direct = p.direct := by
    change _ < (if p.direct ≤ direct then _ else _) ∨ (if p.direct ≤ direct then _ else _) = _
    split
    · next hle => exact (UInt32.lt_or_eq_of_le hle).imp_right Eq.symm
    · exact .inr rfl
  obtain hh | hh := hh
  · exact le_of_lt (lt_iff.2 (.inl hh))
  · obtain hd | hd := hd
    · exact le_of_lt (lt_iff.2 (.inr ⟨hh, .inl hd⟩))
    · rw [hh, hd]

end Pick

namespace Allegiance

def pick (a : Allegiance) : Pick := ⟨a.choice.hops, a.choice.direct, a.office.head⟩

theorem prefers_iff_lt {a : Allegiance} (hh : a.office.head ≠ nobody) (head : NodeId)
    (hops : UInt8) (direct : UInt32) :
    a.Prefers head hops direct ↔ (⟨hops, direct, head⟩ : Pick) < a.pick := by
  rw [Pick.lt_iff]
  exact or_iff_right hh

/-- There still is a head, the pick is no worse, and another head is only taken for a better
one. -/
structure Improves (a a' : Allegiance) : Prop where
  head_ne : a'.office.head ≠ nobody
  le : a'.pick ≤ a.pick
  lt : a'.office.head ≠ a.office.head → a'.pick < a.pick

section improves
variable {a : Allegiance} (hh : a.office.head ≠ nobody)
include hh

theorem improves_of_pick_eq {a' : Allegiance} (h : a'.pick = a.pick) : a.Improves a' := by
  have hhead : a'.office.head = a.office.head := congrArg Pick.head h
  exact ⟨hhead ▸ hh, le_of_eq h, fun hne => absurd hhead hne⟩

theorem improves_consider {head : NodeId} (hn : head ≠ nobody) (hops : UInt8) (direct : UInt32) :
    a.Improves (a.consider head hops direct) := by
  unfold consider
  split
  · exact improves_of_pick_eq hh rfl
  · split
    · exact ⟨hh, Pick.merge_le a.pick hops direct, fun hne => absurd rfl hne⟩
    · split
      · next hp =>
        have hlt := (prefers_iff_lt hh head hops direct).1 hp
        exact ⟨hn, le_of_lt hlt, fun _ => hlt⟩
      · exact improves_of_pick_eq hh rfl

/-- News of heads and candidates improve the pick of a station that is no candidate, and a
renouncement makes it drop the head that sent it. -/
theorem improves_heed (hc : a.office.role ≠ .candidate) {p : Packet} (hn : p.sender ≠ nobody) :
    a.Improves (a.heed p) ∨
      (∃ b, p.content = .renouncement b) ∧ p.sender = a.office.head ∧
        (a.heed p).office.head = nobody := by
  unfold heed
  cases p.content with
  | beacon =>
    dsimp only
    split
    · exact .inl (improves_consider hh hn ..)
    · exact .inl (improves_of_pick_eq hh rfl)
  | renouncement b =>
    dsimp only [forsake]
    split
    · next he => exact .inr ⟨⟨b, rfl⟩, he.symm, rfl⟩
    · exact .inl (improves_of_pick_eq hh rfl)
  | candidacy b =>
    dsimp only
    rw [if_neg hc]
    exact .inl (improves_consider hh hn ..)

end improves

end Allegiance

namespace Station

/-! ## What leaves the choice alone -/

theorem choice_enter (s : Station) (phase : Phase) : (s.enter phase).choice = s.choice := by
  unfold enter
  dsimp only
  rw [(note_keeps _ _).2.2.2.2.2, (trace_keeps _ _).2.2.2.2.2]
  split <;> rfl

theorem choice_decideRole (s : Station) : s.decideRole.choice = s.choice := by
  have hbecome (next : Role) : (s.become next).2.choice = s.choice :=
    (become_keeps s next).2.2.2.2.1
  have hstand : s.stand.choice = s.choice := by
    unfold stand
    rw [become_eq]
    cases s.node.role.mayBecome .candidate <;> exact hbecome .candidate
  have htake : s.takeOffice.choice = s.choice := by
    unfold takeOffice
    split
    · rw [become_eq]
      cases s.node.role.mayBecome .head <;> exact hbecome .head
    · rfl
  unfold decideRole
  split
  · exact hbecome .discovering
  · exact htake
  · rfl
  · split
    · exact hstand
    · split
      · exact hbecome .edge
      · split
        · exact hbecome .member
        · rfl

theorem choice_completeCycle (s : Station) : s.completeCycle.choice = s.choice := by
  have hpublish (t : Station) (m : Connectivity) : (t.publish m).choice = t.choice := by
    unfold publish
    split <;> rfl
  unfold completeCycle
  dsimp only
  rw [choice_enter, (note_keeps _ _).2.2.2.2.2, (trace_keeps _ _).2.2.2.2.2, choice_decideRole,
    hpublish]
  rfl

theorem choice_discoverySlot {s : Station} (h : s.clockwork.InStep) (hp : s.phase = .discovery) :
    s.discoverySlot.choice = s.choice := by
  have hwork : Station.choice (if s.cycle.slot = 0 then s.sendMessage else s.relayNext) =
      s.choice := by
    split
    · unfold sendMessage
      split
      · rfl
      · split <;> rfl
    · exact relayNext_untouched (fun _ _ _ => rfl) (fun _ _ _ => (note_keeps _ _).2.2.2.2.2)
        (fun _ _ => rfl) s
  rw [discoverySlot_eq h hp]
  dsimp only
  split
  · exact (choice_completeCycle _).trans hwork
  · exact hwork

theorem choice_tick {s : Station} (h : s.clockwork.InStep) (now : Instant) :
    (s.step (.tick now)).choice = s.choice := by
  obtain ⟨-, ht⟩ | ⟨-, ⟨-, ht⟩ | ⟨-, ht⟩ | ⟨hp, ht⟩⟩ := tick_cases s now
  · rw [ht]
  · rw [ht]
    exact noisySlot_untouched (fun _ _ => rfl) (fun _ => rfl) (fun _ _ => rfl)
      (fun t => choice_enter t.finishNoise .neighbor) { s with now }
  · rw [ht]
    exact neighborSlot_untouched (fun _ _ => rfl) (fun _ => rfl) (fun _ _ => rfl)
      (fun t _ => choice_enter t .discovery) { s with now }
  · rw [ht]
    exact choice_discoverySlot (s := { s with now }) h hp

/-! ## Steps -/

theorem allegiance_step_of_handled {s : Station} {op : Op} {p : Packet}
    (hh : s.handled? op = some p) : (s.step op).allegiance = s.allegiance.heed p := by
  obtain ⟨hp, hs⟩ := packet?_of_handled? hh
  obtain ⟨rssi, now, ht⟩ := step_of_packet? s hp
  rw [ht, allegiance_receive, if_pos hs]

/-- Only packets and resets touch the choice. -/
theorem choice_step_of_not_handled {s : Station} (h : s.clockwork.InStep) {op : Op}
    (hh : s.handled? op = none) (hr : op.isReset = false) : (s.step op).choice = s.choice := by
  cases hp : op.packet? with
  | some p =>
    obtain ⟨rssi, now, ht⟩ := step_of_packet? s hp
    have hn : s.handles p = false := by simpa [handled?, hp] using hh
    have ha := allegiance_receive s p rssi now
    rw [hn] at ha
    rw [ht]
    exact congrArg Allegiance.choice ha
  | none =>
    cases op with
    | tick now => exact choice_tick h now
    | receive p rssi now => cases hp
    | receiveBytes bytes rssi now =>
      simp only [Op.packet?] at hp
      simp only [step, receiveBytes]
      cases hd : Packet.ofBytes bytes with
      | ok p => simp [hd, Except.toOption] at hp
      | error e => rfl
    | reset => cases hr
    | _ => rfl

def IsForsaken (s : Station) (op : Op) : Prop :=
  ∃ p b, s.handled? op = some p ∧ p.content = .renouncement b ∧ p.sender = s.node.head

/-- An operation improves the pick of a station that has a head, or takes the head away. -/
theorem improves_step {s : Station} (h : s.Sound) {op : Op} (hop : op.Named)
    (hh : s.node.head ≠ nobody) :
    s.allegiance.Improves (s.step op).allegiance ∨
      (s.step op).node.head = nobody ∧ (op = .reset ∨ s.IsForsaken op) := by
  -- a candidate follows nobody
  have hc : s.office.role ≠ .candidate := fun hr => hh (h.consistent.candidate hr).1
  cases hp : s.handled? op with
  | some p =>
    have ha := allegiance_step_of_handled hp
    rw [ha]
    have hn := hop p (packet?_of_handled? hp).1
    refine (Allegiance.improves_heed hh hc hn).imp_right fun hf => ?_
    obtain ⟨⟨b, hb⟩, hs, hn⟩ := hf
    exact ⟨(congrArg (fun a => a.office.head) ha).trans hn, .inr ⟨p, b, hp, hb, hs⟩⟩
  | none =>
    have ht := turns_step h.inStep op
    have hchoice := choice_step_of_not_handled h.inStep hp
    have hkept {o : Office} (ho : (s.step op).office = o) (hr : op.isReset = false)
        (hsame : o.head = s.node.head) : s.allegiance.Improves (s.step op).allegiance := by
      have hhead : (s.step op).node.head = s.node.head := (congrArg Office.head ho).trans hsame
      have hpick : (s.step op).allegiance.pick = s.allegiance.pick := by
        unfold Allegiance.pick
        rw [show (s.step op).allegiance.choice = s.allegiance.choice from hchoice hr,
          show (s.step op).allegiance.office.head = s.allegiance.office.head from hhead]
      exact Allegiance.improves_of_pick_eq hh hpick
    generalize ho : (s.step op).office = o at ht
    cases ht with
    | kept h0 h3 hn hr => exact .inl (hkept ho hr rfl)
    | spoke h0 =>
      obtain ⟨campaign, -, he⟩ := s.office.spoken_eq
      exact .inl (hkept ho (isReset_of_runsSlot h0) (by rw [he]; rfl))
    | heeded hq => exact nomatch hp.symm.trans hq
    | reset hr => exact .inr ⟨congrArg Office.head ho, .inl hr⟩
    | decided h3 hd =>
      refine .inl (hkept ho (isReset_of_runsSlot h3) ?_)
      cases hd with
      | promote hr => exact absurd hr hc
      | wake | wait | reign | stand | recede | join | stay => rfl

def pick (s : Station) : Pick := s.allegiance.pick

def FollowsAnother (s : Station) : Prop := s.node.head ≠ nobody ∧ s.node.head ≠ s.id

def KeepsFollowing (s : Station) : List Op → Prop
  | [] => s.FollowsAnother
  | op :: ops => s.FollowsAnother ∧ KeepsFollowing (s.step op) ops

theorem KeepsFollowing.followsAnother {s : Station} {ops : List Op} (h : s.KeepsFollowing ops) :
    s.FollowsAnother := by
  cases ops with
  | nil => exact h
  | cons op ops => exact h.1

theorem pick_run {s : Station} (h : s.Sound) {ops : List Op} (hops : ∀ op ∈ ops, op.Named)
    (hk : s.KeepsFollowing ops) : (s.run ops).pick ≤ s.pick := by
  induction ops generalizing s with
  | nil => exact le_refl _
  | cons op ops ih =>
    have hop := hops op (by simp)
    have hle := ih (h.step hop) (fun op' hm => hops op' (by simp [hm])) hk.2
    have hnext : (s.step op).node.head ≠ nobody := hk.2.followsAnother.1
    obtain himp | ⟨hn, -⟩ := improves_step h hop hk.1.1
    · exact le_trans hle himp.le
    · exact absurd hn hnext

/-- With named senders the selection of a head only improves. An operation before and after
which another node is followed leaves the pick as it is or makes it better, and goes over to
another node only for a better pick; so does a whole run of such operations. A head is given up
for nobody only where a renouncement of its own is heard, or by a reset. -/
theorem pick_improves {settings : Settings} {receivers : Receivers} {s t : Station}
    (hs : Station.start settings receivers = .ok s) {before : List Op}
    (hbefore : ∀ op ∈ before, op.Named) (ht : s.run before = t) :
    (∀ op : Op, op.Named → t.FollowsAnother → (t.step op).FollowsAnother →
      (t.step op).pick ≤ t.pick ∧
        ((t.step op).node.head ≠ t.node.head → (t.step op).pick < t.pick)) ∧
    (∀ ops : List Op, (∀ op ∈ ops, op.Named) → t.KeepsFollowing ops → (t.run ops).pick ≤ t.pick) ∧
    ∀ op : Op, op.Named → t.node.head ≠ nobody → (t.step op).node.head = nobody →
      op = .reset ∨ t.IsForsaken op := by
  have hsound : t.Sound := ht ▸ (sound_start hs).run hbefore
  refine ⟨fun op hop hf hf' => ?_, fun ops hops hk => pick_run hsound hops hk,
    fun op hop hh hn => ?_⟩
  · obtain himp | ⟨hn, -⟩ := improves_step hsound hop hf.1
    · exact ⟨himp.le, himp.lt⟩
    · exact absurd hn hf'.1
  · obtain himp | ⟨-, hwhy⟩ := improves_step hsound hop hh
    · exact absurd hn himp.head_ne
    · exact hwhy

/-- Of two heads at the same distance the one with neighbors to tell of is taken. -/
theorem pick_improves_on_announcement :
    let c : Settings := { id := 1, plan := ⟨1, 50, 1, 10⟩ }
    let before : List Op :=
      [.tick .zero, .tick .zero, .receive { sender := 2, fromHead := true } (-50) .zero]
    let op : Op := .receive { sender := 3, content := .candidacy { direct := 9 } } (-50) .zero
    let t := (fresh c {}).run before
    Station.start c {} = .ok (fresh c {}) ∧ (∀ op ∈ before, op.Named) ∧ op.Named ∧
      t.pick = ⟨1, 0, 2⟩ ∧ (t.step op).pick < t.pick := by
  intro c before op t
  have hs : Station.start c {} = .ok (fresh c {}) := rfl
  have hbefore : ∀ op ∈ before, op.Named := forall_named_iff.2 (by decide)
  have hop : op.Named := by simp [op, Op.Named, Op.packet?, nobody]
  have hhead : t.node.head = 2 := by decide +kernel
  have hnext : (t.step op).node.head = 3 := by decide +kernel
  have hid : t.id = 1 ∧ (t.step op).id = 1 := by decide +kernel
  have hf : t.FollowsAnother := by rw [FollowsAnother, hhead, hid.1]; decide
  have hf' : (t.step op).FollowsAnother := by rw [FollowsAnother, hnext, hid.2]; decide
  have hne : (t.step op).node.head ≠ t.node.head := by rw [hhead, hnext]; decide
  obtain ⟨-, hlt⟩ := (pick_improves hs hbefore rfl).1 op hop hf hf'
  exact ⟨hs, hbefore, hop, by decide +kernel, hlt hne⟩

end Station
end ClusterMesh
