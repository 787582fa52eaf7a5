import ClusterMesh.Proofs.Station.Steps

/-! Which head a station follows and by what it chose it, as a function of the packets that it
handles. A packet under the reserved name that stands for no node is handled like any other:
it is told here exactly when that takes away a role or a head. -/
namespace ClusterMesh

structure Allegiance where
  office : Office
  choice : Choice

instance (o : Office) (rival : NodeId) (direct : UInt32) : Decidable (o.YieldsTo rival direct) :=
  inferInstanceAs (Decidable (_ ∨ _))

namespace Allegiance

def Prefers (a : Allegiance) (head : NodeId) (hops : UInt8) (direct : UInt32) : Prop :=
  a.office.head = nobody ∨ hops < a.choice.hops ∨
    hops = a.choice.hops ∧ (a.choice.direct < direct ∨
      direct = a.choice.direct ∧ head < a.office.head)

instance (a : Allegiance) (head : NodeId) (hops : UInt8) (direct : UInt32) :
    Decidable (a.Prefers head hops direct) :=
  inferInstanceAs (Decidable (_ ∨ _))

def consider (a : Allegiance) (head : NodeId) (hops : UInt8) (direct : UInt32) : Allegiance :=
  if a.office.role = .candidate ∨ a.office.role = .head then a
  else if a.office.head = head then
    { a with choice := ⟨min a.choice.hops hops, max a.choice.direct direct⟩ }
  else if a.Prefers head hops direct then ⟨{ a.office with head }, ⟨hops, direct⟩⟩
  else a

def meet (a : Allegiance) (rival : NodeId) (hops : UInt8) (direct : UInt32) : Allegiance :=
  if a.office.YieldsTo rival direct then ⟨a.office.concede rival, ⟨hops, direct⟩⟩ else a

def forsake (a : Allegiance) (head : NodeId) : Allegiance :=
  if a.office.head = head then ⟨a.office.release, {}⟩ else a

def heed (a : Allegiance) (p : Packet) : Allegiance :=
  match p.content with
  | .beacon => if p.fromHead then a.consider p.sender p.distance 0 else a
  | .renouncement _ => a.forsake p.sender
  | .candidacy b =>
    if a.office.role = .candidate then a.meet p.sender p.distance b.direct
    else a.consider p.sender p.distance b.direct

end Allegiance

namespace Station

def allegiance (s : Station) : Allegiance := ⟨s.office, s.choice⟩

/-! ## What a packet makes of an allegiance -/

theorem prefers_iff (s : Station) (head : NodeId) (hops : UInt8) (direct : UInt32) :
    s.prefers head hops direct = true ↔ s.allegiance.Prefers head hops direct := by
  have hnone : (!s.node.hasHead) = true ↔ s.node.head = nobody := by
    simp [Node.hasHead]
  unfold prefers Allegiance.Prefers
  rw [Bool.or_eq_true, Bool.or_eq_true, Bool.or_eq_true, hnone]
  simp only [Bool.and_eq_true, decide_eq_true_eq]
  change _ ↔ s.node.head = nobody ∨ hops < s.choice.hops ∨ hops = s.choice.hops ∧
    (s.choice.direct < direct ∨ direct = s.choice.direct ∧ head < s.node.head)
  grind

theorem allegiance_note (s : Station) {n : Notice} (h : n.change? = none) :
    (s.note n).allegiance = s.allegiance := by
  unfold allegiance
  rw [office_note s n h, (note_keeps s n).2.2.2.2.2]

theorem allegiance_consider (s : Station) (head : NodeId) (hops : UInt8) (direct : UInt32)
    (clusterClass : UInt16) :
    (s.consider head hops direct clusterClass).allegiance =
      s.allegiance.consider head hops direct := by
  have hprefers := prefers_iff s head hops direct
  unfold consider
  by_cases hr : s.node.role = .candidate ∨ s.node.role = .head
  · rw [if_pos hr]
    exact (if_pos hr).symm
  · rw [if_neg hr]
    refine Eq.trans ?_ (if_neg hr).symm
    by_cases hh : s.node.head = head
    · rw [if_pos hh]
      exact (if_pos hh).symm
    · rw [if_neg hh]
      refine Eq.trans ?_ (if_neg hh).symm
      by_cases hp : s.prefers head hops direct = true
      · rw [if_pos hp]
        exact (allegiance_note _ rfl).trans (if_pos (hprefers.1 hp)).symm
      · rw [if_neg hp]
        exact (if_neg (mt hprefers.2 hp)).symm

theorem allegiance_meetRival {s : Station} (hr : s.node.role = .candidate) (rival : NodeId)
    (hops : UInt8) (ballot : Ballot) :
    (s.meetRival rival hops ballot).allegiance = s.allegiance.meet rival hops ballot.direct := by
  have hb : s.node.role.mayBecome .edge = true := by rw [hr]; rfl
  obtain ⟨hy, ho⟩ | ⟨hy, ho⟩ := office_meetRival hr rival hops ballot
  · rw [Allegiance.meet, if_pos (by exact hy)]
    have hc : (s.meetRival rival hops ballot).choice = ⟨hops, ballot.direct⟩ := by
      unfold meetRival
      rw [if_neg (by simpa using (isBeatenBy_iff ..).2 hy), become_eq, hb]
      exact (note_keeps _ _).2.2.2.2.2
    rw [allegiance, ho, hc]
    rfl
  · have hn : s.isBeatenBy rival ballot.direct = false := by
      simpa using mt (isBeatenBy_iff ..).1 hy
    rw [Allegiance.meet, if_neg (by exact hy), meetRival, hn]
    rfl

theorem choice_heedRenouncement (s : Station) (head : NodeId) :
    (s.heedRenouncement head).choice = if s.node.head = head then {} else s.choice := by
  unfold heedRenouncement
  by_cases hh : s.node.head = head
  · rw [if_neg (not_not_intro hh), if_pos hh]
    dsimp only
    split
    · exact (note_keeps _ _).2.2.2.2.2
    · rw [become_eq]
      dsimp only
      split <;> simp only [become_keeps, note_keeps]
  · rw [if_pos hh, if_neg hh]

theorem allegiance_heedRenouncement (s : Station) (head : NodeId) :
    (s.heedRenouncement head).allegiance = s.allegiance.forsake head := by
  unfold Allegiance.forsake
  rw [allegiance, office_heedRenouncement, choice_heedRenouncement]
  by_cases hh : s.node.head = head
  · rw [if_pos hh, if_pos hh, if_pos (by exact hh)]
    rfl
  · rw [if_neg hh, if_neg hh, if_neg (by exact hh)]
    rfl

theorem allegiance_heed {s : Station} {p : Packet} (hs : p.sender ≠ s.id) :
    (s.heed p).allegiance = s.allegiance.heed p := by
  unfold heed Allegiance.heed
  rw [if_neg hs]
  cases p.content with
  | beacon =>
    dsimp only
    split
    · exact allegiance_consider ..
    · rfl
  | renouncement b => exact allegiance_heedRenouncement s p.sender
  | candidacy b =>
    dsimp only
    split
    · next hr =>
      rw [if_pos (by exact hr)]
      exact allegiance_meetRival (s := { s with node := s.node.noteCandidate }) hr ..
    · next hr =>
      have hr : s.allegiance.office.role = .head := hr
      rw [if_neg (by simp [hr]), Allegiance.consider, if_pos (.inr hr)]
      rfl
    · next hc _ =>
      rw [if_neg (by exact hc)]
      exact allegiance_consider ..

theorem choice_hearTransmitter (s : Station) (p : Packet) (rssi : Int8) :
    (s.hearTransmitter p rssi).choice = s.choice := by
  unfold hearTransmitter
  cases s.node.hear? p.transmitter rssi 1 with
  | none =>
    have hk := (note_keeps s (.rosterFull p.transmitter)).2.2.2.2.2
    cases p.position <;> exact hk
  | some m => cases p.position <;> rfl

theorem choice_hearSender (s : Station) (p : Packet) (rssi : Int8) :
    (s.hearSender p rssi).choice = s.choice := by
  unfold hearSender
  split
  · rfl
  · split <;> rfl

theorem allegiance_observe (s : Station) (p : Packet) (rssi : Int8) :
    (s.observe p rssi).allegiance =
      if p.transmitter = s.id ∨ p.sender = s.id then s.allegiance else s.allegiance.heed p := by
  have ho : ((s.hearTransmitter p rssi).hearSender p rssi).office = s.office :=
    (hearSender_keeps ..).1.trans (hearTransmitter_keeps ..).1
  have hc : ((s.hearTransmitter p rssi).hearSender p rssi).choice = s.choice :=
    (choice_hearSender ..).trans (choice_hearTransmitter ..)
  by_cases ht : p.transmitter = s.id
  · rw [if_pos (.inl ht), observe, if_pos ht]
  · unfold observe
    rw [if_neg ht]
    dsimp only
    generalize (s.hearTransmitter p rssi).hearSender p rssi = t at ho hc
    have ha : t.allegiance = s.allegiance := by rw [allegiance, ho, hc]; rfl
    have hid : t.id = s.id := congrArg Office.id ho
    by_cases hs : p.sender = s.id
    · rw [if_pos (.inr hs), heed, if_pos (by exact hs.trans hid.symm)]
      exact ha
    · rw [if_neg (not_or.2 ⟨ht, hs⟩), ← ha]
      exact allegiance_heed (by exact fun he => hs (he.trans hid))

theorem allegiance_take (s : Station) (p : Packet) :
    (s.take p).2.allegiance = s.allegiance := by
  unfold take
  split
  · rfl
  · exact allegiance_note _ rfl

theorem allegiance_receive (s : Station) (p : Packet) (rssi : Int8) (now : Instant) :
    (s.receive p rssi now).2.allegiance =
      if s.handles p then s.allegiance.heed p else s.allegiance := by
  have hobserve (ha : s.attends = true) : ({ s with now }.observe p rssi).allegiance =
      if s.handles p then s.allegiance.heed p else s.allegiance := by
    have hh : s.handles p = true ↔ ¬ (p.transmitter = s.id ∨ p.sender = s.id) := by
      rw [handles, ha, Bool.true_and, Bool.and_eq_true, bne_iff_ne, bne_iff_ne, not_or]
    rw [allegiance_observe]
    by_cases hown : p.transmitter = s.id ∨ p.sender = s.id
    · rw [if_pos (by exact hown), if_neg (by rw [hh]; exact not_not_intro hown)]
      rfl
    · rw [if_neg (by exact hown), if_pos (hh.2 hown)]
      rfl
  have hkept (ha : s.attends = false) :
      s.allegiance = if s.handles p then s.allegiance.heed p else s.allegiance := by
    rw [handles, ha]
    rfl
  have hr := s.receives p rssi now
  generalize s.receive p rssi now = r at hr
  cases hr with
  | off _ ha | busy _ ha | sampled ha => exact hkept ha
  | observed ha => exact hobserve ha
  | taken ha => exact (allegiance_take ..).trans (hobserve ha)

end Station

/-! ## The reserved name -/

theorem nobody_lt_iff {id : NodeId} : nobody < id ↔ id ≠ nobody := by
  rw [UInt32.lt_iff_toNat_lt, Ne, ← UInt32.toNat_inj]
  change 0 < id.toNat ↔ ¬ id.toNat = 0
  omega

namespace Office

def Unmoved (o o' : Office) : Prop :=
  o'.role = o.role ∧ o'.head = o.head ∧ o'.campaign.rounds = o.campaign.rounds ∧
    o'.campaign.renouncements = o.campaign.renouncements

theorem unmoved_refl (o : Office) : o.Unmoved o := ⟨rfl, rfl, rfl, rfl⟩

theorem yieldsTo_nobody_iff {o : Office} (hid : o.id ≠ nobody) (direct : UInt32) :
    o.YieldsTo nobody direct ↔ o.campaign.direct ≤ direct := by
  unfold YieldsTo
  rw [nobody_lt_iff, UInt32.lt_iff_toNat_lt, UInt32.le_iff_toNat_le, ← UInt32.toNat_inj]
  simp only [hid, ne_eq, not_false_eq_true, and_true]
  omega

end Office

namespace Allegiance
variable {a : Allegiance}

def Wavers (a : Allegiance) (hops : UInt8) (direct : UInt32) : Prop :=
  a.office.role ≠ .candidate ∧ a.office.role ≠ .head ∧ a.office.head ≠ nobody ∧
    (hops < a.choice.hops ∨ hops = a.choice.hops ∧ a.choice.direct ≤ direct)

/-- A packet under the reserved name takes a role or a head away: a candidate concedes to it,
who follows no head takes a renouncement for that of its head, and who follows one drops it. -/
def Misled (a : Allegiance) (p : Packet) : Prop :=
  match p.content with
  | .beacon => p.fromHead = true ∧ a.Wavers p.distance 0
  | .renouncement _ =>
    a.office.head = nobody ∧ (a.office.role = .starting ∨ a.office.role = .member)
  | .candidacy b =>
    a.office.role = .candidate ∧ a.office.campaign.direct ≤ b.direct ∨ a.Wavers p.distance b.direct

theorem prefers_nobody_iff (hh : a.office.head ≠ nobody) (hops : UInt8) (direct : UInt32) :
    a.Prefers nobody hops direct ↔
      hops < a.choice.hops ∨ hops = a.choice.hops ∧ a.choice.direct ≤ direct := by
  have hle : a.choice.direct < direct ∨ direct = a.choice.direct ↔ a.choice.direct ≤ direct := by
    rw [UInt32.lt_iff_toNat_lt, UInt32.le_iff_toNat_le, ← UInt32.toNat_inj]
    omega
  unfold Prefers
  rw [nobody_lt_iff, ← hle]
  simp only [hh, false_or, ne_eq, not_false_eq_true, and_true]

theorem unmoved_consider_iff (a : Allegiance) (hops : UInt8) (direct : UInt32) :
    a.office.Unmoved (a.consider nobody hops direct).office ↔ ¬ a.Wavers hops direct := by
  unfold consider
  split
  · next hr => exact iff_of_true a.office.unmoved_refl fun h => hr.elim h.1 h.2.1
  · next hr =>
    obtain ⟨hc, ho⟩ := not_or.1 hr
    split
    · next hh => exact iff_of_true a.office.unmoved_refl fun h => h.2.2.1 hh
    · next hh =>
      have hprefers := prefers_nobody_iff hh hops direct
      split
      · next hq =>
        exact iff_of_false (fun h => hh h.2.1.symm)
          (not_not_intro ⟨hc, ho, hh, hprefers.1 hq⟩)
      · next hq => exact iff_of_true a.office.unmoved_refl fun h => hq (hprefers.2 h.2.2.2)

theorem unmoved_forsake_iff (a : Allegiance) :
    a.office.Unmoved (a.forsake nobody).office ↔
      ¬ (a.office.head = nobody ∧ (a.office.role = .starting ∨ a.office.role = .member)) := by
  unfold forsake
  split
  · next hh =>
    have hrole : a.office.role.released = a.office.role ↔
        ¬ (a.office.role = .starting ∨ a.office.role = .member) := by
      cases a.office.role <;> simp [Role.released]
    rw [and_iff_right hh, ← hrole]
    exact ⟨fun h => h.1, fun h => ⟨h, hh.symm, rfl, rfl⟩⟩
  · next hh => exact iff_of_true a.office.unmoved_refl fun h => hh h.1

theorem unmoved_meet_iff (hid : a.office.id ≠ nobody) (hr : a.office.role = .candidate)
    (hops : UInt8) (direct : UInt32) :
    a.office.Unmoved (a.meet nobody hops direct).office ↔
      ¬ a.office.campaign.direct ≤ direct := by
  have hyields := Office.yieldsTo_nobody_iff hid direct
  unfold meet
  split
  · next hy =>
    exact iff_of_false (fun h => nomatch h.1.trans hr) (not_not_intro (hyields.1 hy))
  · next hy => exact iff_of_true a.office.unmoved_refl (mt hyields.2 hy)

theorem unmoved_heed_iff (hid : a.office.id ≠ nobody) {p : Packet} (hp : p.sender = nobody) :
    a.office.Unmoved (a.heed p).office ↔ ¬ a.Misled p := by
  unfold heed Misled
  rw [hp]
  cases p.content with
  | beacon =>
    dsimp only
    split
    · next hf => rw [unmoved_consider_iff, and_iff_right hf]
    · next hf => exact iff_of_true a.office.unmoved_refl fun h => hf h.1
  | renouncement b => exact unmoved_forsake_iff a
  | candidacy b =>
    dsimp only
    split
    · next hr =>
      rw [unmoved_meet_iff hid hr, or_iff_left fun h => h.1 hr, and_iff_right hr]
    · next hr => rw [unmoved_consider_iff, or_iff_right fun h => hr h.1]

end Allegiance

namespace Station

theorem Reachable.id_ne {s : Station} (h : Reachable s) : s.id ≠ nobody := by
  induction h with
  | start hs =>
    obtain ⟨hv, rfl⟩ := start_eq hs
    exact hv.id_ne
  | step h op ih => exact id_step h.inStep op ▸ ih

/-- Exactly what a packet under the reserved name can do: role, head and rounds stay what they
are, unless the station handles the packet and is misled by it. -/
theorem unmoved_by_nobody_iff {s : Station} (h : Reachable s) {p : Packet}
    (hp : p.sender = nobody) (rssi : Int8) (now : Instant) :
    let t := (s.receive p rssi now).2
    (t.node.role = s.node.role ∧ t.node.head = s.node.head ∧
        t.campaign.rounds = s.campaign.rounds ∧
        t.campaign.renouncements = s.campaign.renouncements) ↔
      ¬ (s.handles p = true ∧ s.allegiance.Misled p) := by
  have hr := congrArg Allegiance.office (allegiance_receive s p rssi now)
  intro t
  change s.office.Unmoved t.allegiance.office ↔ _
  rw [show t.allegiance.office = _ from hr]
  split
  · next hh =>
    rw [and_iff_right hh]
    exact Allegiance.unmoved_heed_iff h.id_ne hp
  · next hh => exact iff_of_true (Office.unmoved_refl _) fun hm => hh hm.1

section firstDiscovery
variable {s : Station} (now : Instant)

theorem office_tick (hp : s.phase ≠ .discovery) : (s.step (.tick now)).office = s.office := by
  obtain ⟨-, ht⟩ | ⟨-, ⟨-, ht⟩ | ⟨-, ht⟩ | ⟨hd, -⟩⟩ := tick_cases s now
  · rw [ht]
  · rw [ht]
    exact (noisySlot_keeps { s with now }).1
  · rw [ht]
    exact (neighborSlot_keeps { s with now }).1
  · exact absurd hd hp

theorem phase_tick_ne (hp : s.phase = .noisy) : (s.step (.tick now)).phase ≠ .discovery := by
  obtain ⟨-, ht⟩ | ⟨-, ⟨-, ht⟩ | ⟨hq, -⟩ | ⟨hq, -⟩⟩ := tick_cases s now
  · rw [ht, hp]
    decide
  · have hc : { s with now }.noisySlot.phase = _ :=
      congrArg Clockwork.phase (noisySlot_keeps { s with now }).2.2
    rw [ht, hc]
    split
    · intro hq
      cases hq
    · intro hq
      cases hp.symm.trans hq
  · cases hp.symm.trans hq
  · cases hp.symm.trans hq

/-- With one slot in each of the first two phases two ticks lead to discovery, with nothing
changed in the office. -/
theorem attends_after_two_ticks (h : s.clockwork.InStep) (he : s.enabled = true)
    (hp : s.phase = .noisy) (hn : s.settings.plan.noisyCount = 1)
    (hb : s.settings.plan.neighborCount = 1) :
    let u := (s.step (.tick now)).step (.tick now)
    u.office = s.office ∧ u.attends = true := by
  have hslot := runsSlot_third_tick h he hp hn hb now
  simp only [runsSlot, Bool.and_eq_true, decide_eq_true_eq] at hslot
  refine ⟨(office_tick now (phase_tick_ne now hp)).trans ?_, ?_⟩
  · exact office_tick now (by rw [hp]; decide)
  · simp [attends, hslot.1.1, hslot.1.2]

end firstDiscovery

/-- An announcement of nobody, heard where no head is followed. -/
theorem unmoved_by_nobody_at_start :
    let c : Settings := { id := 1, plan := ⟨1, 50, 1, 10⟩ }
    let s := ((fresh c {}).step (.tick .zero)).step (.tick .zero)
    let p : Packet := { sender := nobody, fromHead := true, content := .candidacy { direct := 9 } }
    Reachable s ∧ s.attends = true ∧ (s.receive p (-50) .zero).2.node.role = .starting ∧
      (s.receive p (-50) .zero).2.node.head = nobody := by
  intro c s p
  have hs : Station.start c {} = .ok (fresh c {}) := rfl
  have h0 := Reachable.start hs
  obtain ⟨ho, ha⟩ := attends_after_two_ticks .zero h0.inStep rfl rfl rfl rfl
  have hr : s.node.role = .starting := congrArg Office.role ho
  have hh : s.node.head = nobody := congrArg Office.head ho
  have hm : ¬ (s.handles p = true ∧ s.allegiance.Misled p) := by
    intro h
    obtain ⟨_, hm⟩ := h
    obtain ⟨hc, -⟩ | hw := hm
    · exact nomatch hr.symm.trans hc
    · exact hw.2.2.1 hh
  have h2 : Reachable s := (h0.step _).step _
  obtain ⟨hrole, hhead, -⟩ := (unmoved_by_nobody_iff h2 (p := p) rfl (-50) .zero).2 hm
  exact ⟨h2, ha, hrole.trans hr, hhead.trans hh⟩

/-- A renouncement of nobody, heard in the same place: the station follows no head, and yet it
leaves its role. -/
theorem nobody_moves :
    let c : Settings := { id := 1, plan := ⟨1, 50, 1, 10⟩ }
    let s := ((fresh c {}).step (.tick .zero)).step (.tick .zero)
    let p : Packet :=
      { sender := nobody, path := ⟨[2], by decide⟩, content := .renouncement {} }
    Reachable s ∧ s.node.role = .starting ∧
      (s.receive p (-50) .zero).2.node.role = .discovering := by
  intro c s p
  have hs : Station.start c {} = .ok (fresh c {}) := rfl
  have h0 := Reachable.start hs
  obtain ⟨ho, ha⟩ := attends_after_two_ticks .zero h0.inStep rfl rfl rfl rfl
  have hid : s.id = 1 := congrArg Office.id ho
  have hh : s.handles p = true := by
    rw [handles, show s.attends = true from ha, hid]
    decide
  have ha : s.allegiance = ⟨(fresh c {}).office, s.choice⟩ :=
    congrArg (Allegiance.mk · s.choice) ho
  have hr := congrArg (fun a => a.office.role) (allegiance_receive s p (-50) .zero)
  rw [if_pos hh, ha] at hr
  exact ⟨(h0.step _).step _, congrArg Office.role ho, hr⟩

end Station
end ClusterMesh
