import Mathlib
import ClusterMesh.Proofs.Ballot
import ClusterMesh.Proofs.Station.Candidate
import ClusterMesh.Proofs.Station.Laps

/-! From the stand of a candidate to its promotion. A candidate that nobody beats announces
itself in three cycles, sends a beacon in the fourth and is head when that ends. Where it is
on this course can be read off the cycle and the slot. -/
namespace ClusterMesh.Station

/-! ## What slot zero sends -/

/-- A run of slot zero: the cycle it is in, all that it sends, and the announcements left. -/
structure Speech where
  cycle : UInt32
  packets : List Packet
  left : Nat

def speech (s : Station) (op : Op) : Speech where
  cycle := s.node.cycle
  packets := (s.step op).outbox.packets.toList.drop s.outbox.packets.size
  left := (s.step op).campaign.rounds

def speeches (s : Station) : List Op → List Speech
  | [] => []
  | op :: ops =>
    if s.runsSlot 0 op then s.speech op :: speeches (s.step op) ops else speeches (s.step op) ops

namespace Speech

def Announces (e : Speech) (cycle : Nat) (direct : UInt32) (left : Nat) : Prop :=
  e.cycle.toNat = cycle ∧ e.left = left ∧
    ∃ p b, e.packets = [p] ∧ p.content = .candidacy b ∧ b.direct = direct

def Greets (e : Speech) (cycle : Nat) : Prop :=
  e.cycle.toNat = cycle ∧ ∃ p, e.packets = [p] ∧ p.content = .beacon

def IsNth (e : Speech) (first : Nat) (direct : UInt32) (n : Nat) : Prop :=
  if n < 3 then e.Announces (first + n) direct (2 - n) else e.Greets (first + n)

end Speech

/-! ## Rivals -/

/-- The operation brings an announcement of another that beats the one of so many neighbors. -/
def IsBeaten (s : Station) (direct : UInt32) (op : Op) : Prop :=
  ∃ p b, s.handled? op = some p ∧ p.content = .candidacy b ∧
    (direct < b.direct ∨ b.direct = direct ∧ p.sender < s.id)

def Unbeaten (s : Station) (direct : UInt32) : List Op → Prop
  | [] => True
  | op :: ops => ¬ s.IsBeaten direct op ∧ Unbeaten (s.step op) direct ops

/-- Announcements of fewer neighbors beat nobody. -/
theorem unbeaten_of_fewer {direct : UInt32} {ops : List Op}
    (h : ∀ p ∈ ops.filterMap Op.packet?, ∀ b, p.content = .candidacy b → b.direct < direct)
    (s : Station) : s.Unbeaten direct ops := by
  induction ops generalizing s with
  | nil => trivial
  | cons op ops ih =>
    refine ⟨?_, ih (fun p hp => h p ?_) _⟩
    · rintro ⟨p, b, hp, hb, hwins⟩
      have hmem : p ∈ (op :: ops).filterMap Op.packet? :=
        List.mem_filterMap.2 ⟨op, List.mem_cons_self, (packet?_of_handled? hp).1⟩
      have hlt := h p hmem b hb
      obtain hmore | ⟨heq, -⟩ := hwins
      · exact absurd hmore (UInt32.lt_asymm hlt)
      · exact absurd heq (UInt32.ne_of_lt hlt)
    · obtain ⟨op', hop', hp⟩ := List.mem_filterMap.1 hp
      exact List.mem_filterMap.2 ⟨op', List.mem_cons_of_mem op hop', hp⟩

/-! ## The course of a candidacy -/

/-- How often slot zero has been run from the cycle `first` on. -/
def said (s : Station) (first : Nat) : Nat := s.node.cycle.toNat - first + s.passed.toNat

structure OnCourse (s : Station) (first : Nat) (direct : UInt32) : Prop where
  inStep : s.clockwork.InStep
  role : s.node.role = .candidate
  renouncements : s.campaign.renouncements = 0
  direct_eq : s.campaign.direct = direct
  first_le : first ≤ s.node.cycle.toNat
  le_last : s.node.cycle.toNat ≤ first + 3
  rounds : s.campaign.rounds = 3 - s.said first
  lastRound : 0 < s.said first →
    s.campaign.lastRound.toNat + 1 = first + min (s.said first) 3

section step
variable {s : Station} {first : Nat} {op : Op}

theorem toNat_cycle_step (hi : s.clockwork.InStep) (hr : op.isReset = false)
    (hw : s.completes op = true → s.node.cycle.toNat < 0xffffffff) :
    (s.step op).node.cycle.toNat = s.node.cycle.toNat + (s.completes op).toNat := by
  rw [cycle_step hi op, hr]
  cases h3 : s.completes op with
  | false => rfl
  | true =>
    have hlt := hw h3
    simp only [Bool.false_eq_true, if_false, if_true, UInt32.toNat_succSat, Bool.toNat_true]
    omega

theorem said_step (hi : s.clockwork.InStep) (hr : op.isReset = false)
    (hw : s.completes op = true → s.node.cycle.toNat < 0xffffffff)
    (hf : first ≤ s.node.cycle.toNat) :
    (s.step op).said first = s.said first + (s.runsSlot 0 op).toNat := by
  have hc := toNat_cycle_step hi hr hw
  have hp := passed_step hi op
  unfold said
  rw [hc, hp, hr]
  cases h0 : s.runsSlot 0 op with
  | true =>
    rw [not_completes_of_runsSlot h0, passed_of_runsSlot h0]
    simp
  | false =>
    cases h3 : s.completes op with
    | true =>
      rw [passed_of_completes h3]
      simp
      omega
    | false => simp

/-- Who comes to stand does so at the end of a cycle, and is on course from then on. -/
theorem onCourse_of_stands (hi : s.clockwork.InStep) (hn : s.node.role ≠ .candidate)
    (hc : (s.step op).node.role = .candidate) :
    s.completes op = true ∧ (s.step op).said (s.step op).node.cycle.toNat = 0 ∧
      (s.step op).OnCourse (s.step op).node.cycle.toNat (s.step op).campaign.direct := by
  have ht := turns_step hi op
  have hi' := inStep_step hi op
  have hs : s.office.role ≠ .candidate := hn
  generalize ho : (s.step op).office = o at ht
  have hrole : o.role = .candidate := ho ▸ hc
  cases ht with
  | kept => exact absurd hrole hs
  | spoke =>
    obtain ⟨campaign, -, he⟩ := s.office.spoken_eq
    rw [he] at hrole
    exact absurd hrole hs
  | heeded _ hd =>
    cases hd with
    | nothing | follow => exact absurd hrole hs
    | concede => cases hrole
    | release => exact absurd (Role.released_eq_candidate.1 hrole) hs
  | reset => cases hrole
  | decided h3 hd =>
    cases hd with
    | stand hr hh direct =>
      have hpassed : (s.step op).passed = false := by
        rw [passed_step hi op, isReset_of_runsSlot h3, not_runsSlot_of_completes h3, h3]
        rfl
      have hsaid : (s.step op).said (s.step op).node.cycle.toNat = 0 := by simp [said, hpassed]
      have hcampaign : (s.step op).campaign.rounds = 3 ∧ (s.step op).campaign.renouncements = 0 :=
        ⟨congrArg (fun o => o.campaign.rounds) ho, congrArg (fun o => o.campaign.renouncements) ho⟩
      exact ⟨h3, hsaid, hi', hc, hcampaign.2, rfl, Nat.le_refl _, Nat.le_add_right _ _,
        by rw [hsaid, hcampaign.1], by omega⟩
    | wake | promote | recede | join => cases hrole
    | wait hr | reign hr => exact absurd hrole hs
    | stay hr => exact absurd hrole hs

theorem office_step_of_runsSlot (h : s.clockwork.InStep) (h0 : s.runsSlot 0 op = true) :
    (s.step op).office = s.office.spoken := by
  have ht := turns_step h op
  generalize (s.step op).office = o at ht
  cases ht with
  | kept h0' => exact nomatch h0.symm.trans h0'
  | spoke => rfl
  | decided h3 => exact nomatch h0.symm.trans (not_runsSlot_of_completes h3)
  | heeded hh => exact nomatch h0.symm.trans (runsSlot_of_packet? s (packet?_of_handled? hh).1 0)
  | reset hr =>
    rw [hr] at h0
    cases h0

/-- Slot zero uses up a round of a candidate that has no renouncements to send. -/
theorem campaign_step_of_runsSlot (hi : s.clockwork.InStep) (hr : s.node.role = .candidate)
    (hq : s.campaign.renouncements = 0) (h0 : s.runsSlot 0 op = true) :
    (s.step op).node.role = .candidate ∧
      (s.step op).campaign =
        if 0 < s.campaign.rounds then
          { s.campaign with rounds := s.campaign.rounds - 1, lastRound := s.node.cycle }
        else s.campaign := by
  have ho := office_step_of_runsSlot hi h0
  have hquiet : ¬ 0 < s.office.campaign.renouncements := Nat.not_lt.2 (Nat.le_of_eq hq)
  rw [Office.spoken, if_neg hquiet] at ho
  by_cases hleft : 0 < s.campaign.rounds
  · rw [if_pos (show s.office.role = _ ∧ 0 < s.office.campaign.rounds from ⟨hr, hleft⟩)] at ho
    rw [if_pos hleft]
    exact ⟨(congrArg Office.role ho).trans hr, congrArg Office.campaign ho⟩
  · rw [if_neg (show ¬ (s.office.role = _ ∧ 0 < s.office.campaign.rounds) from
      fun hc => hleft hc.2)] at ho
    rw [if_neg hleft]
    exact ⟨(congrArg Office.role ho).trans hr, congrArg Office.campaign ho⟩

variable {direct : UInt32} (h : s.OnCourse first direct)
include h

theorem OnCourse.spoke (h0 : s.runsSlot 0 op = true) : (s.step op).OnCourse first direct := by
  obtain ⟨hrole, hcampaign⟩ :=
    campaign_step_of_runsSlot h.inStep h.role h.renouncements h0
  have hf := h.first_le
  have hl := h.le_last
  have hrounds := h.rounds
  have hlast := h.lastRound
  have h3 := not_completes_of_runsSlot h0
  have hw : s.completes op = true → s.node.cycle.toNat < 0xffffffff := by simp [h3]
  have hc := toNat_cycle_step h.inStep (isReset_of_runsSlot h0) hw
  have hsaid := said_step h.inStep (isReset_of_runsSlot h0) hw hf
  have hnow : s.said first = s.node.cycle.toNat - first := by simp [said, passed_of_runsSlot h0]
  rw [h3, Bool.toNat_false, Nat.add_zero] at hc
  rw [h0, Bool.toNat_true] at hsaid
  refine ⟨inStep_step h.inStep op, hrole, ?_, ?_, by omega, by omega, ?_, fun _ => ?_⟩
  · rw [hcampaign]
    split <;> exact h.renouncements
  · rw [hcampaign]
    split <;> exact h.direct_eq
  · rw [hcampaign]
    split
    · dsimp only
      omega
    · omega
  · rw [hcampaign]
    -- an announcement is of the present cycle; after the third the last one stays
    split
    · dsimp only
      omega
    · omega

theorem OnCourse.speech_isNth (h0 : s.runsSlot 0 op = true) :
    (s.speech op).IsNth first direct (s.said first) := by
  have hf := h.first_le
  have hrounds := h.rounds
  have hr := isReset_of_runsSlot h0
  have hnext := (h.spoke h0).rounds
  have hsaid := said_step h.inStep hr (by simp [not_completes_of_runsSlot h0]) hf
  have hnow : s.said first = s.node.cycle.toNat - first := by simp [said, passed_of_runsSlot h0]
  have hcycle : s.node.cycle.toNat = first + s.said first := by omega
  rw [h0, Bool.toNat_true] at hsaid
  have hsent : (s.step op).outbox.packets = s.outbox.packets.push s.message :=
    congrArg Traffic.sent (traffic_step_of_runsSlot h.inStep h0)
  have hpackets : (s.speech op).packets = [s.message] := by simp [speech, hsent]
  have hquiet : ¬ 0 < s.campaign.renouncements := by simp [h.renouncements]
  unfold Speech.IsNth
  by_cases hn : s.said first < 3
  · rw [if_pos hn]
    have hm : s.message = s.announcement := by
      rw [message, if_neg hquiet, if_pos ⟨h.role, by omega⟩]
    have hleft : (s.speech op).left = 2 - s.said first := by
      change (s.step op).campaign.rounds = _
      omega
    exact ⟨hcycle, hleft, s.message, s.ownBallot, hpackets, by rw [hm]; rfl,
      (Ballot.direct_addHop _ _ _).trans h.direct_eq⟩
  · rw [if_neg hn]
    have hm : s.message = s.beacon := by
      rw [message, if_neg hquiet, if_neg fun hc => by omega]
    exact ⟨hcycle, s.message, hpackets, by rw [hm]; rfl⟩

/-- Where slot zero is not run, a candidacy that is not decided stays on course. -/
theorem OnCourse.stay (h0 : s.runsSlot 0 op = false) (hr : op.isReset = false)
    (hw : s.completes op = true → s.node.cycle.toNat < first + 3 ∧ s.node.cycle.toNat < 0xffffffff)
    (hrole : (s.step op).node.role = .candidate) (hcampaign : (s.step op).campaign = s.campaign) :
    (s.step op).OnCourse first direct := by
  have hf := h.first_le
  have hl := h.le_last
  have hc := toNat_cycle_step h.inStep hr fun h3 => (hw h3).2
  have hsaid := said_step h.inStep hr (fun h3 => (hw h3).2) hf
  rw [h0, Bool.toNat_false, Nat.add_zero] at hsaid
  refine ⟨inStep_step h.inStep op, hrole, ?_, ?_, ?_, ?_, ?_, ?_⟩
  · rw [hcampaign]
    exact h.renouncements
  · rw [hcampaign]
    exact h.direct_eq
  · omega
  · cases h3 : s.completes op with
    | true =>
      have hlt := (hw h3).1
      rw [h3, Bool.toNat_true] at hc
      omega
    | false =>
      rw [h3, Bool.toNat_false] at hc
      omega
  · rw [hcampaign, hsaid]
    exact h.rounds
  · rw [hcampaign, hsaid]
    exact h.lastRound

/-- At the end of a cycle the promotion is due if and only if it is the fourth. -/
theorem OnCourse.due_iff (h3 : s.completes op = true) (hlt : s.node.cycle.toNat < 0xffffffff) :
    s.campaign.rounds = 0 ∧ s.campaign.lastRound.succSat < s.node.cycle.succSat ↔
      s.node.cycle.toNat = first + 3 := by
  have hf := h.first_le
  have hl := h.le_last
  have hrounds := h.rounds
  have hnow : s.said first = s.node.cycle.toNat - first + 1 := by
    simp [said, passed_of_completes h3]
  have hlast := h.lastRound (by omega)
  rw [UInt32.lt_iff_toNat_lt, UInt32.toNat_succSat, UInt32.toNat_succSat]
  omega

end step

inductive Proceeds (s : Station) (first : Nat) (direct : UInt32) (op : Op) : Prop
  | on (h : (s.step op).OnCourse first direct) (hu : ¬ s.IsBeaten direct op)
  | won (h3 : s.completes op = true) (hlast : s.node.cycle.toNat = first + 3)
      (hr : (s.step op).node.role = .head)
  | lost (hb : s.IsBeaten direct op) (hr : (s.step op).node.role = .edge)
  | reset (hr : op.isReset = true) (hs : (s.step op).node.role = .starting)

theorem not_isBeaten_of_runsSlot {s : Station} {op : Op} {slot : Nat}
    (h : s.runsSlot slot op = true) (direct : UInt32) : ¬ s.IsBeaten direct op := by
  rintro ⟨p, b, hp, -⟩
  exact nomatch h.symm.trans (runsSlot_of_packet? s (packet?_of_handled? hp).1 slot)

theorem OnCourse.proceeds {s : Station} {first : Nat} {direct : UInt32}
    (h : s.OnCourse first direct) {op : Op}
    (hw : s.completes op = true → s.node.cycle.toNat < 0xffffffff) :
    s.Proceeds first direct op := by
  have hs := campaigns_step h.inStep h.role op
  generalize ho : (s.step op).office = o at hs
  have hrole : (s.step op).node.role = o.role := congrArg Office.role ho
  have hcampaign : (s.step op).campaign = o.campaign := congrArg Office.campaign ho
  cases hs with
  | spoke h0 => exact .on (h.spoke h0) (not_isBeaten_of_runsSlot h0 direct)
  | waited h3 hd =>
    rw [h.due_iff h3 (hw h3)] at hd
    have hlt : s.node.cycle.toNat < first + 3 := lt_of_le_of_ne h.le_last hd
    refine .on ?_ (not_isBeaten_of_runsSlot h3 direct)
    exact h.stay (not_runsSlot_of_completes h3) (isReset_of_runsSlot h3)
      (fun h3 => ⟨hlt, hw h3⟩) (hrole.trans h.role) hcampaign
  | won h3 hd => exact .won h3 ((h.due_iff h3 (hw h3)).1 hd) hrole
  | kept head h0 h3 hr hn =>
    refine .on (h.stay h0 hr (by simp [h3]) (hrole.trans h.role) hcampaign) ?_
    rintro ⟨p, b, hp, hb, hy⟩
    rw [← h.direct_eq] at hy
    exact hn p b hp hb hy
  | @lost p b hh hp hy =>
    refine .lost ⟨p, b, hh, hp, ?_⟩ hrole
    rw [← h.direct_eq]
    exact hy
  | reset hr => exact .reset (by rw [hr]; rfl) hrole

/-! ## Whole candidacies -/

theorem head_run {s : Station} (hi : s.clockwork.InStep) (hh : s.node.role = .head)
    {ops : List Op} (hr : ∀ op ∈ ops, op.isReset = false) : (s.run ops).node.role = .head := by
  induction ops generalizing s with
  | nil => exact hh
  | cons op ops ih =>
    have hop := hr op (by simp)
    refine ih (inStep_step hi op) ?_ fun op' hm => hr op' (by simp [hm])
    have ht := turns_step hi op
    have hrole : s.office.role = .head := hh
    change (s.step op).office.role = .head
    generalize (s.step op).office = o at ht
    cases ht with
    | kept => exact hh
    | spoke =>
      obtain ⟨campaign, -, he⟩ := s.office.spoken_eq
      rw [he]
      exact hh
    | decided h3 hd =>
      cases hd with
      | wait | reign | stay => exact hh
      | wake hr | promote hr | recede hr | join hr | stand hr => simp [hrole] at hr
    | heeded _ ho =>
      cases ho with
      | nothing | follow => exact hh
      | concede b hc => exact nomatch hrole.symm.trans hc
      | release => simp [Office.release, Office.turn, hrole, Role.released]
    | reset hr' =>
      rw [hr'] at hop
      cases hop

section run
variable {s : Station} {first : Nat} {direct : UInt32} (h : s.OnCourse first direct)
  {ops : List Op} (hlt : (s.run ops).node.cycle.toNat < 0xffffffff)
include h hlt

/-- As long as the candidacy persists it is on course, and slot zero has sent what is due. -/
theorem OnCourse.run (hp : s.Persists ops) :
    (s.run ops).OnCourse first direct ∧ s.Unbeaten direct ops ∧
      s.said first + (s.speeches ops).length = (s.run ops).said first ∧
      ∀ (n : Nat) (e : Speech), (s.speeches ops)[n]? = some e →
        e.IsNth first direct (s.said first + n) := by
  -- the course is carried along the run, and counts the speeches by itself
  induction ops generalizing s with
  | nil => exact ⟨h, trivial, rfl, by simp [speeches]⟩
  | cons op ops ih =>
    have hr := hp.noReset
    have hle := cycle_le_run hr h.inStep
    have hw : s.completes op = true → s.node.cycle.toNat < 0xffffffff := fun _ => by omega
    have hsaid := said_step h.inStep (hr op (by simp)) hw h.first_le
    have hrole := Persists.role_eq hp.2
    cases h.proceeds hw with
    | won _ _ hr' => exact nomatch hr'.symm.trans hrole
    | lost _ hr' => exact nomatch hr'.symm.trans hrole
    | reset _ hr' => exact nomatch hr'.symm.trans hrole
    | on h' hu =>
      obtain ⟨hrun, hunbeaten, hlen, hnth⟩ := ih h' hlt hp.2
      refine ⟨hrun, ⟨hu, hunbeaten⟩, ?_, ?_⟩
      · rw [run_cons, ← hlen, hsaid, speeches]
        cases s.runsSlot 0 op with
        | true =>
          simp only [if_true, List.length_cons, Bool.toNat_true]
          omega
        | false => simp
      · intro n e he
        rw [speeches] at he
        cases h0 : s.runsSlot 0 op with
        | false =>
          rw [h0, if_neg (by simp)] at he
          rw [h0, Bool.toNat_false, Nat.add_zero] at hsaid
          rw [← hsaid]
          exact hnth n e he
        | true =>
          rw [h0, if_pos rfl] at he
          rw [h0, Bool.toNat_true] at hsaid
          cases n with
          | zero =>
            cases he
            exact h.speech_isNth h0
          | succ n =>
            have hshift : s.said first + (n + 1) = (s.step op).said first + n := by omega
            rw [hshift]
            exact hnth n e he

/-- A candidacy that nobody beats and no reset ends is on course up to the fourth end of a
cycle, and the station is head from then on. -/
theorem OnCourse.outcome (hr : ∀ op ∈ ops, op.isReset = false) (hu : s.Unbeaten direct ops) :
    (s.run ops).OnCourse first direct ∨
      (s.run ops).node.role = .head ∧ first + 4 ≤ (s.run ops).node.cycle.toNat := by
  induction ops generalizing s with
  | nil => exact .inl h
  | cons op ops ih =>
    have hop := hr op (by simp)
    have hops : ∀ op' ∈ ops, op'.isReset = false := fun op' hm => hr op' (by simp [hm])
    have hle := cycle_le_run hr h.inStep
    have hw : s.completes op = true → s.node.cycle.toNat < 0xffffffff := fun _ => by omega
    cases h.proceeds hw with
    | on h' _ => exact ih h' hlt hops hu.2
    | lost hb _ => exact absurd hb hu.1
    | reset hr' _ => exact nomatch hop.symm.trans hr'
    | won h3 hlast hhead =>
      have hi := inStep_step h.inStep op
      have hc := toNat_cycle_step h.inStep hop hw
      have hle' := cycle_le_run hops hi
      rw [h3, Bool.toNat_true] at hc
      refine .inr ⟨head_run hi hhead hops, ?_⟩
      rw [run_cons]
      omega

end run

/-- A candidate has come to stand in some step, and has persisted since. -/
theorem exists_standing {s : Station} (hs : s.node.role ≠ .candidate) {ops : List Op}
    (hc : (s.run ops).node.role = .candidate) :
    ∃ before standing mid, ops = before ++ standing :: mid ∧
      (s.run before).node.role ≠ .candidate ∧ (s.run (before ++ [standing])).Persists mid := by
  induction ops using List.reverseRecOn with
  | nil => exact absurd hc hs
  | append_singleton ops op ih =>
    by_cases hr : (s.run ops).node.role = .candidate
    · obtain ⟨before, standing, mid, rfl, hn, hp⟩ := ih hr
      refine ⟨before, standing, mid ++ [op], by simp, hn, persists_append.2 ⟨hp, ?_⟩⟩
      have hsplit : (before ++ standing :: mid) ++ [op] =
          (before ++ [standing]) ++ mid ++ [op] := by simp
      rw [hsplit, run_append, run_append] at hc
      exact ⟨hp.role_run, hc⟩
    · exact ⟨ops, op, [], rfl, hr, hc⟩

structure Stands (s : Station) (op : Op) : Prop where
  before : s.node.role ≠ .candidate
  completes : s.completes op = true
  after : (s.step op).node.role = .candidate

/-- A candidacy that nobody has beaten, with announcements in three cycles and a beacon in the
fourth. -/
structure Campaigned (entry : Station) (ops : List Op) : Prop where
  persists : entry.Persists ops
  unbeaten : entry.Unbeaten entry.campaign.direct ops
  speeches : ∃ e₀ e₁ e₂ e₃, entry.speeches ops = [e₀, e₁, e₂, e₃] ∧
    e₀.Announces entry.node.cycle.toNat entry.campaign.direct 2 ∧
    e₁.Announces (entry.node.cycle.toNat + 1) entry.campaign.direct 1 ∧
    e₂.Announces (entry.node.cycle.toNat + 2) entry.campaign.direct 0 ∧
    e₃.Greets (entry.node.cycle.toNat + 3)

/-- A promotion of a candidate that has just begun a campaign ends the fourth cycle of it. -/
theorem campaigned_of_head {entry : Station} {ops : List Op} {op : Op}
    (h : entry.OnCourse entry.node.cycle.toNat entry.campaign.direct)
    (hsaid : entry.said entry.node.cycle.toNat = 0) (hp : entry.Persists ops)
    (hh : ((entry.run ops).step op).node.role = .head)
    (hlt : ((entry.run ops).step op).node.cycle.toNat < 0xffffffff) :
    (entry.run ops).completes op = true ∧ entry.Campaigned ops ∧
      ((entry.run ops).step op).node.cycle.toNat = entry.node.cycle.toNat + 4 := by
  have hi := (hp.frozen h.inStep).1
  have hr : op.isReset = false := by
    cases op with
    | reset => cases hh
    | _ => rfl
  have hle : (entry.run ops).node.cycle.toNat ≤ ((entry.run ops).step op).node.cycle.toNat :=
    cycle_le_run (by simpa using hr : ∀ op' ∈ [op], op'.isReset = false) hi
  have hw : (entry.run ops).completes op = true →
      (entry.run ops).node.cycle.toNat < 0xffffffff := fun _ => by omega
  obtain ⟨hcourse, hunbeaten, hlen, hnth⟩ := h.run (by omega) hp
  cases hcourse.proceeds hw with
  | on h' _ => exact nomatch hh.symm.trans h'.role
  | lost _ hr' => exact nomatch hh.symm.trans hr'
  | reset _ hr' => exact nomatch hh.symm.trans hr'
  | won h3 hlast _ =>
    have hc := toNat_cycle_step hi hr hw
    have hfour : (entry.run ops).said entry.node.cycle.toNat = 4 := by
      rw [said, passed_of_completes h3, hlast, Bool.toNat_true]
      omega
    rw [h3, Bool.toNat_true] at hc
    refine ⟨h3, ⟨hp, hunbeaten, ?_⟩, by omega⟩
    have hlen : (entry.speeches ops).length = 4 := by omega
    simp only [hsaid, Nat.zero_add] at hnth
    generalize entry.speeches ops = es at hlen hnth
    match es, hlen with
    | [e₀, e₁, e₂, e₃], _ =>
      exact ⟨e₀, e₁, e₂, e₃, rfl, hnth 0 e₀ rfl, hnth 1 e₁ rfl, hnth 2 e₂ rfl, hnth 3 e₃ rfl⟩

/-- A candidate that has just begun a campaign, and that nobody beats and no reset stops, is
promoted at the fourth end of a cycle. -/
theorem promoted_of_unbeaten {entry : Station} {ops : List Op}
    (h : entry.OnCourse entry.node.cycle.toNat entry.campaign.direct)
    (hr : ∀ op ∈ ops, op.isReset = false) (hu : entry.Unbeaten entry.campaign.direct ops)
    (hlt : (entry.run ops).node.cycle.toNat < 0xffffffff) :
    (entry.laps 0 ops < 4 → (entry.run ops).node.role = .candidate) ∧
      (4 ≤ entry.laps 0 ops → (entry.run ops).node.role = .head) := by
  have hword := entry.node.cycle.toNat_lt
  have hn : entry.node.cycle.toNat = min entry.node.cycle.toNat 0xffffffff := by omega
  have hc := cycle_run h.inStep hn ops
  rw [laps_eq_add hr] at hc
  obtain hcourse | ⟨hhead, hfour⟩ := h.outcome hlt hr hu
  · have hle := hcourse.le_last
    exact ⟨fun _ => hcourse.role, fun _ => by omega⟩
  · exact ⟨fun _ => by omega, fun _ => hhead⟩

/-- A promotion happens at the end of a cycle, four after the one that made the station a
candidate, and crowns a whole campaign. Conversely a candidate that nobody beats and no reset
stops is promoted at the fourth end of a cycle. Both hold as long as the cycles can be
counted. -/
theorem promotion_earned {settings : Settings} {receivers : Receivers} {s : Station}
    (hs : Station.start settings receivers = .ok s) :
    (∀ ops op, s.laps 0 (ops ++ [op]) < 0xffffffff →
      (s.run ops).node.role = .candidate → (s.run (ops ++ [op])).node.role = .head →
      (s.run ops).completes op = true ∧
        ∃ before standing mid, ops = before ++ standing :: mid ∧
          (s.run before).Stands standing ∧ ((s.run before).step standing).Campaigned mid ∧
          (s.run (ops ++ [op])).node.cycle.toNat =
            ((s.run before).step standing).node.cycle.toNat + 4) ∧
    ∀ before standing mid entry, s.laps 0 (before ++ standing :: mid) < 0xffffffff →
      entry = (s.run before).step standing →
      (s.run before).node.role ≠ .candidate → entry.node.role = .candidate →
      (∀ op ∈ mid, op.isReset = false) → entry.Unbeaten entry.campaign.direct mid →
      (entry.laps 0 mid < 4 → (entry.run mid).node.role = .candidate) ∧
        (4 ≤ entry.laps 0 mid → (entry.run mid).node.role = .head) := by
  have hfresh := (start_eq hs).2
  have hi : ∀ ops, (s.run ops).clockwork.InStep := fun ops => ((Reachable.start hs).run ops).inStep
  have hcycle : ∀ ops, s.laps 0 ops < 0xffffffff → (s.run ops).node.cycle.toNat < 0xffffffff := by
    intro ops hl
    have hzero : s.node.cycle.toNat = min 0 0xffffffff := by rw [hfresh]; rfl
    rw [cycle_run (Reachable.start hs).inStep hzero]
    exact lt_of_le_of_lt (min_le_left ..) hl
  constructor
  · intro ops op hl hc hh
    have hlt := hcycle _ hl
    have hstart : s.node.role ≠ .candidate := by rw [hfresh]; nofun
    obtain ⟨before, standing, mid, rfl, hn, hp⟩ := exists_standing hstart hc
    rw [run_concat, run_append_cons] at hh hlt ⊢
    rw [run_concat] at hp
    obtain ⟨h3, hsaid, hcourse⟩ := onCourse_of_stands (hi before) hn hp.role_eq
    obtain ⟨hcompletes, hcampaigned, hfour⟩ := campaigned_of_head hcourse hsaid hp hh hlt
    exact ⟨hcompletes, before, standing, mid, rfl, ⟨hn, h3, hp.role_eq⟩, hcampaigned, hfour⟩
  · rintro before standing mid entry hl rfl hn hc hr hu
    have hlt := hcycle _ hl
    rw [run_append_cons] at hlt
    obtain ⟨-, -, hcourse⟩ := onCourse_of_stands (hi before) hn hc
    exact promoted_of_unbeaten hcourse hr hu hlt

/-- A station that hears five neighbors in its first cycle stands for head after the second one. The
announcement of a rival with fewer neighbors does not keep it from being promoted. -/
theorem promotion_earned_with_five_neighbors :
    let c : Settings := { id := 1, plan := ⟨1, 50, 1, 10⟩ }
    let s := fresh c {}
    let tick : Op := .tick .zero
    let greetings : List Op :=
      [2, 3, 4, 5, 6].map fun id => .receive (fresh { id } {}).beacon (-50) .zero
    let rival : Packet := { sender := 9, content := .candidacy { direct := 3 } }
    let before := List.replicate 2 tick ++ greetings ++ List.replicate 9 tick
    let mid := List.replicate 3 tick ++ .receive rival (-50) .zero :: List.replicate 20 tick
    let ops := before ++ tick :: mid
    Station.start c {} = .ok s ∧
      (s.run ops).node.role = .candidate ∧ (s.run (ops ++ [tick])).node.role = .head ∧
      ∃ early standing late, ops = early ++ standing :: late ∧ (s.run early).Stands standing ∧
        ((s.run early).step standing).Campaigned late ∧
        (s.run (ops ++ [tick])).node.cycle.toNat =
          ((s.run early).step standing).node.cycle.toNat + 4 := by
  intro c s tick greetings rival before mid ops
  have hs : Station.start c {} = .ok s := rfl
  generalize hentry : (s.run before).step tick = entry
  obtain ⟨hn, hc, hfive, hthree, hends⟩ :
      (s.run before).node.role ≠ .candidate ∧ entry.node.role = .candidate ∧
        entry.campaign.direct = 5 ∧ entry.laps 0 mid = 3 ∧
        (entry.run mid).completes tick = true := by
    rw [← hentry]
    decide +kernel
  have hunbeaten {ops : List Op} (h : ops.filterMap Op.packet? = [rival]) :
      entry.Unbeaten entry.campaign.direct ops := by
    refine unbeaten_of_fewer (fun p hp b hb => ?_) entry
    rw [h] at hp
    cases List.mem_singleton.1 hp
    cases hb
    rw [hfive]
    decide
  have hfour : entry.laps 0 (mid ++ [tick]) = 4 := by
    rw [laps_append, hthree, laps, hends]
    rfl
  have hops : ops ++ [tick] = before ++ tick :: (mid ++ [tick]) := by simp [ops]
  have hlaps : s.laps 0 ops < 0xffffffff := lt_of_le_of_lt (s.laps_le 0 _) (by decide)
  have hlaps' : s.laps 0 (ops ++ [tick]) < 0xffffffff :=
    lt_of_le_of_lt (s.laps_le 0 _) (by decide)
  obtain ⟨hcrowns, hpromotes⟩ := promotion_earned hs
  have hcandidate : (s.run ops).node.role = .candidate := by
    rw [run_append_cons, hentry]
    exact (hpromotes before tick mid entry hlaps hentry.symm hn hc (by decide)
      (hunbeaten rfl)).1 (by omega)
  have hhead : (s.run (ops ++ [tick])).node.role = .head := by
    rw [hops, run_append_cons, hentry]
    exact (hpromotes before tick (mid ++ [tick]) entry (hops ▸ hlaps') hentry.symm hn hc
      (by decide) (hunbeaten rfl)).2 (by omega)
  obtain ⟨-, hcampaign⟩ := hcrowns ops tick hlaps' hcandidate hhead
  exact ⟨hs, hcandidate, hhead, hcampaign⟩

end ClusterMesh.Station
