import ClusterMesh.Proofs.Station.Instruments
import ClusterMesh.Proofs.Station.Laps

/-! The round of a station in closed form. A round is all noisy slots, all neighbor slots and
the four slots of discovery, and every tick of an enabled station goes one slot on. So the
number of ticks tells the phase, the slot and the rounds that are complete, whatever was
heard meanwhile. -/
namespace ClusterMesh

def SlotPlan.round (p : SlotPlan) : Nat := p.noisyCount.toNat + p.neighborCount.toNat + 4

namespace Settings.Valid
variable {c : Settings} (h : c.Valid)
include h

theorem noisyCount_pos : 0 < c.plan.noisyCount.toNat :=
  Nat.pos_of_ne_zero fun h0 => h.noisyCount_ne (UInt32.toNat_inj.1 h0)

theorem neighborCount_pos : 0 < c.plan.neighborCount.toNat :=
  Nat.pos_of_ne_zero fun h0 => h.neighborCount_ne (UInt32.toNat_inj.1 h0)

end Settings.Valid

namespace Clockwork

/-- The slot that comes next, counted from the first one of the round. -/
def place (c : Clockwork) : Nat :=
  match c.phase with
  | .noisy => c.phaseSlot
  | .neighbor => c.settings.plan.noisyCount.toNat + c.phaseSlot
  | .discovery =>
    c.settings.plan.noisyCount.toNat + c.settings.plan.neighborCount.toNat + c.cycle.slot.val

structure InTime (c : Clockwork) : Prop where
  noisy : c.phase = .noisy → c.phaseSlot < c.settings.plan.noisyCount.toNat
  neighbor : c.phase = .neighbor → c.phaseSlot < c.settings.plan.neighborCount.toNat

section place
variable {c : Clockwork}

theorem place_noisy (h : c.phase = .noisy) : c.place = c.phaseSlot := by
  rw [place, h]

theorem place_neighbor (h : c.phase = .neighbor) :
    c.place = c.settings.plan.noisyCount.toNat + c.phaseSlot := by
  rw [place, h]

theorem place_discovery (h : c.phase = .discovery) :
    c.place = c.settings.plan.noisyCount.toNat + c.settings.plan.neighborCount.toNat +
      c.cycle.slot.val := by
  rw [place, h]

theorem place_lt_round (h : c.InTime) : c.place < c.settings.plan.round := by
  unfold SlotPlan.round
  cases hp : c.phase with
  | noisy =>
    have hn := h.noisy hp
    rw [place_noisy hp]
    omega
  | neighbor =>
    have hn := h.neighbor hp
    rw [place_neighbor hp]
    omega
  | discovery =>
    have hs := c.cycle.slot.isLt
    rw [place_discovery hp]
    omega

theorem phase_eq (h : c.InTime) :
    c.phase =
      if c.place < c.settings.plan.noisyCount.toNat then .noisy
      else if c.place < c.settings.plan.noisyCount.toNat + c.settings.plan.neighborCount.toNat then
        .neighbor
      else .discovery := by
  cases hp : c.phase with
  | noisy => rw [place_noisy hp, if_pos (h.noisy hp)]
  | neighbor =>
    have hn := h.neighbor hp
    rw [place_neighbor hp, if_neg (by omega), if_pos (by omega)]
  | discovery => rw [place_discovery hp, if_neg (by omega), if_neg (by omega)]

/-! Every slot leads to the next place, from the last one of a phase into the phase after it. -/

theorem next_noisy (hv : c.settings.Valid) (hi : c.InTime) (hp : c.phase = .noisy) :
    let c' :=
      if c.settings.plan.noisyCount.toNat ≤ c.phaseSlot + 1 then
        { c with phase := .neighbor, phaseSlot := 0 }
      else { c with phaseSlot := c.phaseSlot + 1 }
    c'.InTime ∧ c'.place = c.place + 1 := by
  have hlt := hi.noisy hp
  rw [place_noisy hp]
  by_cases he : c.settings.plan.noisyCount.toNat ≤ c.phaseSlot + 1
  · have heq : c.settings.plan.noisyCount.toNat = c.phaseSlot + 1 := Nat.le_antisymm he hlt
    rw [if_pos he]
    exact ⟨⟨nofun, fun _ => hv.neighborCount_pos⟩, (place_neighbor rfl).trans heq⟩
  · rw [if_neg he]
    refine ⟨⟨fun _ => Nat.not_le.1 he, fun hq => ?_⟩, place_noisy hp⟩
    cases hp.symm.trans hq

theorem next_neighbor (hi : c.InTime) (hp : c.phase = .neighbor) :
    let c' :=
      if c.settings.plan.neighborCount.toNat ≤ c.phaseSlot + 1 then
        { c with
          phase := .discovery
          phaseSlot := 0
          cycle := { c.cycle with running := true, slot := 0 } }
      else { c with phaseSlot := c.phaseSlot + 1 }
    c'.InTime ∧ c'.place = c.place + 1 := by
  have hlt := hi.neighbor hp
  rw [place_neighbor hp, Nat.add_assoc]
  by_cases he : c.settings.plan.neighborCount.toNat ≤ c.phaseSlot + 1
  · have heq : c.settings.plan.neighborCount.toNat = c.phaseSlot + 1 := Nat.le_antisymm he hlt
    rw [if_pos he, ← heq]
    exact ⟨⟨nofun, nofun⟩, place_discovery rfl⟩
  · rw [if_neg he]
    refine ⟨⟨fun hq => ?_, fun _ => Nat.not_le.1 he⟩, place_neighbor hp⟩
    cases hp.symm.trans hq

theorem next_slot (hp : c.phase = .discovery) (h3 : c.cycle.slot ≠ 3) :
    let c' := { c with cycle := { c.cycle with slot := c.cycle.slot + 1 } }
    c'.InTime ∧ c'.place = c.place + 1 := by
  have hsucc : ∀ a : Fin 4, a ≠ 3 → (a + 1).val = a.val + 1 := by decide
  rw [place_discovery hp, Nat.add_assoc, ← hsucc _ h3]
  refine ⟨⟨fun hq => ?_, fun hq => ?_⟩, place_discovery hp⟩
  · cases hp.symm.trans hq
  · cases hp.symm.trans hq

theorem next_last (hp : c.phase = .discovery) (h3 : c.cycle.slot = 3) :
    c.place + 1 = c.settings.plan.round := by
  rw [place_discovery hp, h3]
  rfl

theorem inTime_first (hv : c.settings.Valid) (hp : c.phase = .noisy) (hs : c.phaseSlot = 0) :
    c.InTime := by
  refine ⟨fun _ => ?_, fun hq => ?_⟩
  · rw [hs]
    exact hv.noisyCount_pos
  · cases hp.symm.trans hq

end place

end Clockwork

namespace Station

def runsAny (s : Station) : Op → Bool
  | .tick _ => s.enabled
  | _ => false

def tally (count : Station → Op → Nat) (s : Station) (n : Nat) : List Op → Nat
  | [] => n
  | op :: ops => tally count (s.step op) (if op.isReset then 0 else n + count s op) ops

def slotsRun : Station → Nat → List Op → Nat := tally fun s op => (s.runsAny op).toNat

def noisyRun : Station → Nat → List Op → Nat := tally fun s op => (s.runsNoisy op).toNat

def published : Station → Nat → List Op → Nat :=
  tally fun s op => (s.step op).outbox.measures.size - s.outbox.measures.size

def noisyAt (c : Settings) : Nat → Airtime
  | 0 => noisyAirtime c
  | n + 1 => (noisyAt c n).advance

def broadcastsNoisy (c : Settings) (n : Nat) : Bool := (noisyAt c (n + 1)).broadcasting

/-! ## The place in the round -/

theorem runsAny_of_runsSlot {s : Station} {op : Op} {slot : Nat}
    (h : s.runsSlot slot op = true) : s.runsAny op = true := by
  cases op with
  | tick now =>
    simp only [runsSlot, Bool.and_eq_true] at h
    exact h.1.1
  | _ => cases h

theorem isReset_of_runsAny {s : Station} {op : Op} (h : s.runsAny op = true) :
    op.isReset = false := by
  cases op with
  | reset => cases h
  | _ => rfl

theorem runsAny_of_runsNoisy {s : Station} {op : Op} (h : s.runsNoisy op = true) :
    s.runsAny op = true := by
  cases op with
  | tick now =>
    simp only [runsNoisy, Bool.and_eq_true] at h
    exact h.1
  | _ => cases h

theorem clockwork_step_of_not {s : Station} {op : Op} (ha : s.runsAny op = false)
    (hr : op.isReset = false) :
    ∃ enabled, (s.step op).clockwork = { s.clockwork with enabled } := by
  obtain ⟨now, rfl⟩ | rfl | ⟨p, hp⟩ | hp := op.kinds
  · have ht : s.step (.tick now) = s := by
      rw [step, tick, if_pos (by simpa [runsAny] using ha)]
    exact ⟨s.enabled, by rw [ht]; rfl⟩
  · cases hr
  · obtain ⟨rssi, now, hs⟩ := step_of_packet? s hp
    exact ⟨s.enabled, by rw [hs, clockwork_receive]; rfl⟩
  · exact (step_plain s hp).2.2

inductive Moves (s : Station) (op : Op) : Nat → Prop
  | stay (ha : s.runsAny op = false) (h3 : s.completes op = false) (hr : op.isReset = false) :
      Moves s op s.clockwork.place
  | next (ha : s.runsAny op = true) (h3 : s.completes op = false) (hr : op.isReset = false) :
      Moves s op (s.clockwork.place + 1)
  | around (ha : s.runsAny op = true) (h3 : s.completes op = true) (hr : op.isReset = false)
      (hp : s.clockwork.place + 1 = s.settings.plan.round) : Moves s op 0
  | reset (hr : op.isReset = true) : Moves s op 0

theorem not_completes_of_phase {s : Station} (hp : s.phase ≠ .discovery) (op : Op) :
    s.completes op = false := by
  cases op with
  | tick now => simp [completes, runsSlot, hp]
  | _ => rfl

theorem not_completes_of_slot {s : Station} {op : Op}
    (hs : s.runsSlot s.cycle.slot op = true) (h3 : s.cycle.slot ≠ 3) :
    s.completes op = false :=
  (runsSlot_of_runsSlot hs 3).trans (decide_eq_false fun hv => h3 (Fin.ext hv.symm))

theorem moves_of_runsAny {s : Station} (h : s.clockwork.InStep) (hv : s.settings.Valid)
    (hi : s.clockwork.InTime) {op : Op} (ha : s.runsAny op = true) :
    (s.step op).clockwork.InTime ∧ s.Moves op (s.step op).clockwork.place := by
  have hr := isReset_of_runsAny ha
  have hw := winds_step h op
  generalize (s.step op).clockwork = c at hw
  cases hw with
  -- what runs a slot neither idles nor resets
  | idle enabled hs hr ht =>
    cases op with
    | tick now => cases (ht now rfl).symm.trans ha
    | _ => cases ha
  | reset ho => cases ho ▸ hr
  | noisy hp =>
    obtain ⟨htime, hplace⟩ := Clockwork.next_noisy (c := s.clockwork) hv hi hp
    exact ⟨htime, hplace ▸ .next ha (not_completes_of_phase (by simp [hp]) op) hr⟩
  | neighbor hp =>
    obtain ⟨htime, hplace⟩ := Clockwork.next_neighbor (c := s.clockwork) hi hp
    exact ⟨htime, hplace ▸ .next ha (not_completes_of_phase (by simp [hp]) op) hr⟩
  | slot hp hs h3 =>
    obtain ⟨htime, hplace⟩ := Clockwork.next_slot (c := s.clockwork) hp h3
    exact ⟨htime, hplace ▸ .next ha (not_completes_of_slot hs h3) hr⟩
  | last hp hs h3 =>
    exact ⟨Clockwork.inTime_first hv rfl rfl, .around ha hs hr (Clockwork.next_last hp h3)⟩

theorem moves_of_not_runsAny {s : Station} (hv : s.settings.Valid) (hi : s.clockwork.InTime)
    {op : Op} (ha : s.runsAny op = false) :
    (s.step op).clockwork.InTime ∧ s.Moves op (s.step op).clockwork.place := by
  cases hr : op.isReset with
  | true =>
    cases op with
    | reset => exact ⟨Clockwork.inTime_first hv rfl rfl, .reset rfl⟩
    | _ => cases hr
  | false =>
    have h3 : s.completes op = false := by
      rw [← Bool.not_eq_true]
      intro hs
      cases (runsAny_of_runsSlot hs).symm.trans ha
    obtain ⟨enabled, hc⟩ := clockwork_step_of_not ha hr
    rw [hc]
    exact ⟨⟨hi.noisy, hi.neighbor⟩, .stay ha h3 hr⟩

theorem moves_step {s : Station} (h : s.clockwork.InStep) (hv : s.settings.Valid)
    (hi : s.clockwork.InTime) (op : Op) :
    (s.step op).clockwork.InTime ∧ s.Moves op (s.step op).clockwork.place := by
  cases ha : s.runsAny op with
  | true => exact moves_of_runsAny h hv hi ha
  | false => exact moves_of_not_runsAny hv hi ha

/-- Of a place that is a remainder, a move makes the next remainder, and the quotient counts
the rounds. -/
theorem Moves.div_mod {s : Station} {op : Op} {place t : Nat} (h : s.Moves op place)
    (hlt : place < s.settings.plan.round) (ht : s.clockwork.place = t % s.settings.plan.round) :
    let t' := if op.isReset then 0 else t + (s.runsAny op).toNat
    place = t' % s.settings.plan.round ∧
      t' / s.settings.plan.round =
        if op.isReset then 0
        else if s.completes op then t / s.settings.plan.round + 1
        else t / s.settings.plan.round := by
  have hpos : 0 < s.settings.plan.round := Nat.zero_lt_of_lt hlt
  have hsplit := Nat.mod_add_div t s.settings.plan.round
  rw [← ht] at hsplit
  -- a place below the round and the rounds before it can be read off their total
  have hread : ∀ t' q, place + s.settings.plan.round * q = t' →
      place = t' % s.settings.plan.round ∧ t' / s.settings.plan.round = q := by
    intro t' q he
    obtain ⟨hq, hr⟩ := (Nat.div_mod_unique hpos).2 ⟨he, hlt⟩
    exact ⟨hr.symm, hq⟩
  cases h with
  | stay ha h3 hr =>
    rw [hr, ha, h3]
    exact hread _ _ hsplit
  | next ha h3 hr =>
    have hnext : s.clockwork.place + 1 + s.settings.plan.round * (t / s.settings.plan.round) =
        t + 1 := by omega
    rw [hr, ha, h3]
    exact hread _ _ hnext
  | around ha h3 hr hp =>
    have haround : 0 + s.settings.plan.round * (t / s.settings.plan.round + 1) = t + 1 := by
      rw [Nat.mul_succ]
      omega
    rw [hr, ha, h3]
    exact hread _ _ haround
  | reset hr =>
    rw [hr]
    exact hread _ _ rfl

/-! ## What moves with it -/

theorem count_step {s : Station} (h : s.clockwork.InStep) (op : Op) :
    (s.step op).cycle.count =
      if op.isReset then 0
      else if s.completes op then s.cycle.count + 1
      else s.cycle.count := by
  have hw := winds_step h op
  generalize hc : (s.step op).clockwork = c at hw
  have hcount : (s.step op).cycle.count = c.cycle.count :=
    congrArg (fun c => c.cycle.count) hc
  rw [hcount]
  cases hw with
  | idle enabled hs hr =>
    rw [hr, completes, hs]
    rfl
  | noisy hp hr =>
    rw [hr, not_completes_of_phase (by simp [hp])]
    split <;> rfl
  | neighbor hp hr =>
    rw [hr, not_completes_of_phase (by simp [hp])]
    split <;> rfl
  | slot hp hs h3 =>
    rw [isReset_of_runsSlot hs, not_completes_of_slot hs h3]
    rfl
  | last hp hs h3 =>
    rw [isReset_of_runsSlot hs, hs]
    rfl
  | reset hr =>
    rw [hr]
    rfl

theorem not_completes_of_runsNoisy {s : Station} {op : Op} (h : s.runsNoisy op = true) :
    s.completes op = false := by
  cases op with
  | tick now =>
    simp only [runsNoisy, Bool.and_eq_true, decide_eq_true_eq] at h
    exact not_completes_of_phase (by simp [h.2]) _
  | _ => cases h

section instruments
variable {s : Station} (h : s.clockwork.InStep) (op : Op)
include h

theorem reporting_step : (s.step op).receivers.measures = s.receivers.measures := by
  have ht := tunes_step h op
  generalize hi : (s.step op).instruments = i at ht
  have hfield : (s.step op).receivers.measures = i.reporting := congrArg Instruments.reporting hi
  generalize (s.step op).phase = phase at ht
  rw [hfield]
  cases ht <;> rfl

theorem published_step :
    (s.step op).outbox.measures.size - s.outbox.measures.size =
      if s.completes op = true ∧ s.receivers.measures = true then 1 else 0 := by
  have ht := tunes_step h op
  generalize hi : (s.step op).instruments = i at ht
  have hfield : (s.step op).outbox.measures = i.reports := congrArg Instruments.reports hi
  generalize (s.step op).phase = phase at ht
  have hkept : s.outbox.measures.size - s.outbox.measures.size =
      if false = true ∧ s.receivers.measures = true then 1 else 0 := by simp
  rw [hfield]
  cases ht with
  | kept dice crowding noise hn h3 => rw [h3]; exact hkept
  | noisy hn => rw [not_completes_of_runsNoisy hn]; exact hkept
  | settled hn => rw [not_completes_of_runsNoisy hn]; exact hkept
  | neighbor hp hp' hn h3 => rw [h3]; exact hkept
  | reset hr => rw [hr]; exact hkept
  | completed dice m h3 =>
    rw [h3]
    by_cases hm : s.receivers.measures = true
    · simp [Instruments.report, instruments, hm]
    · simp [Instruments.report, instruments, hm]

theorem noisy_step :
    (s.step op).noisy =
      if op.isReset then noisyAirtime s.settings
      else if s.runsNoisy op then s.noisy.advance
      else s.noisy := by
  have ht := tunes_step h op
  generalize hi : (s.step op).instruments = i at ht
  have hfield : (s.step op).noisy = i.noisy := congrArg Instruments.noisy hi
  generalize (s.step op).phase = phase at ht
  have hnoisy (hn : s.runsNoisy op = true) : op.isReset = false :=
    isReset_of_runsAny (runsAny_of_runsNoisy hn)
  rw [hfield]
  cases ht with
  | kept dice crowding noise hn h3 hr => rw [hr, hn]; rfl
  | noisy hn => rw [hnoisy hn, hn]; rfl
  | settled hn => rw [hnoisy hn, hn]; rfl
  | neighbor hp hp' hn h3 hr => rw [hr, hn]; rfl
  | reset hr => rw [hr]; rfl
  | completed dice m h3 =>
    have hn : s.runsNoisy op = false := by
      rw [← Bool.not_eq_true]
      exact fun hn => nomatch h3.symm.trans (not_completes_of_runsNoisy hn)
    rw [isReset_of_runsSlot h3, hn]
    rfl

theorem measuring_step (hm : s.survey.measuring = true ↔ s.phase = .noisy) :
    (s.step op).survey.measuring = true ↔ (s.step op).phase = .noisy := by
  have ht := tunes_step h op
  generalize hi : (s.step op).instruments = i at ht
  have hfield : (s.step op).survey.measuring = i.measuring := congrArg Instruments.measuring hi
  generalize (s.step op).phase = phase at ht
  rw [hfield]
  cases ht with
  | kept | noisy => exact hm
  | settled => exact ⟨nofun, nofun⟩
  | neighbor hp hp' =>
    have hoff : ¬ s.survey.measuring = true := fun hon => nomatch hp.symm.trans (hm.1 hon)
    exact ⟨fun hon => absurd hon hoff, fun hq => absurd hq hp'⟩
  | completed | reset => exact ⟨fun _ => rfl, fun _ => rfl⟩

end instruments

/-! ## Whole runs -/

/-- A station that has run `t` slots, `k` of them noisy, and published `m` times. -/
structure OnSchedule (c : Settings) (r : Receivers) (s : Station) (t k m : Nat) : Prop where
  inStep : s.clockwork.InStep
  inTime : s.clockwork.InTime
  settings : s.settings = c
  reporting : s.receivers.measures = r.measures
  place : s.clockwork.place = t % c.plan.round
  count : s.cycle.count = UInt32.ofNat (t / c.plan.round)
  cycle : s.node.cycle.toNat = min (t / c.plan.round) 0xffffffff
  noisy : s.noisy = noisyAt c k
  measuring : s.survey.measuring = true ↔ s.phase = .noisy
  published : m = if r.measures then t / c.plan.round else 0

theorem onSchedule_start {settings : Settings} {receivers : Receivers} {s : Station}
    (hs : Station.start settings receivers = .ok s) : OnSchedule settings receivers s 0 0 0 := by
  obtain ⟨hv, rfl⟩ := start_eq hs
  constructor
  case inStep => exact inStep_fresh _ _
  case inTime => exact Clockwork.inTime_first hv rfl rfl
  case place => exact (Nat.zero_mod _).symm
  case count => rw [Nat.zero_div]; rfl
  case cycle => rw [Nat.zero_div]; rfl
  case published => rw [Nat.zero_div, ite_self]
  case measuring => exact ⟨fun _ => rfl, fun _ => rfl⟩
  all_goals rfl

theorem OnSchedule.step {c : Settings} {r : Receivers} {s : Station} {t k m : Nat}
    (h : OnSchedule c r s t k m) (hv : c.Valid) (op : Op) :
    OnSchedule c r (s.step op)
      (if op.isReset then 0 else t + (s.runsAny op).toNat)
      (if op.isReset then 0 else k + (s.runsNoisy op).toNat)
      (if op.isReset then 0
        else m + ((s.step op).outbox.measures.size - s.outbox.measures.size)) := by
  obtain ⟨hstep, htime, rfl, hrep, hplace, hcount, hcycle, hnoisy, hmeas, hpub⟩ := h
  obtain ⟨hi, hm⟩ := moves_step hstep hv htime op
  have hset := settings_step hstep op
  have hlt : (s.step op).clockwork.place < s.settings.plan.round := by
    have hlt := Clockwork.place_lt_round hi
    rw [show (s.step op).clockwork.settings = _ from hset] at hlt
    exact hlt
  obtain ⟨hplace', hlaps⟩ := hm.div_mod hlt hplace
  constructor
  case inStep => exact inStep_step hstep op
  case inTime => exact hi
  case settings => exact hset
  case reporting => exact (reporting_step hstep op).trans hrep
  case place => exact hplace'
  case count =>
    rw [count_step hstep op, hlaps, hcount]
    split
    · rfl
    · split
      · exact (UInt32.ofNat_add ..).symm
      · rfl
  case cycle =>
    rw [cycle_step hstep op, hlaps]
    split
    · rfl
    · split
      · exact toNat_succSat_of_min hcycle
      · exact hcycle
  case noisy =>
    rw [noisy_step hstep op, hnoisy]
    split
    · rfl
    · cases s.runsNoisy op <;> rfl
  case measuring => exact measuring_step hstep op hmeas
  case published =>
    rw [published_step hstep op, hlaps, hpub, hrep]
    cases op.isReset with
    | true => simp
    | false => cases s.completes op <;> cases r.measures <;> rfl

theorem OnSchedule.run {c : Settings} {r : Receivers} {s : Station} {t k m : Nat}
    (h : OnSchedule c r s t k m) (hv : c.Valid) (ops : List Op) :
    OnSchedule c r (s.run ops) (s.slotsRun t ops) (s.noisyRun k ops) (s.published m ops) := by
  induction ops generalizing s t k m with
  | nil => exact h
  | cons op ops ih => exact ih (h.step hv op)

theorem sent_noisySlot (s : Station) :
    s.noisySlot.outbox.packets =
      if s.noisy.advance.broadcasting then s.outbox.packets.push s.beacon
      else s.outbox.packets := by
  have hfinish (t : Station) : (t.finishNoise.enter .neighbor).outbox.packets =
      t.outbox.packets := congrArg Traffic.sent (enter_keeps t.finishNoise .neighbor).2.1
  unfold noisySlot
  by_cases hb : s.noisy.advance.broadcasting = true
  · dsimp only
    rw [if_pos hb, if_pos hb]
    split
    · exact hfinish _
    · rfl
  · dsimp only
    rw [if_neg hb, if_neg hb]
    split
    · exact hfinish _
    · rfl

/-- A noisy slot sends a beacon exactly if the schedule of the settings has one there. -/
theorem OnSchedule.sends {c : Settings} {r : Receivers} {s : Station} {t k m : Nat}
    (h : OnSchedule c r s t k m) (he : s.enabled = true) (hp : s.phase = .noisy) (now : Instant) :
    (s.step (.tick now)).outbox.packets =
      if broadcastsNoisy c k then s.outbox.packets.push s.beacon else s.outbox.packets := by
  have hb : s.noisy.advance.broadcasting = broadcastsNoisy c k :=
    congrArg (fun a => a.advance.broadcasting) h.noisy
  obtain ⟨hoff, -⟩ | ⟨-, ⟨-, ht⟩ | ⟨hq, -⟩ | ⟨hq, -⟩⟩ := tick_cases s now
  · exact nomatch hoff.symm.trans he
  · rw [ht, ← hb]
    exact sent_noisySlot { s with now }
  · exact nomatch hq.symm.trans hp
  · exact nomatch hq.symm.trans hp

/-- The phase, the slot, the counts and the window in closed form, from the slots run since the
start or the last reset. In a noisy slot the settings and the number of noisy slots before it
settle whether the station broadcasts. -/
theorem runs_to_schedule {settings : Settings} {receivers : Receivers} {s : Station}
    (hs : Station.start settings receivers = .ok s) (ops : List Op) :
    let u := s.run ops
    let noisy := settings.plan.noisyCount.toNat
    let neighbor := settings.plan.neighborCount.toNat
    let rounds := s.slotsRun 0 ops / (noisy + neighbor + 4)
    let place := s.slotsRun 0 ops % (noisy + neighbor + 4)
    u.phase = (if place < noisy then .noisy
        else if place < noisy + neighbor then .neighbor else .discovery) ∧
      (noisy + neighbor ≤ place → u.cycle.slot.val = place - noisy - neighbor) ∧
      (u.cycle.running = true ↔ u.phase = .discovery) ∧
      (u.survey.measuring = true ↔ u.phase = .noisy) ∧
      u.cycle.count.toNat = rounds % UInt32.size ∧
      u.node.cycle.toNat = min rounds 0xffffffff ∧
      s.published 0 ops = (if receivers.measures then rounds else 0) ∧
      (u.enabled = true → u.phase = .noisy → ∀ now,
        (u.step (.tick now)).outbox.packets =
          if broadcastsNoisy settings (s.noisyRun 0 ops) then u.outbox.packets.push u.beacon
          else u.outbox.packets) := by
  have h := (onSchedule_start hs).run (start_eq hs).1 ops
  generalize s.run ops = u at h
  have hphase := Clockwork.phase_eq h.inTime
  rw [h.place, show u.clockwork.settings = settings from h.settings] at hphase
  refine ⟨hphase, ?_, h.inStep.running, h.measuring, ?_, h.cycle, h.published,
    fun he hp => h.sends he hp⟩
  · intro hle
    change _ ≤ s.slotsRun 0 ops % settings.plan.round at hle
    have hdiscovery : u.clockwork.phase = .discovery := by
      rw [hphase, if_neg (by omega), if_neg (Nat.not_lt.2 hle)]
    have hplace := Clockwork.place_discovery hdiscovery
    rw [h.place, show u.clockwork.settings = settings from h.settings] at hplace
    rw [Nat.sub_sub]
    exact (Nat.sub_eq_of_eq_add' hplace).symm
  · rw [h.count]
    exact UInt32.toNat_ofNat'

/-- The third tick finds the station disabled. -/
theorem runs_to_schedule_two_ticks :
    let c : Settings := { id := 1, plan := ⟨1, 50, 1, 10⟩ }
    let ops : List Op := [.tick .zero, .receive { sender := 2 } (-60) .zero, .enable,
      .tick .zero, .disable, .tick .zero]
    Station.start c {} = .ok (fresh c {}) ∧ (fresh c {}).slotsRun 0 ops = 2 ∧
      ((fresh c {}).run ops).phase = .discovery ∧ ((fresh c {}).run ops).cycle.slot.val = 0 := by
  intro c ops
  have hs : Station.start c {} = .ok (fresh c {}) := rfl
  have ht : (fresh c {}).slotsRun 0 ops = 2 := rfl
  obtain ⟨hphase, hslot, -⟩ := runs_to_schedule hs ops
  rw [ht] at hphase hslot
  exact ⟨hs, ht, hphase, hslot (by decide)⟩

end Station
end ClusterMesh
