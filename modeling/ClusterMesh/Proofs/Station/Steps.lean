import ClusterMesh.Proofs.Relay.Queue
import ClusterMesh.Proofs.Station.Hearing
import ClusterMesh.Proofs.Station.Slots

/-! What one operation of the host does to a station: to its clockwork, its office and its
traffic. A station is reachable when operations lead to it from a start. -/
namespace ClusterMesh.Station

def Op.packet? : Op → Option Packet
  | .receive p _ _ => some p
  | .receiveBytes bytes _ _ => (Packet.ofBytes bytes).toOption
  | _ => none

def Op.isReset : Op → Bool
  | .reset => true
  | _ => false

/-- The packet of an operation that a station acts on. -/
def handled? (s : Station) (op : Op) : Option Packet := op.packet?.filter s.handles

def runsSlot (s : Station) (slot : Nat) : Op → Bool
  | .tick _ => s.enabled && s.phase = .discovery && s.cycle.slot.val = slot
  | _ => false

def completes (s : Station) (op : Op) : Bool := s.runsSlot 3 op

inductive Reachable : Station → Prop
  | start {settings : Settings} {receivers : Receivers} {s : Station}
      (h : Station.start settings receivers = .ok s) : Reachable s
  | step {s : Station} (h : Reachable s) (op : Op) : Reachable (s.step op)

theorem Reachable.run {s : Station} (h : Reachable s) (ops : List Op) : Reachable (s.run ops) := by
  induction ops generalizing s with
  | nil => exact h
  | cons op ops ih => exact ih (h.step op)

theorem run_cons (s : Station) (op : Op) (ops : List Op) :
    s.run (op :: ops) = (s.step op).run ops := rfl

theorem run_append (s : Station) (ops ops' : List Op) :
    s.run (ops ++ ops') = (s.run ops).run ops' := List.foldl_append

theorem run_concat (s : Station) (ops : List Op) (op : Op) :
    s.run (ops ++ [op]) = (s.run ops).step op := run_append ..

theorem run_append_cons (s : Station) (ops ops' : List Op) (op : Op) :
    s.run (ops ++ op :: ops') = ((s.run ops).step op).run ops' := run_append ..

theorem start_eq {settings : Settings} {receivers : Receivers} {s : Station}
    (h : Station.start settings receivers = .ok s) :
    settings.Valid ∧ s = fresh settings receivers := by
  unfold Station.start at h
  split at h
  · cases h
  · next hc =>
    split at h
    · cases h
      exact ⟨(settings.check_eq_ok_iff).1 hc, rfl⟩
    · cases h

/-! ## Kinds of operations -/

structure Op.Plain (op : Op) : Prop where
  packet? : op.packet? = none
  noTick : ∀ now, op ≠ .tick now
  noReset : op.isReset = false

theorem Op.kinds (op : Op) :
    (∃ now, op = .tick now) ∨ op = .reset ∨ (∃ p, op.packet? = some p) ∨ op.Plain := by
  cases op with
  | tick now => exact .inl ⟨now, rfl⟩
  | reset => exact .inr (.inl rfl)
  | receive p rssi now => exact .inr (.inr (.inl ⟨p, rfl⟩))
  | receiveBytes bytes rssi now =>
    cases hb : Op.packet? (.receiveBytes bytes rssi now) with
    | some p => exact .inr (.inr (.inl ⟨p, rfl⟩))
    | none => exact .inr (.inr (.inr ⟨hb, nofun, rfl⟩))
  | _ => exact .inr (.inr (.inr ⟨rfl, nofun, rfl⟩))

theorem step_of_packet? (s : Station) {op : Op} {p : Packet} (h : op.packet? = some p) :
    ∃ rssi now, s.step op = (s.receive p rssi now).2 := by
  cases op with
  | receive q rssi now =>
    cases h
    exact ⟨rssi, now, rfl⟩
  | receiveBytes bytes rssi now =>
    simp only [Op.packet?] at h
    simp only [step, receiveBytes]
    cases hb : Packet.ofBytes bytes with
    | error e => simp [hb, Except.toOption] at h
    | ok q =>
      simp only [hb, Except.toOption, Option.some.injEq] at h
      subst h
      exact ⟨rssi, now, rfl⟩
  | _ => cases h

theorem step_plain (s : Station) {op : Op} (h : op.Plain) :
    (s.step op).office = s.office ∧ (s.step op).traffic = s.traffic ∧
      ∃ enabled, (s.step op).clockwork = { s.clockwork with enabled } := by
  cases op with
  | tick now => exact absurd rfl (h.noTick now)
  | reset => exact nomatch h.noReset
  | receive p rssi now => exact nomatch h.packet?
  | receiveBytes bytes rssi now =>
    have hb := h.packet?
    simp only [Op.packet?] at hb
    simp only [step, receiveBytes]
    cases hd : Packet.ofBytes bytes with
    | ok p => simp [hd, Except.toOption] at hb
    | error e => exact ⟨rfl, rfl, s.enabled, rfl⟩
  | _ => exact ⟨rfl, rfl, _, rfl⟩

theorem packet?_of_handled? {s : Station} {op : Op} {p : Packet} (h : s.handled? op = some p) :
    op.packet? = some p ∧ s.handles p = true :=
  Option.filter_eq_some_iff.1 h

theorem isReset_of_packet? {op : Op} {p : Packet} (h : op.packet? = some p) :
    op.isReset = false := by
  cases op <;> first | rfl | cases h

theorem runsSlot_of_packet? (s : Station) {op : Op} {p : Packet} (h : op.packet? = some p)
    (slot : Nat) : s.runsSlot slot op = false := by
  cases op <;> first | rfl | cases h

theorem runsSlot_of_plain (s : Station) {op : Op} (h : op.Plain) (slot : Nat) :
    s.runsSlot slot op = false := by
  cases op with
  | tick now => exact absurd rfl (h.noTick now)
  | _ => rfl

/-- A tick does nothing while the station is disabled, else it runs a slot of the phase. -/
theorem tick_cases (s : Station) (now : Instant) :
    s.enabled = false ∧ s.step (.tick now) = s ∨
      s.enabled = true ∧
        (s.phase = .noisy ∧ s.step (.tick now) = { s with now }.noisySlot ∨
          s.phase = .neighbor ∧ s.step (.tick now) = { s with now }.neighborSlot ∨
          s.phase = .discovery ∧ s.step (.tick now) = { s with now }.discoverySlot) := by
  unfold step tick
  by_cases he : s.enabled = true
  · dsimp only
    rw [if_neg (by simp [he])]
    refine .inr ⟨he, ?_⟩
    split
    · next hp => exact .inl ⟨hp, rfl⟩
    · next hp => exact .inr (.inl ⟨hp, rfl⟩)
    · next hp => exact .inr (.inr ⟨hp, rfl⟩)
  · dsimp only
    rw [if_pos (by simp [he])]
    exact .inl ⟨by simpa using he, rfl⟩

inductive Steps (s : Station) : Station → Prop
  | set {enabled : Bool} {crowding : Float} {dice : Xorshift32} {node : Node}
      (hr : node.roster = s.node.roster) : Steps s { s with enabled, crowding, dice, node }
  | noisy (now : Instant) : Steps s { s with now }.noisySlot
  | neighbor (now : Instant) : Steps s { s with now }.neighborSlot
  | discovery (now : Instant) (hp : s.phase = .discovery) : Steps s { s with now }.discoverySlot
  | heard (p : Packet) (rssi : Int8) (now : Instant) : Steps s (s.receive p rssi now).2
  | reset : Steps s s.reset

theorem steps_step (s : Station) (op : Op) : s.Steps (s.step op) := by
  have hkept : s.Steps s := .set rfl
  cases op with
  | tick now =>
    obtain ⟨-, ht⟩ | ⟨-, ⟨-, ht⟩ | ⟨-, ht⟩ | ⟨hp, ht⟩⟩ := tick_cases s now
    · rw [ht]
      exact hkept
    · rw [ht]
      exact .noisy now
    · rw [ht]
      exact .neighbor now
    · rw [ht]
      exact .discovery now hp
  | receive p rssi now => exact .heard p rssi now
  | receiveBytes bytes rssi now =>
    simp only [step, receiveBytes]
    cases Packet.ofBytes bytes with
    | error e => exact hkept
    | ok p => exact .heard p rssi now
  | reset => exact .reset
  | _ => exact .set rfl

/-! ## Clockwork -/

theorem inStep_fresh (settings : Settings) (receivers : Receivers) :
    (fresh settings receivers).clockwork.InStep :=
  ⟨rfl, rfl, by simp [clockwork, fresh, Cycle.atRest]⟩

theorem start_idle {s : Station} (h : s.clockwork.InStep) (hp : s.phase ≠ .discovery) :
    s.cycle.start.2 = { s.cycle with running := true, slot := 0 } := by
  have hr : ¬ s.cycle.running = true := fun hr => hp (h.running.1 hr)
  rw [Cycle.start, if_neg hr]

inductive Winds (s : Station) (op : Op) : Clockwork → Prop
  | idle (enabled : Bool) (hs : ∀ slot, s.runsSlot slot op = false) (hr : op.isReset = false)
      (ht : ∀ now, op = .tick now → s.enabled = false) : Winds s op { s.clockwork with enabled }
  | noisy (hp : s.phase = .noisy) (hr : op.isReset = false) :
      Winds s op <|
        if s.settings.plan.noisyCount.toNat ≤ s.phaseSlot + 1 then
          { s.clockwork with phase := .neighbor, phaseSlot := 0 }
        else { s.clockwork with phaseSlot := s.phaseSlot + 1 }
  | neighbor (hp : s.phase = .neighbor) (hr : op.isReset = false) :
      Winds s op <|
        if s.settings.plan.neighborCount.toNat ≤ s.phaseSlot + 1 then
          { s.clockwork with
            phase := .discovery
            phaseSlot := 0
            cycle := { s.cycle with running := true, slot := 0 } }
        else { s.clockwork with phaseSlot := s.phaseSlot + 1 }
  | slot (hp : s.phase = .discovery) (hs : s.runsSlot s.cycle.slot op = true)
      (h3 : s.cycle.slot ≠ 3) :
      Winds s op { s.clockwork with cycle := { s.cycle with slot := s.cycle.slot + 1 } }
  | last (hp : s.phase = .discovery) (hs : s.completes op = true) (h3 : s.cycle.slot = 3) :
      Winds s op { s.clockwork with
        phase := .noisy
        phaseSlot := 0
        cycle := { s.cycle with running := false, slot := 0, count := s.cycle.count + 1 } }
  | reset (hr : op = .reset) :
      Winds s op { s.clockwork with
        phase := .noisy, phaseSlot := 0, cycle := s.cycle.stop.resetCount }

theorem winds_step {s : Station} (h : s.clockwork.InStep) (op : Op) :
    s.Winds op (s.step op).clockwork := by
  obtain ⟨now, rfl⟩ | rfl | ⟨p, hp⟩ | hp := op.kinds
  · obtain ⟨he, ht⟩ | ⟨he, ⟨hp, ht⟩ | ⟨hp, ht⟩ | ⟨hp, ht⟩⟩ := tick_cases s now
    · rw [ht]
      exact .idle s.enabled (by simp [runsSlot, he]) rfl fun _ _ => he
    · rw [ht, (noisySlot_keeps { s with now }).2.2]
      exact .noisy hp rfl
    · rw [ht, (neighborSlot_keeps { s with now }).2.2, start_idle (s := { s with now }) h
        (by simp [hp])]
      exact .neighbor hp rfl
    · rw [ht, clockwork_discoverySlot (s := { s with now }) h hp]
      by_cases h3 : s.cycle.slot = 3
      · rw [if_pos h3]
        have hv : s.cycle.slot.val = 3 := congrArg Fin.val h3
        exact .last hp (by simp [completes, runsSlot, he, hp, hv]) h3
      · rw [if_neg h3]
        exact .slot hp (by simp [runsSlot, he, hp]) h3
  · exact .reset rfl
  · obtain ⟨rssi, now, hs⟩ := step_of_packet? s hp
    rw [hs, clockwork_receive]
    exact .idle s.enabled (runsSlot_of_packet? s hp) (isReset_of_packet? hp)
      fun now he => by simp [he, Op.packet?] at hp
  · obtain ⟨-, -, enabled, hc⟩ := step_plain s hp
    rw [hc]
    exact .idle enabled (runsSlot_of_plain s hp) hp.noReset fun now he => absurd he (hp.noTick now)

theorem inStep_step {s : Station} (h : s.clockwork.InStep) (op : Op) :
    (s.step op).clockwork.InStep := by
  have hr := h.running
  have hw := winds_step h op
  generalize (s.step op).clockwork = c at hw
  cases hw with
  | idle | slot => exact ⟨h.work, h.completion, h.running⟩
  | noisy hp =>
    simp only [clockwork, hp] at hr
    split
    · exact ⟨h.work, h.completion, by simpa [clockwork] using hr⟩
    · exact ⟨h.work, h.completion, h.running⟩
  | neighbor hp =>
    split
    · exact ⟨h.work, h.completion, by simp⟩
    · exact ⟨h.work, h.completion, h.running⟩
  | last => exact ⟨h.work, h.completion, by simp⟩
  | reset => exact ⟨h.work, h.completion, by simp [Cycle.stop, Cycle.resetCount]⟩

theorem settings_step {s : Station} (h : s.clockwork.InStep) (op : Op) :
    (s.step op).settings = s.settings := by
  have hw := winds_step h op
  generalize hc : (s.step op).clockwork = c at hw
  have hs : (s.step op).settings = c.settings := congrArg Clockwork.settings hc
  rw [hs]
  cases hw with
  | idle | slot | last | reset => rfl
  | noisy | neighbor => split <;> rfl

theorem Reachable.inStep {s : Station} (h : Reachable s) : s.clockwork.InStep := by
  induction h with
  | start hs =>
    obtain ⟨-, rfl⟩ := start_eq hs
    exact inStep_fresh _ _
  | step _ op ih => exact inStep_step ih op

/-- With one slot in each of the first two phases the third tick runs slot zero. -/
theorem runsSlot_third_tick {s : Station} (h : s.clockwork.InStep) (he : s.enabled = true)
    (hp : s.phase = .noisy) (hn : s.settings.plan.noisyCount = 1)
    (hb : s.settings.plan.neighborCount = 1) (now : Instant) :
    ((s.step (.tick now)).step (.tick now)).runsSlot 0 (.tick now) = true := by
  have h1 := winds_step h (.tick now)
  have hi := inStep_step h (.tick now)
  generalize s.step (.tick now) = t at h1 hi
  have h2 := winds_step hi (.tick now)
  generalize t.step (.tick now) = u at h2
  generalize ht : t.clockwork = c at h1
  generalize hu : u.clockwork = d at h2
  cases h1 with
  | idle enabled hs hr hk => simp [he] at hk
  | neighbor hp' => simp [hp] at hp'
  | slot hp' => simp [hp] at hp'
  | last hp' => simp [hp] at hp'
  | reset hr => cases hr
  | noisy =>
    rw [hn, if_pos (by simp)] at ht
    have hphase : t.phase = .neighbor := congrArg Clockwork.phase ht
    have hon : t.enabled = true := (congrArg Clockwork.enabled ht).trans he
    have hplan : t.settings = s.settings := congrArg Clockwork.settings ht
    cases h2 with
    | idle enabled hs hr hk => simp [hon] at hk
    | noisy hp' => simp [hphase] at hp'
    | slot hp' => simp [hphase] at hp'
    | last hp' => simp [hphase] at hp'
    | reset hr => cases hr
    | neighbor =>
      rw [hplan, hb, if_pos (by simp)] at hu
      have hphase' : u.phase = .discovery := congrArg Clockwork.phase hu
      have hslot : u.cycle.slot = 0 := congrArg (fun c => c.cycle.slot) hu
      have hon' : u.enabled = true := (congrArg Clockwork.enabled hu).trans hon
      simp [runsSlot, hphase', hslot, hon']

/-! ## Office -/

def freshOffice (o : Office) : Office :=
  { o with role := .starting, head := nobody, cycle := 0, campaign := {} }

/-- What an operation makes of the office: the message of slot zero, the decision at the end
of a cycle and a packet of another station change it, and so does a reset. -/
inductive Turns (s : Station) (op : Op) : Office → Prop
  | kept (h0 : s.runsSlot 0 op = false) (h3 : s.completes op = false)
      (hh : s.handled? op = none) (hr : op.isReset = false) : Turns s op s.office
  | spoke (h0 : s.runsSlot 0 op = true) : Turns s op s.office.spoken
  | decided {o : Office} (h3 : s.completes op = true)
      (hd : Office.Decides { s.office with cycle := s.node.cycle.succSat } o) : Turns s op o
  | heeded {p : Packet} {o : Office} (hh : s.handled? op = some p) (ho : s.office.Heeds p o) :
      Turns s op o
  | reset (hr : op = .reset) : Turns s op (freshOffice s.office)

theorem turns_step {s : Station} (h : s.clockwork.InStep) (op : Op) :
    s.Turns op (s.step op).office := by
  obtain ⟨now, rfl⟩ | rfl | ⟨p, hp⟩ | hp := op.kinds
  · obtain ⟨he, ht⟩ | ⟨he, ⟨hp, ht⟩ | ⟨hp, ht⟩ | ⟨hp, ht⟩⟩ := tick_cases s now
    · rw [ht]
      exact .kept (by simp [runsSlot, he]) (by simp [completes, runsSlot, he]) rfl rfl
    · rw [ht, (noisySlot_keeps { s with now }).1]
      exact .kept (by simp [runsSlot, hp]) (by simp [completes, runsSlot, hp]) rfl rfl
    · rw [ht, (neighborSlot_keeps { s with now }).1]
      exact .kept (by simp [runsSlot, hp]) (by simp [completes, runsSlot, hp]) rfl rfl
    · rw [ht]
      have ho := office_discoverySlot (s := { s with now }) h hp
      by_cases h3 : s.cycle.slot = 3
      · rw [if_pos h3] at ho
        have hv : s.cycle.slot.val = 3 := congrArg Fin.val h3
        exact .decided (by simp [completes, runsSlot, he, hp, hv]) ho
      · rw [if_neg h3] at ho
        have hv3 : s.cycle.slot.val ≠ 3 := fun hv => h3 (Fin.ext hv)
        by_cases h0 : s.cycle.slot = 0
        · rw [if_pos h0] at ho
          rw [ho]
          exact .spoke (by simp [runsSlot, he, hp, h0])
        · rw [if_neg h0] at ho
          rw [ho]
          have hv0 : s.cycle.slot.val ≠ 0 := fun hv => h0 (Fin.ext hv)
          exact .kept (by simp [runsSlot, hv0]) (by simp [completes, runsSlot, hv3]) rfl rfl
  · exact .reset rfl
  · obtain ⟨rssi, now, hs⟩ := step_of_packet? s hp
    have hrun := runsSlot_of_packet? s hp
    have hres := isReset_of_packet? hp
    rw [hs]
    cases hh : s.handles p with
    | true => exact .heeded (by simp [handled?, hp, hh]) (heeds_receive rssi now hh)
    | false =>
      rw [office_receive_of_not rssi now hh]
      exact .kept (hrun 0) (hrun 3) (by simp [handled?, hp, hh]) hres
  · have hrun := runsSlot_of_plain s hp
    rw [(step_plain s hp).1]
    exact .kept (hrun 0) (hrun 3) (by simp [handled?, hp.packet?]) hp.noReset

theorem Turns.id_eq {s : Station} {op : Op} {o : Office} (h : s.Turns op o) : o.id = s.id := by
  cases h with
  | kept | reset => rfl
  | spoke =>
    obtain ⟨campaign, -, he⟩ := s.office.spoken_eq
    rw [he]
    rfl
  | decided h3 hd => cases hd <;> rfl
  | heeded hh ho => exact ho.id_eq

theorem id_step {s : Station} (h : s.clockwork.InStep) (op : Op) : (s.step op).id = s.id :=
  (turns_step h op).id_eq

/-! ## Traffic -/

inductive Carries (s : Station) (op : Op) : Traffic → Prop
  | kept : Carries s op s.traffic
  | offered {p : Packet} (hp : op.packet? = some p) (time : Instant) :
      Carries s op { s.traffic with queue := (s.queue.enqueue p s.id time).2 }
  | beacon : Carries s op { s.traffic with sent := s.traffic.sent.push s.beacon }
  | message (h0 : s.runsSlot 0 op = true) :
      Carries s op { s.traffic with sent := s.traffic.sent.push s.message }
  | relayed {t : Traffic} (ht : s.Relays t) : Carries s op t
  | tidied {t : Traffic} (ht : s.Relays t) (now : Instant) (maxAge : Span) :
      Carries s op { t with queue := (t.queue.forget now maxAge).1 }
  | cleared : Carries s op { s.traffic with queue := s.queue.clear }

theorem carries_of_beacons {s t : Station} {op : Op} (h : s.Beacons t) :
    s.Carries op t.traffic := by
  obtain h | h := h
  · rw [h]
    exact .kept
  · rw [h]
    exact .beacon

/-- Slot zero sends the station's message. -/
theorem traffic_step_of_runsSlot {s : Station} (h : s.clockwork.InStep) {op : Op}
    (h0 : s.runsSlot 0 op = true) :
    (s.step op).traffic = { s.traffic with sent := s.traffic.sent.push s.message } := by
  cases op with
  | tick now =>
    simp only [runsSlot, Bool.and_eq_true, decide_eq_true_eq] at h0
    obtain ⟨he, -⟩ | ⟨-, ⟨hp, -⟩ | ⟨hp, -⟩ | ⟨hp, ht⟩⟩ := tick_cases s now
    · exact nomatch h0.1.1.symm.trans he
    · exact nomatch h0.1.2.symm.trans hp
    · exact nomatch h0.1.2.symm.trans hp
    · have hd := traffic_discoverySlot (s := { s with now }) h hp
      rw [if_pos (Fin.ext h0.2 : s.cycle.slot = 0)] at hd
      rw [ht, hd]
      rfl
  | _ => cases h0

theorem carries_step {s : Station} (h : s.clockwork.InStep) (op : Op) :
    s.Carries op (s.step op).traffic := by
  obtain ⟨now, rfl⟩ | rfl | ⟨p, hp⟩ | hp := op.kinds
  · obtain ⟨-, ht⟩ | ⟨he, ⟨hp, ht⟩ | ⟨hp, ht⟩ | ⟨hp, ht⟩⟩ := tick_cases s now
    · rw [ht]
      exact .kept
    · rw [ht]
      exact carries_of_beacons (noisySlot_keeps { s with now }).2.1
    · rw [ht]
      exact carries_of_beacons (neighborSlot_keeps { s with now }).2.1
    · have hd := traffic_discoverySlot (s := { s with now }) h hp
      have hr : s.Relays { s with now }.relayNext.traffic := by
        have hr := relays_relayNext { s with now }
        generalize { s with now }.relayNext.traffic = t at hr
        cases hr with
        | idle => exact .idle
        | dropped hq => exact .dropped hq
        | copied hq hc => exact .copied hq hc
      rw [ht]
      split at hd
      · next h0 =>
        have hv : s.cycle.slot.val = 0 := congrArg Fin.val h0
        have h0' : s.runsSlot 0 (.tick now) = true := by simp [runsSlot, he, hp, hv]
        have hs := traffic_step_of_runsSlot h h0'
        rw [ht] at hs
        rw [hs]
        exact .message h0'
      · split at hd
        · obtain ⟨maxAge, hd⟩ := hd
          rw [hd]
          exact .tidied hr _ maxAge
        · rw [hd]
          exact .relayed hr
  · exact .cleared
  · obtain ⟨rssi, now, hs⟩ := step_of_packet? s hp
    rw [hs]
    obtain ht | ⟨time, ht⟩ := traffic_receive s p rssi now
    · rw [ht]
      exact .kept
    · rw [ht]
      exact .offered hp time
  · rw [(step_plain s hp).2.1]
    exact .kept

/-- A property of all packets sent and one of all that wait are kept if the station's own messages
and the packets that it hears have them, and copies of what waits. -/
theorem Carries.keeps {s : Station} {op : Op} {t : Traffic} (h : s.Carries op t)
    {S W : Packet → Prop} (hs : ∀ p ∈ s.traffic.sent, S p)
    (hw : ∀ e, s.traffic.queue.Holds e → W e.packet) (hb : S s.beacon)
    (hm : S s.message) (hc : ∀ p q, W p → s.copyOf p = .ok q → S q)
    (ho : ∀ p, op.packet? = some p → s.id ∉ p.path.toList → W p) :
    (∀ p ∈ t.sent, S p) ∧ ∀ e, t.queue.Holds e → W e.packet := by
  have hpush {p : Packet} (hp : S p) : ∀ q ∈ s.traffic.sent.push p, S q := by
    intro q hq
    obtain hq | rfl := Array.mem_push.1 hq
    · exact hs q hq
    · exact hp
  have hrelays {t : Traffic} (ht : s.Relays t) :
      (∀ p ∈ t.sent, S p) ∧ ∀ e, t.queue.Holds e → W e.packet := by
    cases ht with
    | idle => exact ⟨hs, hw⟩
    | dropped hq => exact ⟨hs, fun e he => hw e ((Relay.Queue.holds_of_dequeue? hq).2 e he)⟩
    | copied hq hcopy =>
      obtain ⟨hheld, hless⟩ := Relay.Queue.holds_of_dequeue? hq
      exact ⟨hpush (hc _ _ (hw _ hheld) hcopy), fun e he => hw e (hless e he)⟩
  cases h with
  | kept => exact ⟨hs, hw⟩
  | offered hp time =>
    refine ⟨hs, fun e he => ?_⟩
    obtain he | ⟨rfl, hn⟩ := Relay.Queue.holds_enqueue he
    · exact hw e he
    · exact ho _ hp hn
  | beacon => exact ⟨hpush hb, hw⟩
  | message h0 => exact ⟨hpush hm, hw⟩
  | relayed hr => exact hrelays hr
  | tidied hr now maxAge =>
    obtain ⟨hsent, hwaits⟩ := hrelays hr
    exact ⟨hsent, fun e he => hwaits e ((Relay.Queue.holds_forget _ now maxAge e).1 he)⟩
  | cleared => exact ⟨hs, fun e he => absurd he (Relay.Queue.not_holds_clear _ e)⟩

end ClusterMesh.Station
