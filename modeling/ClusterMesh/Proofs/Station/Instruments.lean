import ClusterMesh.Proofs.Station.Steps
import ClusterMesh.Proofs.Survey.Ring

/-! The instruments of a station: its schedules and its dice, the window for samples, the
crowding and the noise that it goes by, and the measures that it has published. A reception
moves none of them, and the noisy schedule goes on in noisy slots alone. -/
namespace ClusterMesh

structure Instruments where
  noisy : Airtime
  neighborly : Airtime
  dice : Xorshift32
  crowding : Float
  noise : Float
  measuring : Bool
  reporting : Bool
  reports : Array Connectivity

namespace Instruments

def report (i : Instruments) (m : Connectivity) : Instruments :=
  { i with reports := if i.reporting then i.reports.push m else i.reports }

def settle (i : Instruments) (found : Float) : Instruments :=
  { i with
    measuring := false
    crowding := found
    neighborly := i.neighborly.setCrowding found
    noise := Relay.noiseOf found }

end Instruments

namespace Station

def instruments (s : Station) : Instruments where
  noisy := s.noisy
  neighborly := s.neighborly
  dice := s.dice
  crowding := s.crowding
  noise := s.node.noise
  measuring := s.survey.measuring
  reporting := s.receivers.measures
  reports := s.outbox.measures

/-! ## Output and changes of phase and role -/

@[simp] theorem instruments_trace (s : Station) (t : Trace) :
    (s.trace t).instruments = s.instruments := rfl

@[simp] theorem instruments_note (s : Station) (n : Notice) :
    (s.note n).instruments = s.instruments := by
  unfold note
  split <;> rfl

theorem instruments_publish (s : Station) (m : Connectivity) :
    (s.publish m).instruments = s.instruments.report m := by
  unfold publish Instruments.report
  by_cases hr : s.receivers.measures = true
  · rw [if_pos hr, if_pos (show s.instruments.reporting = true from hr)]
    rfl
  · rw [if_neg hr, if_neg (show ¬ s.instruments.reporting = true from hr)]

theorem instruments_enter (s : Station) (phase : Phase) :
    (s.enter phase).instruments =
      { s.instruments with measuring := if phase = .noisy then true else s.survey.measuring } := by
  unfold enter
  dsimp only
  rw [instruments_note, instruments_trace]
  split <;> rfl

@[simp] theorem instruments_become (s : Station) (next : Role) :
    (s.become next).2.instruments = s.instruments := by
  cases h : s.node.role.mayBecome next
  · rw [become_of_not h, instruments_note]
  · rw [become_of_mayBecome h]
    dsimp only
    split
    · rfl
    · rw [instruments_note, instruments_trace]
      rfl

/-! ## Reception -/

theorem instruments_consider (s : Station) (head : NodeId) (hops : UInt8) (direct : UInt32)
    (clusterClass : UInt16) :
    (s.consider head hops direct clusterClass).instruments = s.instruments := by
  unfold consider
  split
  · rfl
  · split
    · rfl
    · split
      · exact instruments_note _ _
      · rfl

theorem instruments_heedRenouncement (s : Station) (head : NodeId) :
    (s.heedRenouncement head).instruments = s.instruments := by
  unfold heedRenouncement
  split
  · rfl
  · dsimp only
    split
    · exact instruments_note _ _
    · rw [become_eq]
      dsimp only
      split
      · rw [instruments_become, instruments_become]
        exact instruments_note _ _
      · rw [instruments_become]
        exact instruments_note _ _

theorem instruments_meetRival (s : Station) (rival : NodeId) (hops : UInt8) (ballot : Ballot) :
    (s.meetRival rival hops ballot).instruments = s.instruments := by
  unfold meetRival
  split
  · rfl
  · rw [become_eq]
    cases s.node.role.mayBecome .edge with
    | false => exact instruments_become s .edge
    | true =>
      dsimp only
      rw [instruments_note]
      exact instruments_become s .edge

theorem instruments_heed (s : Station) (p : Packet) : (s.heed p).instruments = s.instruments :=
  heed_holds (P := fun t => t.instruments = s.instruments) rfl rfl rfl
    (fun _ _ _ _ _ ht => (instruments_consider ..).trans ht) (instruments_heedRenouncement ..)
    fun _ _ _ _ ht => (instruments_meetRival ..).trans ht

theorem instruments_hearTransmitter (s : Station) (p : Packet) (rssi : Int8) :
    (s.hearTransmitter p rssi).instruments = s.instruments := by
  unfold hearTransmitter
  cases hn : s.node.hear? p.transmitter rssi 1 with
  | none =>
    have hk := instruments_note s (.rosterFull p.transmitter)
    cases p.position <;> exact hk
  | some m =>
    rw [eq_of_hear? hn]
    cases p.position <;> rfl

theorem instruments_hearSender (s : Station) (p : Packet) (rssi : Int8) :
    (s.hearSender p rssi).instruments = s.instruments := by
  unfold hearSender
  split
  · rfl
  · split
    · next hn =>
      rw [eq_of_hear? hn]
      rfl
    · rfl

/-- The instruments see nothing of a survey but whether its window is open. -/
theorem instruments_survey {s : Station} {v : Survey} (h : v.measuring = s.survey.measuring) :
    { s with survey := v }.instruments = s.instruments :=
  congrArg (fun measuring => { s.instruments with measuring }) h

theorem instruments_observe (s : Station) (p : Packet) (rssi : Int8) :
    (s.observe p rssi).instruments = s.instruments := by
  unfold observe
  split
  · rfl
  · dsimp only
    rw [instruments_heed, instruments_survey (Survey.note_keeps ..).1, instruments_hearSender,
      instruments_hearTransmitter]

theorem instruments_take (s : Station) (p : Packet) :
    (s.take p).2.instruments = s.instruments := by
  unfold take
  split
  · rfl
  · exact instruments_note _ _

theorem instruments_receive (s : Station) (p : Packet) (rssi : Int8) (now : Instant) :
    (s.receive p rssi now).2.instruments = s.instruments := by
  have hr := s.receives p rssi now
  generalize s.receive p rssi now = r at hr
  cases hr with
  | off | busy => rfl
  | sampled => exact instruments_survey (Survey.sample_keeps ..).1
  | observed => exact instruments_observe ..
  | taken => exact (instruments_take ..).trans (instruments_observe ..)

/-! ## Slots -/

theorem instruments_sendMessage (s : Station) : s.sendMessage.instruments = s.instruments := by
  unfold sendMessage
  split
  · rfl
  · split <;> rfl

theorem instruments_drop (s : Station) (sender : NodeId) (why : DropReason) :
    (s.drop sender why).instruments = s.instruments :=
  instruments_note _ _

theorem instruments_relayNext (s : Station) :
    ∃ dice, s.relayNext.instruments = { s.instruments with dice } := by
  unfold relayNext
  split
  · exact ⟨s.dice, rfl⟩
  · dsimp only
    split
    · split
      · exact ⟨_, instruments_drop ..⟩
      · exact ⟨_, rfl⟩
    · exact ⟨_, instruments_drop ..⟩

theorem instruments_stand (s : Station) : s.stand.instruments = s.instruments := by
  unfold stand
  rw [become_eq]
  cases s.node.role.mayBecome .candidate with
  | false => exact instruments_become s .candidate
  | true => exact instruments_become s .candidate

theorem instruments_takeOffice (s : Station) : s.takeOffice.instruments = s.instruments := by
  unfold takeOffice
  split
  · rw [become_eq]
    cases s.node.role.mayBecome .head with
    | false => exact instruments_become s .head
    | true => exact instruments_become s .head
  · rfl

theorem instruments_decideRole (s : Station) : s.decideRole.instruments = s.instruments := by
  unfold decideRole
  split
  · exact instruments_become ..
  · exact instruments_takeOffice s
  · rfl
  · split
    · exact instruments_stand s
    · split
      · exact instruments_become ..
      · split
        · exact instruments_become ..
        · rfl

theorem instruments_completeCycle (s : Station) :
    s.completeCycle.instruments =
      { s.instruments.report s.maintain.2.2.survey.measures with measuring := true } := by
  unfold completeCycle
  dsimp only
  rw [instruments_enter, if_pos rfl, instruments_note, instruments_trace, instruments_decideRole,
    instruments_publish]
  rfl

/-- A noisy slot moves its schedule on, and the last one closes the window. -/
theorem instruments_noisySlot (s : Station) :
    s.noisySlot.instruments =
      let i := { s.instruments with noisy := s.noisy.advance }
      if s.settings.plan.noisyCount.toNat ≤ s.phaseSlot + 1 then i.settle s.survey.crowding
      else i := by
  unfold noisySlot
  dsimp only
  obtain ⟨t, ht, hc, hv, hi⟩ : ∃ t : Station,
      (if s.noisy.advance.broadcasting then { s with noisy := s.noisy.advance }.sendBeacon
        else { s with noisy := s.noisy.advance }) = t ∧ t.clockwork = s.clockwork ∧
        t.survey = s.survey ∧ t.instruments = { s.instruments with noisy := s.noisy.advance } := by
    refine ⟨_, rfl, ?_⟩
    split <;> exact ⟨rfl, rfl, rfl⟩
  have hs : t.settings = s.settings := congrArg Clockwork.settings hc
  have hp : t.phaseSlot = s.phaseSlot := congrArg Clockwork.phaseSlot hc
  rw [ht, hs, hp]
  split
  · rw [← hv]
    refine Eq.trans (instruments_enter ..) ?_
    exact congrArg (Instruments.settle · t.survey.crowding) hi
  · exact hi

theorem instruments_neighborSlot (s : Station) :
    s.neighborSlot.instruments =
      { s.instruments with neighborly := s.neighborly.advance } := by
  unfold neighborSlot
  dsimp only
  obtain ⟨t, ht, hi⟩ : ∃ t : Station,
      (if s.neighborly.advance.broadcasting then
          { s with neighborly := s.neighborly.advance }.sendBeacon
        else { s with neighborly := s.neighborly.advance }) = t ∧
        t.instruments = { s.instruments with neighborly := s.neighborly.advance } := by
    refine ⟨_, rfl, ?_⟩
    split <;> rfl
  rw [ht]
  split
  · refine Eq.trans ?_ hi
    exact (instruments_enter _ _).trans (by rw [if_neg (by decide)]; rfl)
  · exact hi

/-- Only the last slot of the discovery cycle touches more than the dice. -/
theorem instruments_discoverySlot {s : Station} (h : s.clockwork.InStep)
    (hp : s.phase = .discovery) :
    ∃ dice m, s.discoverySlot.instruments =
      if s.cycle.slot = 3 then { s.instruments.report m with dice, measuring := true }
      else { s.instruments with dice } := by
  obtain ⟨dice, hr⟩ := instruments_relayNext s
  rw [discoverySlot_eq h hp]
  dsimp only
  by_cases h0 : s.cycle.slot = 0
  · refine ⟨s.dice, s.survey.measures, ?_⟩
    have h3 : s.cycle.slot ≠ 3 := by rw [h0]; decide
    rw [if_pos h0, if_neg h3, if_neg h3]
    exact instruments_sendMessage s
  · by_cases h3 : s.cycle.slot = 3
    · simp only [if_neg h0, if_pos h3]
      exact ⟨dice, _, (instruments_completeCycle _).trans <|
        congrArg (fun i => { Instruments.report i _ with measuring := true }) hr⟩
    · refine ⟨dice, s.survey.measures, ?_⟩
      rw [if_neg h0, if_neg h3, if_neg h3]
      exact hr

/-! ## Operations -/

def runsNoisy (s : Station) : Op → Bool
  | .tick _ => s.enabled && s.phase = .noisy
  | _ => false

/-- What an operation makes of the instruments, and in which phase it leaves the station. -/
inductive Tunes (s : Station) (op : Op) : Phase → Instruments → Prop
  | kept (dice : Xorshift32) (crowding noise : Float) (hn : s.runsNoisy op = false)
      (h3 : s.completes op = false) (hr : op.isReset = false) :
      Tunes s op s.phase { s.instruments with dice, crowding, noise }
  | noisy (hn : s.runsNoisy op = true) :
      Tunes s op s.phase { s.instruments with noisy := s.noisy.advance }
  | settled (hn : s.runsNoisy op = true) :
      Tunes s op .neighbor <|
        { s.instruments with noisy := s.noisy.advance }.settle s.survey.crowding
  | neighbor {phase : Phase} (hp : s.phase = .neighbor) (hp' : phase ≠ .noisy)
      (hn : s.runsNoisy op = false) (h3 : s.completes op = false) (hr : op.isReset = false) :
      Tunes s op phase { s.instruments with neighborly := s.neighborly.advance }
  | completed (dice : Xorshift32) (m : Connectivity) (h3 : s.completes op = true) :
      Tunes s op .noisy { s.instruments.report m with dice, measuring := true }
  | reset (hr : op = .reset) :
      Tunes s op .noisy { s.instruments with
        noisy := noisyAirtime s.settings
        neighborly := neighborAirtime s.settings
        dice := relayDice s.settings
        crowding := 0.0
        noise := 0.0
        measuring := true }

theorem runsNoisy_of_packet? (s : Station) {op : Op} {p : Packet} (h : op.packet? = some p) :
    s.runsNoisy op = false := by
  cases op <;> first | rfl | cases h

theorem runsNoisy_of_plain (s : Station) {op : Op} (h : op.Plain) : s.runsNoisy op = false := by
  cases op with
  | tick now => exact absurd rfl (h.noTick now)
  | _ => rfl

theorem instruments_step_plain (s : Station) {op : Op} (h : op.Plain) :
    ∃ dice crowding noise, (s.step op).instruments =
      { s.instruments with dice, crowding, noise } := by
  cases op with
  | tick now => exact absurd rfl (h.noTick now)
  | reset => exact nomatch h.noReset
  | receive p rssi now => exact nomatch h.packet?
  | receiveBytes bytes rssi now =>
    have hb := h.packet?
    simp only [Op.packet?] at hb
    simp only [step, receiveBytes]
    cases hd : Packet.ofBytes bytes with
    | ok p => simp [hd, Except.toOption] at hb
    | error e => exact ⟨_, _, _, rfl⟩
  | _ => exact ⟨_, _, _, rfl⟩

theorem tunes_step {s : Station} (h : s.clockwork.InStep) (op : Op) :
    s.Tunes op (s.step op).phase (s.step op).instruments := by
  obtain ⟨now, rfl⟩ | rfl | ⟨p, hp⟩ | hp := op.kinds
  · obtain ⟨he, ht⟩ | ⟨he, ⟨hp, ht⟩ | ⟨hp, ht⟩ | ⟨hp, ht⟩⟩ := tick_cases s now
    · rw [ht]
      exact .kept _ _ _ (by simp [runsNoisy, he]) (by simp [completes, runsSlot, he]) rfl
    · have hn : s.runsNoisy (.tick now) = true := by simp [runsNoisy, he, hp]
      have hc : { s with now }.noisySlot.phase = _ :=
        congrArg Clockwork.phase (noisySlot_keeps { s with now }).2.2
      rw [ht, hc, instruments_noisySlot]
      dsimp only
      split
      · exact .settled hn
      · exact .noisy hn
    · have hc : { s with now }.neighborSlot.phase = _ :=
        congrArg Clockwork.phase (neighborSlot_keeps { s with now }).2.2
      have hne : { s with now }.neighborSlot.phase ≠ .noisy := by
        rw [hc]
        split
        · intro hq
          cases hq
        · intro hq
          cases hp.symm.trans hq
      rw [ht, instruments_neighborSlot]
      exact .neighbor hp hne (by simp [runsNoisy, hp]) (by simp [completes, runsSlot, hp]) rfl
    · have hc : { s with now }.discoverySlot.phase = _ :=
        congrArg Clockwork.phase (clockwork_discoverySlot (s := { s with now }) h hp)
      obtain ⟨dice, m, hi⟩ := instruments_discoverySlot (s := { s with now }) h hp
      rw [ht, hc, hi]
      by_cases h3 : s.cycle.slot = 3
      · rw [if_pos h3, if_pos h3]
        have hv : s.cycle.slot.val = 3 := congrArg Fin.val h3
        exact .completed dice m (by simp [completes, runsSlot, he, hp, hv])
      · rw [if_neg h3, if_neg h3]
        have hv : s.cycle.slot.val ≠ 3 := fun hv => h3 (Fin.ext hv)
        exact .kept _ _ _ (by simp [runsNoisy, hp]) (by simp [completes, runsSlot, hv]) rfl
  · exact .reset rfl
  · obtain ⟨rssi, now, hs⟩ := step_of_packet? s hp
    have hc : (s.receive p rssi now).2.phase = s.phase :=
      congrArg Clockwork.phase (clockwork_receive s p rssi now)
    rw [hs, instruments_receive, hc]
    exact .kept _ _ _ (runsNoisy_of_packet? s hp) (runsSlot_of_packet? s hp _)
      (isReset_of_packet? hp)
  · obtain ⟨-, -, enabled, hc⟩ := step_plain s hp
    obtain ⟨dice, crowding, noise, hi⟩ := instruments_step_plain s hp
    have hp' : (s.step op).phase = s.phase := congrArg Clockwork.phase hc
    rw [hi, hp']
    exact .kept _ _ _ (runsNoisy_of_plain s hp) (runsSlot_of_plain s hp _) hp.noReset

end Station
end ClusterMesh
