import ClusterMesh.Proofs.Station.Ledger

/-! What no operation changes in a station: its settings and its name, who takes what it says,
how long its slots are, the signal that counts as direct and what is asked of a candidate. -/
namespace ClusterMesh

structure Fixtures where
  receivers : Receivers
  directSignal : Int8
  thresholds : Thresholds

namespace Station

def fixtures (s : Station) : Fixtures where
  receivers := s.receivers
  directSignal := s.survey.directSignal
  thresholds := s.survey.thresholds

@[simp] theorem fixtures_note (s : Station) (n : Notice) : (s.note n).fixtures = s.fixtures := by
  unfold note
  split <;> rfl

theorem fixtures_enter (s : Station) (phase : Phase) : (s.enter phase).fixtures = s.fixtures := by
  unfold enter
  dsimp only
  rw [fixtures_note]
  split <;> rfl

theorem fixtures_observe (s : Station) (p : Packet) (rssi : Int8) :
    (s.observe p rssi).fixtures = s.fixtures := by
  obtain ⟨heard, h⟩ := observe_frame s p rssi
  rw [h]
  rfl

theorem fixtures_receive (s : Station) (p : Packet) (rssi : Int8) (now : Instant) :
    (s.receive p rssi now).2.fixtures = s.fixtures := by
  have htake (t : Station) : (t.take p).2.fixtures = t.fixtures := by
    unfold take
    split
    · rfl
    · rw [fixtures_note]
      rfl
  have hr := s.receives p rssi now
  generalize s.receive p rssi now = r at hr
  cases hr with
  | off | busy => rfl
  | sampled =>
    unfold fixtures Survey.sample
    split <;> rfl
  | observed => exact fixtures_observe ..
  | taken => exact (htake _).trans (fixtures_observe ..)

theorem fixtures_noisySlot (s : Station) : s.noisySlot.fixtures = s.fixtures :=
  noisySlot_untouched (fun _ _ => rfl) (fun _ => rfl) (fun _ _ => rfl)
    (fun t => fixtures_enter t.finishNoise .neighbor) s

theorem fixtures_neighborSlot (s : Station) : s.neighborSlot.fixtures = s.fixtures :=
  neighborSlot_untouched (fun _ _ => rfl) (fun _ => rfl) (fun _ _ => rfl)
    (fun t _ => fixtures_enter t .discovery) s

theorem fixtures_relayNext (s : Station) : s.relayNext.fixtures = s.fixtures :=
  relayNext_untouched (fun _ _ _ => rfl) (fun _ _ _ => fixtures_note _ _) (fun _ _ => rfl) s

theorem fixtures_completeCycle (s : Station) : s.completeCycle.fixtures = s.fixtures := by
  have hpublish (t : Station) (m : Connectivity) : (t.publish m).fixtures = t.fixtures := by
    unfold publish
    split <;> rfl
  have hdecide (t : Station) : t.decideRole.fixtures = t.fixtures := by
    have ht : t.decideRole = t.decideRole.on t := decideRole_on rfl
    rw [ht]
    rfl
  unfold completeCycle
  dsimp only
  rw [fixtures_enter, fixtures_note]
  exact (hdecide _).trans (hpublish _ _)

theorem fixtures_discoverySlot {s : Station} (h : s.clockwork.InStep) (hp : s.phase = .discovery) :
    s.discoverySlot.fixtures = s.fixtures := by
  have hwork : Station.fixtures (if s.cycle.slot = 0 then s.sendMessage else s.relayNext) =
      s.fixtures := by
    split
    · unfold sendMessage
      split
      · rfl
      · split <;> rfl
    · exact fixtures_relayNext s
  rw [discoverySlot_eq h hp]
  dsimp only
  split
  · exact (fixtures_completeCycle _).trans hwork
  · exact hwork

theorem fixtures_step {s : Station} (h : s.clockwork.InStep) (op : Op) :
    (s.step op).fixtures = s.fixtures := by
  have ht := s.steps_step op
  generalize s.step op = t at ht
  cases ht with
  | set => rfl
  | noisy now => exact fixtures_noisySlot { s with now }
  | neighbor now => exact fixtures_neighborSlot { s with now }
  | discovery now hp => exact fixtures_discoverySlot (s := { s with now }) h hp
  | heard p rssi now => exact fixtures_receive s p rssi now
  | reset => rfl

theorem slotLength_step {s : Station} (h : s.clockwork.InStep) (op : Op) :
    (s.step op).cycle.slotLength = s.cycle.slotLength := by
  have hw := winds_step h op
  generalize hc : (s.step op).clockwork = c at hw
  have hl : (s.step op).cycle.slotLength = c.cycle.slotLength :=
    congrArg (fun c => c.cycle.slotLength) hc
  rw [hl]
  cases hw with
  | idle | slot | last | reset => rfl
  | noisy | neighbor => split <;> rfl

structure Fixed (c : Settings) (r : Receivers) (s : Station) : Prop where
  inStep : s.clockwork.InStep
  settings : s.settings = c
  id_eq : s.id = c.id
  slotLength : s.cycle.slotLength = .ofWord c.slotMs
  fixtures : s.fixtures = (fresh c r).fixtures

theorem fixed_start {settings : Settings} {receivers : Receivers} {s : Station}
    (hs : Station.start settings receivers = .ok s) : s.Fixed settings receivers := by
  obtain ⟨-, rfl⟩ := start_eq hs
  exact ⟨inStep_fresh _ _, rfl, rfl, rfl, rfl⟩

theorem Fixed.step {c : Settings} {r : Receivers} {s : Station} (h : s.Fixed c r) (op : Op) :
    (s.step op).Fixed c r where
  inStep := inStep_step h.inStep op
  settings := (settings_step h.inStep op).trans h.settings
  id_eq := (id_step h.inStep op).trans h.id_eq
  slotLength := (slotLength_step h.inStep op).trans h.slotLength
  fixtures := (fixtures_step h.inStep op).trans h.fixtures

end Station
end ClusterMesh
