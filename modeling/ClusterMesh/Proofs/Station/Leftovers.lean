import ClusterMesh.Proofs.Station.Fixtures
import ClusterMesh.Proofs.Survey.Ring

/-! What a reset leaves behind in a station besides the clock: the counts of its queue, the cells of
its window that hold no sample, and the slot of its cycle at rest. Every operation goes past such
leftovers: two stations that differ in nothing else answer alike, and differ in nothing else
afterwards. -/
namespace ClusterMesh.Relay.Queue

/-- What a queue counts has no part in what it takes, and neither in what it takes out. -/
theorem enqueue_counts (q : Queue) (counts : Counts) (p : Packet) (own : NodeId) (now : Instant) :
    ∃ counts', { q with counts }.enqueue p own now =
      ((q.enqueue p own now).1, { (q.enqueue p own now).2 with counts := counts' }) := by
  have hseen : hasSeen { q with counts } p.sender (mark p) = q.hasSeen p.sender (mark p) := rfl
  have hfree : freeSlot? { q with counts } = q.freeSlot? := rfl
  unfold enqueue
  rw [hseen, hfree]
  by_cases hl : p.path.contains own = true
  · rw [if_pos hl, if_pos hl]
    exact ⟨_, rfl⟩
  · rw [if_neg hl, if_neg hl]
    by_cases hs : q.hasSeen p.sender (mark p) = true
    · rw [if_pos hs, if_pos hs]
      exact ⟨_, rfl⟩
    · rw [if_neg hs, if_neg hs]
      cases q.freeSlot? with
      | none => exact ⟨_, rfl⟩
      | some slot =>
        dsimp only
        unfold store remember
        dsimp only
        split <;> exact ⟨_, rfl⟩

theorem dequeue?_counts (q : Queue) (counts : Counts) :
    dequeue? { q with counts } = q.dequeue?.map fun r =>
      (r.1, { r.2 with counts := { counts with dequeued := counts.dequeued.succSat } }) := by
  unfold dequeue?
  rw [Option.map_map]
  rfl

end ClusterMesh.Relay.Queue

namespace ClusterMesh.Station

structure Leftovers where
  counts : Relay.Counts
  window : Ring Int8 100
  slot : Fin 4

def leave (s : Station) (l : Leftovers) : Station :=
  { s with
    queue := { s.queue with counts := l.counts }
    survey := { s.survey with window := l.window }
    cycle := { s.cycle with slot := l.slot } }

section leave
variable (s : Station) (l : Leftovers)

@[simp] theorem leave_enabled : (s.leave l).enabled = s.enabled := rfl
@[simp] theorem leave_phase : (s.leave l).phase = s.phase := rfl
@[simp] theorem leave_noisy : (s.leave l).noisy = s.noisy := rfl
@[simp] theorem leave_neighborly : (s.leave l).neighborly = s.neighborly := rfl

end leave

def leftovers (s : Station) : Leftovers := ⟨s.queue.counts, s.survey.window, s.cycle.slot⟩

/-- The leftovers hold the samples of the station, and the slot of its cycle while that runs. -/
structure Harmless (s : Station) (l : Leftovers) : Prop where
  window : s.survey.window.Alike l.window
  slot : s.phase = .discovery → l.slot = s.cycle.slot

/-! ## What elections make of leftovers -/

theorem ite_leave {c d : Prop} [Decidable c] [Decidable d] (h : d ↔ c) {a b u v : Station}
    {l : Leftovers} (ha : u = a.leave l) (hb : v = b.leave l) :
    (if d then u else v) = (if c then a else b).leave l := by
  by_cases hc : c
  · rw [if_pos hc, if_pos (h.2 hc), ha]
  · rw [if_neg hc, if_neg (mt h.1 hc), hb]

/-- What hangs on the part of a station that elections see goes past its leftovers. -/
theorem leave_of_on {f : Station → Station} {s : Station}
    (hf : ∀ t, t.receivers = s.receivers → f (s.on t) = (f s).on t) (l : Leftovers) :
    f (s.leave l) = (f s).leave l := by
  have hl : f (s.leave l) = (f s).on (s.leave l) := hf (s.leave l) rfl
  have hs : f s = (f s).on s := hf s rfl
  rw [hl, hs]
  rfl

section leave
variable (s : Station) (l : Leftovers)

theorem note_leave (n : Notice) : (s.leave l).note n = (s.note n).leave l :=
  leave_of_on (f := (·.note n)) (fun _ h => note_on h n) l

theorem heed_leave (p : Packet) : (s.leave l).heed p = (s.heed p).leave l :=
  leave_of_on (f := (·.heed p)) (fun _ h => heed_on h p) l

theorem hearTransmitter_leave (p : Packet) (rssi : Int8) :
    (s.leave l).hearTransmitter p rssi = (s.hearTransmitter p rssi).leave l :=
  leave_of_on (f := (·.hearTransmitter p rssi)) (fun _ h => hearTransmitter_on h p rssi) l

theorem hearSender_leave (p : Packet) (rssi : Int8) :
    (s.leave l).hearSender p rssi = (s.hearSender p rssi).leave l :=
  leave_of_on (f := (·.hearSender p rssi)) (fun _ _ => hearSender_on p rssi) l

theorem decideRole_leave : (s.leave l).decideRole = s.decideRole.leave l :=
  leave_of_on (fun _ h => decideRole_on h) l

/-! ## Receptions -/

theorem observe_leave (p : Packet) (rssi : Int8) :
    (s.leave l).observe p rssi = (s.observe p rssi).leave l := by
  unfold observe
  refine ite_leave Iff.rfl rfl ?_
  dsimp only
  rw [hearTransmitter_leave, hearSender_leave]
  generalize (s.hearTransmitter p rssi).hearSender p rssi = t
  have hv := Survey.note_window t.survey l.window p.transmitter p.position rssi t.now
  have hn := heed_leave { t with
    survey := t.survey.note p.transmitter p.position rssi t.now } l p
  refine Eq.trans ?_ hn
  exact congrArg (fun v => heed { t.leave l with survey := v } p) hv

theorem take_leave (p : Packet) :
    ∃ counts, (s.leave l).take p =
      ((s.take p).1, (s.take p).2.leave { l with counts }) := by
  obtain ⟨counts, hcounts⟩ := s.queue.enqueue_counts l.counts p s.id s.now
  have hq : (s.leave l).queue.enqueue p (s.leave l).id (s.leave l).now =
      ((s.queue.enqueue p s.id s.now).1, { (s.queue.enqueue p s.id s.now).2 with counts }) :=
    hcounts
  refine ⟨counts, ?_⟩
  unfold take
  rw [hq]
  rcases s.queue.enqueue p s.id s.now with ⟨r, q⟩
  cases r with
  | ok => rfl
  | error why =>
    dsimp only
    rw [← note_leave]
    rfl

/-! ## Slots -/

theorem enter_leave (phase : Phase) (hp : phase ≠ .noisy) :
    (s.leave l).enter phase = (s.enter phase).leave l := by
  unfold enter
  dsimp only
  rw [if_neg hp, if_neg hp]
  exact note_leave ({ s with phase, phaseSlot := 0 }.trace _) l _

theorem survey_enter {phase : Phase} (hp : phase ≠ .noisy) : (s.enter phase).survey = s.survey := by
  unfold enter
  dsimp only
  rw [if_neg hp, (note_keeps _ _).2.2.2.2.1]
  rfl

theorem enter_noisy_leave :
    (s.leave l).enter .noisy = (s.enter .noisy).leave { l with window := l.window.clear } := by
  unfold enter
  dsimp only
  rw [if_pos rfl, if_pos rfl]
  exact note_leave ({ s with
    phase := .noisy, phaseSlot := 0, survey := s.survey.beginMeasuring }.trace _)
    { l with window := l.window.clear } _

theorem sendMessage_leave : (s.leave l).sendMessage = s.sendMessage.leave l := by
  unfold sendMessage
  exact ite_leave Iff.rfl rfl (ite_leave Iff.rfl rfl rfl)

theorem drop_leave (sender : NodeId) (why : DropReason) :
    (s.leave l).drop sender why = (s.drop sender why).leave l := by
  unfold drop
  exact note_leave ({ s with node := s.node.noteDropped }.trace (.dropped sender why)) l _

theorem relayNext_leave :
    ∃ counts, (s.leave l).relayNext = s.relayNext.leave { l with counts } := by
  have hq : (s.leave l).queue.dequeue? = _ := s.queue.dequeue?_counts l.counts
  unfold relayNext
  rw [hq]
  cases s.queue.dequeue? with
  | none => exact ⟨l.counts, rfl⟩
  | some r =>
    obtain ⟨e, queue⟩ := r
    refine ⟨{ l.counts with dequeued := l.counts.dequeued.succSat }, ?_⟩
    generalize { l.counts with dequeued := l.counts.dequeued.succSat } = counts
    have hdraw : Relay.accepts e.packet (s.leave l).node.here (s.leave l).crowding
        (s.leave l).settings.proximity (s.leave l).node.countDirect (s.leave l).dice =
        Relay.accepts e.packet s.node.here s.crowding s.settings.proximity s.node.countDirect
          s.dice := rfl
    dsimp only [Option.map_some]
    rw [hdraw]
    rcases Relay.accepts e.packet s.node.here s.crowding s.settings.proximity s.node.countDirect
      s.dice with ⟨accepted, dice⟩
    have hdrop := drop_leave { s with queue, dice } { l with counts } e.packet.sender
    have hcopy : copyOf { s.leave l with queue := { queue with counts }, dice } e.packet =
        copyOf { s with queue, dice } e.packet := rfl
    dsimp only
    rw [hcopy]
    refine ite_leave Iff.rfl ?_ (hdrop .policy)
    cases copyOf { s with queue, dice } e.packet with
    | error why => exact hdrop why
    | ok copy => rfl

theorem publish_leave (m : Connectivity) : (s.leave l).publish m = (s.publish m).leave l := by
  unfold publish
  exact ite_leave Iff.rfl rfl rfl

end leave

section window
variable {s : Station} {l : Leftovers} (h : s.survey.window.Alike l.window)
include h

theorem finishNoise_leave :
    (s.leave l).finishNoise = s.finishNoise.leave { l with window := l.window.clear } := by
  have hc : (s.leave l).survey.crowding = s.survey.crowding := Survey.crowding_of_alike h
  unfold finishNoise Survey.endMeasuring
  dsimp only
  rw [hc]
  rfl

theorem maintain_leave :
    (s.leave l).maintain = (s.maintain.1, s.maintain.2.1, s.maintain.2.2.leave l) := by
  have hm := Survey.measure_window (v := (s.survey.forget s.now s.maxAge).1) h
  exact congrArg (fun survey =>
    (s.maintain.1, s.maintain.2.1, { s.maintain.2.2.leave l with survey })) hm

theorem completeCycle_leave :
    (s.leave l).completeCycle = s.completeCycle.leave { l with window := l.window.clear } := by
  unfold completeCycle
  rw [maintain_leave h]
  rcases s.maintain with ⟨pruned, expired, t⟩
  have hmeasures : (t.leave l).survey.measures = t.survey.measures := rfl
  dsimp only
  rw [hmeasures, publish_leave, decideRole_leave]
  generalize (t.publish t.survey.measures).decideRole = u
  rw [← enter_noisy_leave, ← note_leave]
  rfl

end window

section slots
variable {s : Station} {l : Leftovers}

theorem exists_ite_leave {c d : Prop} [Decidable c] [Decidable d] (h : d ↔ c) {a b u v : Station}
    (ha : ∃ l, a.Harmless l ∧ u = a.leave l) (hb : ∃ l, b.Harmless l ∧ v = b.leave l) :
    ∃ l, Harmless (if c then a else b) l ∧
      (if d then u else v) = Station.leave (if c then a else b) l := by
  by_cases hc : c
  · rw [if_pos hc, if_pos (h.2 hc)]
    exact ha
  · rw [if_neg hc, if_neg (mt h.1 hc)]
    exact hb

theorem finishNoise_enter_leave (hl : s.Harmless l) :
    ∃ l', (s.finishNoise.enter .neighbor).Harmless l' ∧
      (s.leave l).finishNoise.enter .neighbor = (s.finishNoise.enter .neighbor).leave l' := by
  have hf := finishNoise_leave hl.window
  have hn := enter_leave s.finishNoise { l with window := l.window.clear } .neighbor (by decide)
  have hphase : (s.finishNoise.enter .neighbor).phase = .neighbor :=
    congrArg Clockwork.phase (enter_keeps s.finishNoise .neighbor).2.2.2
  refine ⟨{ l with window := l.window.clear }, ⟨?_, ?_⟩, ?_⟩
  · rw [survey_enter _ (by decide)]
    exact Ring.alike_clear s.survey.window l.window
  · exact fun hd => nomatch hphase.symm.trans hd
  · rw [hf, hn]

/-- A cycle that starts sets its slot, whatever slot it was left at. -/
theorem enter_start_leave (hr : s.cycle.running = false) (hl : s.Harmless l) :
    ∃ l', Harmless { s.enter .discovery with cycle := (s.enter .discovery).cycle.start.2 } l' ∧
      { (s.leave l).enter .discovery with
          cycle := ((s.leave l).enter .discovery).cycle.start.2 } =
        Station.leave { s.enter .discovery with
          cycle := (s.enter .discovery).cycle.start.2 } l' := by
  have hcycle : (s.enter .discovery).cycle = s.cycle :=
    congrArg Clockwork.cycle (enter_keeps s .discovery).2.2.2
  have hsurvey : (s.enter .discovery).survey = s.survey := survey_enter s (by decide)
  rw [enter_leave s l .discovery (by decide)]
  generalize s.enter .discovery = t at hcycle hsurvey
  have ht : t.cycle.running = false := (congrArg Cycle.running hcycle).trans hr
  have hwindow : t.survey.window.Alike l.window := by
    rw [hsurvey]
    exact hl.window
  refine ⟨{ l with slot := 0 }, ⟨hwindow, ?_⟩, ?_⟩
  · simp [Cycle.start, ht]
  · simp [leave, Cycle.start, ht]

theorem noisySlot_leave (hl : s.Harmless l) :
    ∃ l', s.noisySlot.Harmless l' ∧ (s.leave l).noisySlot = s.noisySlot.leave l' := by
  unfold noisySlot
  dsimp only
  obtain ⟨t, ht, htl, hl⟩ : ∃ t : Station,
      (if s.noisy.advance.broadcasting then { s with noisy := s.noisy.advance }.sendBeacon
        else { s with noisy := s.noisy.advance }) = t ∧
      (if (s.leave l).noisy.advance.broadcasting then
          { s.leave l with noisy := (s.leave l).noisy.advance }.sendBeacon
        else { s.leave l with noisy := (s.leave l).noisy.advance }) = t.leave l ∧
      t.Harmless l := by
    refine ⟨_, rfl, ite_leave Iff.rfl rfl rfl, ?_⟩
    split <;> exact ⟨hl.window, hl.slot⟩
  rw [ht, htl]
  have hl' : { t with phaseSlot := t.phaseSlot + 1 }.Harmless l := ⟨hl.window, hl.slot⟩
  exact exists_ite_leave Iff.rfl (finishNoise_enter_leave hl') ⟨l, hl', rfl⟩

theorem neighborSlot_leave (h : s.clockwork.InStep) (hp : s.phase = .neighbor)
    (hl : s.Harmless l) :
    ∃ l', s.neighborSlot.Harmless l' ∧ (s.leave l).neighborSlot = s.neighborSlot.leave l' := by
  have hr : s.cycle.running = false :=
    Bool.eq_false_iff.2 fun hr => nomatch hp.symm.trans (h.running.1 hr)
  unfold neighborSlot
  dsimp only
  obtain ⟨t, ht, htl, hl, hr⟩ : ∃ t : Station,
      (if s.neighborly.advance.broadcasting then
          { s with neighborly := s.neighborly.advance }.sendBeacon
        else { s with neighborly := s.neighborly.advance }) = t ∧
      (if (s.leave l).neighborly.advance.broadcasting then
          { s.leave l with neighborly := (s.leave l).neighborly.advance }.sendBeacon
        else { s.leave l with neighborly := (s.leave l).neighborly.advance }) = t.leave l ∧
      t.Harmless l ∧ t.cycle.running = false := by
    refine ⟨_, rfl, ite_leave Iff.rfl rfl rfl, ?_⟩
    split <;> exact ⟨⟨hl.window, hl.slot⟩, hr⟩
  rw [ht, htl]
  have hl' : { t with phaseSlot := t.phaseSlot + 1 }.Harmless l := ⟨hl.window, hl.slot⟩
  exact exists_ite_leave Iff.rfl (enter_start_leave hr hl') ⟨l, hl', rfl⟩

end slots

theorem inStep_leave {s : Station} (h : s.clockwork.InStep) (l : Leftovers) :
    (s.leave l).clockwork.InStep :=
  ⟨h.work, h.completion, h.running⟩

theorem slotWork_leave (s : Station) (l : Leftovers) :
    ∃ counts, (if s.cycle.slot = 0 then (s.leave l).sendMessage else (s.leave l).relayNext) =
      Station.leave (if s.cycle.slot = 0 then s.sendMessage else s.relayNext)
        { l with counts } := by
  by_cases h0 : s.cycle.slot = 0
  · rw [if_pos h0, if_pos h0]
    exact ⟨l.counts, sendMessage_leave s l⟩
  · rw [if_neg h0, if_neg h0]
    exact relayNext_leave s l

/-! What goes past every leftover goes past the station's own, so that these stay. -/

theorem window_of_leave {s : Station} {l : Leftovers} (h : s = s.leave l) :
    s.survey.window = l.window :=
  congrArg (fun t : Station => t.survey.window) h

theorem window_sendMessage (s : Station) : s.sendMessage.survey.window = s.survey.window :=
  window_of_leave (sendMessage_leave s s.leftovers)

theorem window_relayNext (s : Station) : s.relayNext.survey.window = s.survey.window := by
  obtain ⟨counts, h⟩ := relayNext_leave s s.leftovers
  exact window_of_leave h

theorem window_slotWork (s : Station) :
    (if s.cycle.slot = 0 then s.sendMessage else s.relayNext).survey.window = s.survey.window := by
  split
  · exact window_sendMessage s
  · exact window_relayNext s

theorem window_decideRole (s : Station) : s.decideRole.survey.window = s.survey.window :=
  window_of_leave (decideRole_leave s s.leftovers)

theorem window_publish (s : Station) (m : Connectivity) :
    (s.publish m).survey.window = s.survey.window :=
  window_of_leave (publish_leave s s.leftovers m)

theorem window_completeCycle (s : Station) :
    s.completeCycle.survey.window = s.survey.window.clear := by
  unfold completeCycle enter
  dsimp only
  rw [if_pos rfl, (note_keeps _ _).2.2.2.2.1]
  change Ring.clear (note _ _).survey.window = s.survey.window.clear
  rw [(note_keeps _ _).2.2.2.2.1, (trace_keeps _ _).2.2.2.2.1, window_decideRole, window_publish]
  rfl

theorem discoverySlot_leave {s : Station} (h : s.clockwork.InStep) (hp : s.phase = .discovery)
    {l : Leftovers} (hl : s.Harmless l) :
    ∃ l', s.discoverySlot.Harmless l' ∧ (s.leave l).discoverySlot = s.discoverySlot.leave l' := by
  obtain ⟨counts, hw⟩ := slotWork_leave s l
  have hwindow := window_slotWork s
  have hslot : (s.leave l).cycle.slot = s.cycle.slot := hl.slot hp
  rw [discoverySlot_eq h hp, discoverySlot_eq (inStep_leave h l) hp]
  dsimp only
  rw [hslot, hw]
  generalize (if s.cycle.slot = 0 then s.sendMessage else s.relayNext) = t at hwindow
  by_cases h3 : s.cycle.slot = 3
  · rw [if_pos h3, if_pos h3]
    generalize hu : { t with cycle := { s.cycle with slot := 0, count := s.cycle.count + 1 } } = u
    have hwu : u.survey.window = s.survey.window := by
      rw [← hu]
      exact hwindow
    have halike : u.survey.window.Alike l.window := by
      rw [hwu]
      exact hl.window
    have hclear : u.completeCycle.survey.window.Alike l.window.clear := by
      rw [window_completeCycle, hwu]
      exact Ring.alike_clear s.survey.window l.window
    have hnoisy : u.completeCycle.phase = .noisy :=
      congrArg Clockwork.phase (completeCycle_keeps u).1
    have hc := completeCycle_leave (l := { l with counts, slot := u.cycle.slot }) halike
    refine ⟨{ counts, window := l.window.clear, slot := u.cycle.slot },
      ⟨hclear, fun hd => nomatch hnoisy.symm.trans hd⟩, ?_⟩
    subst hu
    exact congrArg (fun u : Station => { u with cycle := u.cycle.stop }) hc
  · rw [if_neg h3, if_neg h3]
    exact ⟨{ l with counts, slot := s.cycle.slot + 1 }, ⟨hwindow ▸ hl.window, fun _ => rfl⟩, rfl⟩

/-! ## Operations -/

theorem window_observe (s : Station) (p : Packet) (rssi : Int8) :
    (s.observe p rssi).survey.window = s.survey.window :=
  window_of_leave (observe_leave s s.leftovers p rssi)

theorem window_take (s : Station) (p : Packet) :
    (s.take p).2.survey.window = s.survey.window := by
  obtain ⟨counts, h⟩ := take_leave s s.leftovers p
  exact window_of_leave (congrArg Prod.snd h)

section enabled
variable {s : Station} (he : s.enabled = true) (now : Instant)
include he

theorem tick_enabled :
    s.tick now =
      match s.phase with
      | .noisy => { s with now }.noisySlot
      | .neighbor => { s with now }.neighborSlot
      | .discovery => { s with now }.discoverySlot := by
  unfold tick
  exact if_neg (by simp [he])

theorem receive_enabled (p : Packet) (rssi : Int8) :
    s.receive p rssi now =
      match s.phase with
      | .noisy =>
        if s.noisy.broadcasting then (.ignored, { s with now })
        else (.sampled, { s with now, survey := s.survey.sample rssi })
      | .neighbor =>
        if s.neighborly.broadcasting then (.ignored, { s with now })
        else (.observed, { s with now }.observe p rssi)
      | .discovery => ({ s with now }.observe p rssi).take p := by
  unfold receive
  exact if_neg (by simp [he])

end enabled

theorem tick_leave {s : Station} (h : s.clockwork.InStep) {l : Leftovers} (hl : s.Harmless l)
    (now : Instant) :
    ∃ l', (s.tick now).Harmless l' ∧ (s.leave l).tick now = (s.tick now).leave l' := by
  have hl' : { s with now }.Harmless l := ⟨hl.window, hl.slot⟩
  by_cases he : s.enabled = true
  · rw [tick_enabled he, tick_enabled (s := s.leave l) he, leave_phase]
    split
    · exact noisySlot_leave hl'
    · next hp => exact neighborSlot_leave (s := { s with now }) h hp hl'
    · next hp => exact discoverySlot_leave (s := { s with now }) h hp hl'
  · unfold tick
    rw [if_pos (by simp [he]), if_pos (by simp [leave, he])]
    exact ⟨l, hl, rfl⟩

theorem receive_leave {s : Station} {l : Leftovers} (hl : s.Harmless l) (p : Packet) (rssi : Int8)
    (now : Instant) :
    ∃ l', (s.receive p rssi now).2.Harmless l' ∧
      (s.leave l).receive p rssi now =
        ((s.receive p rssi now).1, (s.receive p rssi now).2.leave l') := by
  have hc := clockwork_receive s p rssi now
  have hphase := congrArg Clockwork.phase hc
  have hcycle := congrArg Clockwork.cycle hc
  -- the cycle stands still, so that the counts and the window are all there is to say
  suffices h : ∃ counts window, (s.receive p rssi now).2.survey.window.Alike window ∧
      (s.leave l).receive p rssi now =
        ((s.receive p rssi now).1, (s.receive p rssi now).2.leave { l with counts, window }) by
    obtain ⟨counts, window, hw, hr⟩ := h
    refine ⟨{ l with counts, window }, ⟨hw, fun hp => ?_⟩, hr⟩
    exact (hl.slot (hphase.symm.trans hp)).trans (congrArg Cycle.slot hcycle).symm
  by_cases he : s.enabled = true
  · rw [receive_enabled he, receive_enabled (s := s.leave l) he, leave_phase, leave_noisy,
      leave_neighborly]
    split
    · by_cases hb : s.noisy.broadcasting = true
      · rw [if_pos hb, if_pos hb]
        exact ⟨l.counts, l.window, hl.window, rfl⟩
      · rw [if_neg hb, if_neg hb]
        obtain ⟨window, hw, hs⟩ := Survey.sample_window hl.window rssi
        refine ⟨l.counts, window, hw, ?_⟩
        exact congrArg (fun survey =>
          (Reception.sampled, { s.leave l with now, survey })) hs
    · by_cases hb : s.neighborly.broadcasting = true
      · rw [if_pos hb, if_pos hb]
        exact ⟨l.counts, l.window, hl.window, rfl⟩
      · rw [if_neg hb, if_neg hb]
        refine ⟨l.counts, l.window, ?_, ?_⟩
        · exact window_observe { s with now } p rssi ▸ hl.window
        · exact congrArg (Prod.mk Reception.observed) (observe_leave { s with now } l p rssi)
    · have ho := observe_leave { s with now } l p rssi
      obtain ⟨counts, ht⟩ := take_leave ({ s with now }.observe p rssi) l p
      refine ⟨counts, l.window, ?_, ?_⟩
      · rw [window_take, window_observe]
        exact hl.window
      · exact (congrArg (·.take p) ho).trans ht
  · unfold receive
    rw [if_pos (by simp [he]), if_pos (by simp [leave, he])]
    exact ⟨l.counts, l.window, hl.window, rfl⟩

end ClusterMesh.Station
