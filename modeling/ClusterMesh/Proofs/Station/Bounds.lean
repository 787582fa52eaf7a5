import ClusterMesh.Proofs.Checked.Parts
import ClusterMesh.Proofs.Station.Leftovers
import ClusterMesh.Proofs.Station.Neighborhood
import ClusterMesh.Proofs.Station.Schedule

/-! The bounds within which a station stays once it is started: its place in the cycle and in the
phase, its schedules, its window for samples, its queue, its neighbors and the rounds of its
campaign. Every operation of the host keeps all of them, whatever was heard and whenever. -/
namespace ClusterMesh

structure Campaign.InBounds (c : Campaign) : Prop where
  rounds_le : c.rounds ≤ Station.electionRounds
  renouncements_le : c.renouncements ≤ Station.electionRounds

namespace Station

structure InBounds (s : Station) : Prop where
  slot_lt : s.cycle.slot.val < 4
  inTime : s.clockwork.InTime
  noisy : s.noisy.OnLap
  neighborly : s.neighborly.OnLap
  window : s.survey.window.InBounds
  queue : s.queue.Tallied
  roster : s.Roomy
  campaign : s.campaign.InBounds

theorem inBounds_start {settings : Settings} {receivers : Receivers} {s : Station}
    (h : Station.start settings receivers = .ok s) : s.InBounds := by
  obtain ⟨hv, rfl⟩ := start_eq h
  exact {
    slot_lt := Nat.zero_lt_succ 3
    inTime := Clockwork.inTime_first hv rfl rfl
    noisy := Airtime.onLap_noisy ..
    neighborly := Airtime.onLap_stochastic ..
    window := ⟨Nat.zero_lt_succ 99, Nat.zero_le _⟩
    queue := congrArg List.length Relay.Queue.waiting_empty.symm
    roster := Nat.zero_le _
    campaign := ⟨Nat.zero_le _, Nat.zero_le _⟩ }

/-! ## Schedules -/

theorem schedules_step {s : Station} (h : s.clockwork.InStep) (hn : s.noisy.OnLap)
    (hb : s.neighborly.OnLap) (op : Op) :
    (s.step op).noisy.OnLap ∧ (s.step op).neighborly.OnLap := by
  have ht := tunes_step h op
  generalize (s.step op).phase = phase at ht
  generalize hi : (s.step op).instruments = i at ht
  have hnoisy : (s.step op).noisy = i.noisy := congrArg Instruments.noisy hi
  have hneighborly : (s.step op).neighborly = i.neighborly := congrArg Instruments.neighborly hi
  rw [hnoisy, hneighborly]
  cases ht with
  | kept | completed => exact ⟨hn, hb⟩
  | noisy => exact ⟨hn.advance, hb⟩
  | settled => exact ⟨hn.advance, hb.setCrowding _⟩
  | neighbor => exact ⟨hn, hb.advance⟩
  | reset => exact ⟨Airtime.onLap_noisy .., Airtime.onLap_stochastic ..⟩

/-! ## The window for samples -/

theorem turns_receive (s : Station) (p : Packet) (rssi : Int8) (now : Instant) :
    s.survey.window.Turns (s.receive p rssi now).2.survey.window := by
  have hr := s.receives p rssi now
  generalize s.receive p rssi now = r at hr
  cases hr with
  | off | busy => exact .kept
  | sampled =>
    unfold Survey.sample
    dsimp only
    split
    · exact .pushed rssi
    · exact .kept
  | observed =>
    rw [window_observe]
    exact .kept
  | taken =>
    rw [window_take, window_observe]
    exact .kept

/-- A beacon that may be sent takes no slot of the phase and no sample. -/
theorem sendBeacon_keeps (s : Station) (c : Prop) [Decidable c] :
    (if c then s.sendBeacon else s).phaseSlot = s.phaseSlot ∧
      (if c then s.sendBeacon else s).survey = s.survey := by
  split <;> exact ⟨rfl, rfl⟩

theorem turns_noisySlot (s : Station) : s.survey.window.Turns s.noisySlot.survey.window := by
  obtain ⟨-, hv⟩ := sendBeacon_keeps { s with noisy := s.noisy.advance }
    (s.noisy.advance.broadcasting = true)
  unfold noisySlot
  dsimp only at hv ⊢
  generalize (if s.noisy.advance.broadcasting = true then _ else _ : Station) = t at hv ⊢
  rw [← hv]
  split
  · rw [survey_enter _ (by decide)]
    exact .cleared
  · exact .kept

theorem window_neighborSlot (s : Station) : s.neighborSlot.survey.window = s.survey.window :=
  neighborSlot_untouched (f := fun t => t.survey.window) (fun _ _ => rfl) (fun _ => rfl)
    (fun _ _ => rfl) (fun t _ => congrArg Survey.window (survey_enter t (by decide))) s

theorem turns_discoverySlot {s : Station} (h : s.clockwork.InStep) (hp : s.phase = .discovery) :
    s.survey.window.Turns s.discoverySlot.survey.window := by
  have hw := window_slotWork s
  rw [discoverySlot_eq h hp]
  generalize (if s.cycle.slot = 0 then s.sendMessage else s.relayNext) = t at hw
  rw [← hw]
  dsimp only
  split
  · rw [window_completeCycle]
    exact .cleared
  · exact .kept

theorem turns_window_step {s : Station} (h : s.clockwork.InStep) (op : Op) :
    s.survey.window.Turns (s.step op).survey.window := by
  have ht := s.steps_step op
  generalize s.step op = t at ht
  cases ht with
  | set => exact .kept
  | noisy now => exact turns_noisySlot { s with now }
  | neighbor now =>
    rw [window_neighborSlot]
    exact .kept
  | discovery now hp => exact turns_discoverySlot (s := { s with now }) h hp
  | heard p rssi now => exact turns_receive s p rssi now
  | reset => exact .cleared

/-! ## The queue and the campaign -/

theorem tallied_step {s : Station} (h : s.clockwork.InStep) (hq : s.queue.Tallied) (op : Op) :
    (s.step op).queue.Tallied := by
  have hrelays {t : Traffic} (ht : s.Relays t) : t.queue.Tallied := by
    cases ht with
    | idle => exact hq
    | dropped hd => exact hq.dequeue hd
    | copied hd => exact hq.dequeue hd
  have hc := carries_step h op
  change (s.step op).traffic.queue.Tallied
  generalize (s.step op).traffic = t at hc
  cases hc with
  | kept | beacon | message => exact hq
  | offered hp time => exact hq.enqueue ..
  | relayed ht => exact hrelays ht
  | tidied ht now maxAge => exact (hrelays ht).forget now maxAge
  | cleared => exact congrArg List.length (Relay.Queue.waiting_clear s.queue).symm

theorem inBounds_spoken {o : Office} (h : o.campaign.InBounds) : o.spoken.campaign.InBounds := by
  have hrounds := h.rounds_le
  have hrenouncements := h.renouncements_le
  unfold Office.spoken
  split
  · exact ⟨hrounds, Nat.le_trans (Nat.sub_le ..) hrenouncements⟩
  · split
    · exact ⟨Nat.le_trans (Nat.sub_le ..) hrounds, hrenouncements⟩
    · exact h

theorem campaign_step {s : Station} (h : s.clockwork.InStep) (hc : s.campaign.InBounds) (op : Op) :
    (s.step op).campaign.InBounds := by
  have ht := turns_step h op
  generalize ho : (s.step op).office = o at ht
  have hcampaign : (s.step op).campaign = o.campaign := congrArg Office.campaign ho
  rw [hcampaign]
  cases ht with
  | kept => exact hc
  | spoke => exact inBounds_spoken (o := s.office) hc
  | reset => exact ⟨Nat.zero_le _, Nat.zero_le _⟩
  | decided h3 hd =>
    cases hd with
    | stand => exact ⟨Nat.le_refl _, Nat.zero_le _⟩
    | _ => exact hc
  | heeded hh hd =>
    cases hd with
    | concede => exact ⟨Nat.zero_le _, Nat.le_refl _⟩
    | _ => exact hc

/-! ## Operations -/

theorem InBounds.step {s : Station} (hb : s.InBounds) (h : s.clockwork.InStep)
    (hv : s.settings.Valid) (op : Op) : (s.step op).InBounds := by
  obtain ⟨hnoisy, hneighborly⟩ := schedules_step h hb.noisy hb.neighborly op
  exact {
    slot_lt := (s.step op).cycle.slot.isLt
    inTime := (moves_step h hv hb.inTime op).1
    noisy := hnoisy
    neighborly := hneighborly
    window := hb.window.turns (turns_window_step h op)
    queue := tallied_step h hb.queue op
    roster := hb.roster.step h op
    campaign := campaign_step h hb.campaign op }

end Station
end ClusterMesh
