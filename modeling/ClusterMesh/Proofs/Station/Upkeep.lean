import ClusterMesh.Proofs.Station.Expiry
import ClusterMesh.Proofs.Station.Instruments
import ClusterMesh.Proofs.Station.Neighborhood

/-! The upkeep at the end of a cycle. Three tables are cleaned by two clocks, the roster by cycles
and the other two by milliseconds, before anything is measured or decided. So what is published
and counted is that of the cleaned tables, and the role is decided by the cleaned roster. -/
namespace ClusterMesh

/-! ## What was heard -/

namespace Survey

structure Measured (v : Survey) (found : Float) : Prop where
  direct : v.measures.direct.toNat = (v.heard.values.filter (·.isDirect)).length
  total : v.measures.total.toNat = v.heard.size
  crowding : v.measures.crowding = found
  signalRatio : v.measures.signalRatio = v.measures.direct.toFloat / (1.0 + found)
  spread : ∀ order, v.measures.spread order = v.spread order
  relayRate : v.measures.relayRate =
    if 0 < v.measures.received then v.measures.relayed.toFloat / v.measures.received.toFloat
    else 0.0

theorem measured_measure {v : Survey} (h : v.heard.size ≤ capacity) :
    v.measure.Measured v.crowding where
  direct := by
    have hle := List.length_filter_le (·.isDirect) v.heard.values
    have hlen : v.heard.values.length = v.heard.size := List.length_map ..
    unfold capacity at h
    exact UInt32.toNat_ofNat_of_lt' (by rw [UInt32.size]; omega)
  total := by
    unfold capacity at h
    exact UInt32.toNat_ofNat_of_lt' (by rw [UInt32.size]; omega)
  crowding := rfl
  signalRatio := rfl
  spread := fun _ => rfl
  relayRate := rfl

end Survey

namespace Station

theorem memory_relayNext (s : Station) : s.relayNext.queue.memory = s.queue.memory := by
  have h := relays_relayNext s
  generalize ht : s.relayNext.traffic = t at h
  have hq : s.relayNext.queue = t.queue := congrArg Traffic.queue ht
  rw [hq]
  cases h with
  | idle => rfl
  | dropped hd => exact (Relay.Queue.dequeue_keeps hd).2.1
  | copied hd => exact (Relay.Queue.dequeue_keeps hd).2.1

/-! ## The end of a cycle -/

theorem on_publish {m t : Station} (hm : m.on t = t) (c : Connectivity) :
    m.on (t.publish c) = t.publish c := by
  unfold publish
  split
  · exact congrArg (fun u : Station => { u with
      outbox := { u.outbox with measures := t.outbox.measures.push c } }) hm
  · exact hm

theorem receivers_publish (s : Station) (c : Connectivity) :
    (s.publish c).receivers = s.receivers := by
  unfold publish
  split <;> rfl

/-- Maintenance comes before the decision, and nothing comes after it that touches the node. -/
theorem node_completeCycle {s m : Station} (hm : m.on s.maintain.2.2 = s.maintain.2.2)
    (hr : s.receivers = m.receivers) :
    s.completeCycle.node = { m.decideRole.node with counts := s.maintain.2.2.node.counts } ∧
      s.completeCycle.campaign = m.decideRole.campaign := by
  have hd := decideRole_of_on (on_publish hm s.maintain.2.2.survey.measures)
    ((receivers_publish _ _).trans hr)
  have hcounts := congrArg Node.counts
    (publish_keeps s.maintain.2.2 s.maintain.2.2.survey.measures).2.2.2
  have henter (t : Station) : (t.enter .noisy).campaign = t.campaign :=
    congrArg Office.campaign (enter_keeps t .noisy).1
  unfold completeCycle
  dsimp only
  rw [(enter_keeps _ _).2.2.1, henter, (note_keeps _ _).2.2.1, (note_keeps _ _).2.2.2.1,
    ← hcounts, hd]
  exact ⟨rfl, rfl⟩

theorem Reachable.fixed {s : Station} (h : Reachable s) : ∃ r, s.Fixed s.settings r := by
  induction h with
  | @start _ receivers s hs =>
    obtain ⟨-, rfl⟩ := start_eq hs
    exact ⟨receivers, fixed_start hs⟩
  | step hs op ih =>
    obtain ⟨r, hf⟩ := ih
    exact ⟨r, settings_step hs.inStep op ▸ hf.step op⟩

/-! ## Upkeep -/

/-- What the end of a cycle makes of a station whose work in the last slot is done. -/
structure Upkeep (s t : Station) : Prop where
  cycle : t.node.cycle = s.node.cycle.succSat
  roster : t.node.roster.entries = s.node.roster.entries.filter fun e =>
    t.node.cycle.toNat - e.2.lastSeen.toNat ≤ s.settings.patience.toNat
  memory : t.queue.memory.entries = s.queue.memory.entries.filter fun e =>
    s.now.ms.toNat - e.2.seenAt.ms.toNat ≤ s.settings.memoryMs
  heard : t.survey.heard.entries = s.survey.heard.entries.filter fun e =>
    s.now.ms.toNat - e.2.lastSeen.ms.toNat ≤ s.settings.memoryMs
  waiting : t.queue.slots = s.queue.slots ∧ t.queue.size = s.queue.size
  measured : t.survey.Measured s.survey.crowding
  relays : t.survey.measures.relayed = s.survey.measures.relayed ∧
    t.survey.measures.received = s.survey.measures.received
  published : t.outbox.measures =
    if s.receivers.measures then s.outbox.measures.push t.survey.measures else s.outbox.measures
  meanRssi : t.node.counts.meanRssi = t.node.roster.meanRssi
  direct : t.node.counts.direct.toNat = t.node.countDirect
  decided : ∀ m : Station,
    m = { s with node := { s.node with roster := t.node.roster, cycle := t.node.cycle } } →
      t.node = { m.decideRole.node with counts := t.node.counts } ∧
        t.campaign = m.decideRole.campaign

/-- A roster after its cleaning, with the ages told in whole numbers. -/
theorem entries_prune (n : Node) (patience : UInt32) :
    (n.prune patience).1.roster.entries = n.roster.entries.filter fun e =>
      n.cycle.toNat - e.2.lastSeen.toNat ≤ patience.toNat := by
  refine List.filter_congr fun e _ => decide_eq_decide.2 ?_
  rw [UInt32.le_iff_toNat_le, UInt32.toNat_subSat]

theorem cycle_completeCycle (s : Station) :
    s.completeCycle.node.cycle = s.node.cycle.succSat := by
  have hd := decides_completeCycle (s := s) rfl
  generalize ho : s.completeCycle.office = o at hd
  have hc : s.completeCycle.node.cycle = o.cycle := congrArg Office.cycle ho
  rw [hc]
  cases hd <;> rfl

theorem counts_completeCycle (s : Station) :
    s.completeCycle.node.counts =
      (s.node.advanceCycle.prune s.settings.patience).1.refreshCounts.counts := by
  rw [(node_completeCycle (s := s) (m := s.maintain.2.2) rfl rfl).1]
  rfl

theorem upkeep_completeCycle {s : Station} (hroom : s.Roomy) (hspace : s.Spacious)
    {cycle : Cycle SlotUse Unit} (cycle' : Cycle SlotUse Unit)
    (hage : ∀ seen : Instant, s.now.since seen ≤ maxAge { s with cycle } ↔
      s.now.ms.toNat - seen.ms.toNat ≤ s.settings.memoryMs) :
    s.Upkeep { { s with cycle }.completeCycle with cycle := cycle' } := by
  -- the decision, made by the roster that is left
  have hdecided (m : Station) (hm : m = { s with node := { s.node with
      roster := (s.node.advanceCycle.prune s.settings.patience).1.roster
      cycle := s.node.cycle.succSat } }) :=
    node_completeCycle (s := { s with cycle }) (m := m) (by rw [hm]; rfl) (by rw [hm])
  have hcycle := cycle_completeCycle { s with cycle }
  have hroster := roster_completeCycle { s with cycle }
  have hsurvey := survey_completeCycle { s with cycle }
  have hqueue : { s with cycle }.completeCycle.queue =
      (s.queue.forget s.now (maxAge { s with cycle })).1 :=
    congrArg Ledger.queue (ledger_completeCycle { s with cycle })
  have hreports := congrArg Instruments.reports (instruments_completeCycle { s with cycle })
  have hcounts := counts_completeCycle { s with cycle }
  generalize { s with cycle }.completeCycle = t at *
  -- what was heard and is young enough still fits
  have hkept : (s.survey.forget s.now (maxAge { s with cycle })).1.heard.size ≤ Survey.capacity :=
    Nat.le_trans (Table.size_filter_le ..) hspace
  have hmeasured := Survey.measured_measure hkept
  have hdirect : t.node.roster.countDirect ≤ Roster.capacity := by
    have hle : t.node.roster.size ≤ s.node.roster.size := by
      rw [hroster]
      exact Table.size_filter_le ..
    exact Nat.le_trans t.node.roster.countDirect_le_size (Nat.le_trans hle hroom)
  exact {
    cycle := hcycle
    roster := by
      dsimp only
      rw [hroster, entries_prune, hcycle]
      rfl
    memory := by
      have hq : t.queue.memory.entries = _ := congrArg (·.memory.entries) hqueue
      exact hq.trans (List.filter_congr fun e _ => decide_eq_decide.2 (hage e.2.seenAt))
    heard := by
      have hv : t.survey.heard.entries = _ := congrArg (·.heard.entries) hsurvey
      exact hv.trans (List.filter_congr fun e _ => decide_eq_decide.2 (hage e.2.lastSeen))
    waiting := by
      dsimp only
      rw [hqueue]
      exact ⟨rfl, rfl⟩
    measured := by
      dsimp only
      rw [hsurvey]
      exact ⟨hmeasured.direct, hmeasured.total, hmeasured.crowding, hmeasured.signalRatio,
        hmeasured.spread, hmeasured.relayRate⟩
    relays := by
      dsimp only
      rw [hsurvey]
      exact ⟨rfl, rfl⟩
    published := by
      dsimp only
      rw [hsurvey]
      exact hreports
    meanRssi := by
      dsimp only
      rw [hroster, hcounts]
      rfl
    direct := by
      have hc : t.node.counts.direct = UInt16.ofNat t.node.countDirect := by
        rw [Node.countDirect, hroster, hcounts]
        rfl
      have hle : t.node.countDirect ≤ 150 := hdirect
      dsimp only
      rw [hc]
      exact UInt16.toNat_ofNat_of_lt' (by rw [UInt16.size]; omega)
    decided := by
      intro m hm
      dsimp only at hm
      rw [hroster, hcycle] at hm
      obtain ⟨hnode, hcampaign⟩ := hdecided m hm
      exact ⟨hnode.trans (congrArg (fun counts => { m.decideRole.node with counts }) hcounts.symm),
        hcampaign⟩ }

theorem discoverySlot_last {s : Station} (hi : s.clockwork.InStep) (hp : s.phase = .discovery)
    (h3 : s.cycle.slot = 3) :
    ∃ cycle cycle' : Cycle SlotUse Unit, cycle.slotLength = s.cycle.slotLength ∧
      s.discoverySlot =
        { { s.relayNext with cycle }.completeCycle with cycle := cycle' } := by
  have h0 : ¬ s.cycle.slot = 0 := by
    rw [h3]
    decide
  have hd := discoverySlot_eq hi hp
  dsimp only at hd
  rw [if_neg h0, if_pos h3] at hd
  exact ⟨{ s.cycle with slot := 0, count := s.cycle.count + 1 }, _, rfl, hd⟩

theorem step_of_completes {s : Station} (hi : s.clockwork.InStep) {now : Instant}
    (h3 : s.completes (.tick now) = true) :
    ∃ cycle cycle' : Cycle SlotUse Unit, cycle.slotLength = s.cycle.slotLength ∧
      s.step (.tick now) =
        { { { s with now }.relayNext with cycle }.completeCycle with cycle := cycle' } := by
  simp only [completes, runsSlot, Bool.and_eq_true, decide_eq_true_eq] at h3
  obtain ⟨⟨he, hp⟩, hv⟩ := h3
  obtain ⟨he', -⟩ | ⟨-, ⟨hp', -⟩ | ⟨hp', -⟩ | ⟨-, ht⟩⟩ := tick_cases s now
  · simp [he] at he'
  · simp [hp] at hp'
  · simp [hp] at hp'
  · rw [ht]
    exact discoverySlot_last (s := { s with now }) hi hp (Fin.ext hv)

/-- The end of a cycle keeps in each table exactly what is young enough, and measures, counts and
decides by what it has kept. The work of the last slot leaves the three tables alone. -/
theorem upkeep_of_completes {s : Station} (h : s.Reachable) {now : Instant}
    (h3 : s.completes (.tick now) = true) :
    ∃ w : Station, w = { s with now }.relayNext ∧ w.now = now ∧ w.settings = s.settings ∧
      w.receivers = s.receivers ∧ w.node.cycle = s.node.cycle ∧
      w.node.roster = s.node.roster ∧ w.queue.memory = s.queue.memory ∧
      w.survey.heard = s.survey.heard ∧ w.Upkeep (s.step (.tick now)) := by
  obtain ⟨r, hf⟩ := h.fixed
  obtain ⟨cycle, cycle', hlength, ht⟩ := step_of_completes h.inStep h3
  obtain ⟨ho, hc⟩ := relayNext_keeps { s with now }
  have hnow := now_relayNext { s with now }
  have hfixtures := fixtures_relayNext { s with now }
  have hroster := roster_relayNext { s with now }
  have hheard := heard_relayNext { s with now }
  have hmemory := memory_relayNext { s with now }
  refine ⟨{ s with now }.relayNext, rfl, hnow, congrArg Clockwork.settings hc,
    congrArg Fixtures.receivers hfixtures, congrArg Office.cycle ho, hroster, hmemory, hheard, ?_⟩
  generalize { s with now }.relayNext = w at *
  have hsettings : w.settings = s.settings := congrArg Clockwork.settings hc
  have hage (seen : Instant) : w.now.since seen ≤ maxAge { w with cycle } ↔
      w.now.ms.toNat - seen.ms.toNat ≤ w.settings.memoryMs := by
    have hmax : maxAge { w with cycle } = s.maxAge := by
      unfold maxAge Cycle.length
      dsimp only
      rw [hlength, hsettings]
    rw [hmax, hnow, hsettings]
    exact hf.since_le_iff
  rw [ht]
  refine upkeep_completeCycle ?_ ?_ cycle' hage
  · unfold Roomy
    rw [hroster]
    exact h.roomy
  · unfold Spacious
    rw [hheard]
    exact h.spacious

/-- A cycle that ends late forgets what was heard five seconds ago, and the neighbor that was heard
in it stays, since the roster goes by cycles. -/
theorem upkeep_of_completes_late :
    let c : Settings := { id := 1, plan := ⟨1, 50, 1, 10⟩ }
    let p : Packet := { sender := 7, path := ⟨[7], by simp [maxHops]⟩ }
    let s := (fresh c {}).run [.tick ⟨0⟩, .tick ⟨10⟩, .receive p (-50) ⟨110⟩, .tick ⟨110⟩,
      .tick ⟨210⟩, .tick ⟨310⟩]
    let t := s.step (.tick ⟨5110⟩)
    s.Reachable ∧ s.completes (.tick ⟨5110⟩) = true ∧
      (s.survey.heard.size = 1 ∧ s.queue.memory.size = 1 ∧ s.node.roster.size = 1) ∧
      (t.survey.heard.entries = [] ∧ t.queue.memory.size = 0 ∧ t.node.roster.size = 1) ∧
      t.survey.measures.total.toNat = t.survey.heard.size ∧
      t.node.counts.direct.toNat = t.node.countDirect := by
  intro c p s t
  have hs : s.Reachable := (Reachable.start (rfl : Station.start c {} = .ok (fresh c {}))).run _
  obtain ⟨h3, hbefore, hafter⟩ : s.completes (.tick ⟨5110⟩) = true ∧
      (s.survey.heard.size = 1 ∧ s.queue.memory.size = 1 ∧ s.node.roster.size = 1) ∧
      (t.survey.heard.entries = [] ∧ t.queue.memory.size = 0 ∧ t.node.roster.size = 1) := by
    decide +kernel
  obtain ⟨w, hw, -, -, -, -, -, -, -, hu⟩ := upkeep_of_completes hs h3
  exact ⟨hs, h3, hbefore, hafter, hu.measured.total, hu.direct⟩

end Station
end ClusterMesh
