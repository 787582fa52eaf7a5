import ClusterMesh.Proofs.Checked.Frame
import ClusterMesh.Proofs.Station.Bounds

/-! The steps of a station in checked arithmetic. Each checked step is the step itself, done by
the checked parts. Where the parts are within their bounds it has a result, and the same one. -/
namespace ClusterMesh.Station

/-! ## Own messages -/

def checkedOwnBallot (s : Station) : Option Ballot :=
  let ballot : Ballot :=
    { clusterClass := s.node.clusterClass, direct := s.campaign.direct,
      score := .ofFloat s.node.score, hash := s.node.hash }
  ballot.checkedAddHop s.campaign.direct 0

def checkedRenounce (s : Station) : Option Station := do
  let left ← Checked.difference s.campaign.renouncements 1
  let s := { s with campaign := { s.campaign with renouncements := left } }
  let s := s.trace (.renounced s.node.cycle left)
  pure (s.sendOwn { s.beacon with content := .renouncement {} })

def checkedAnnounce (s : Station) : Option Station := do
  let left ← Checked.difference s.campaign.rounds 1
  let s := { s with campaign := { s.campaign with rounds := left, lastRound := s.node.cycle } }
  let ballot ← s.checkedOwnBallot
  let s := { s with node := { s.node with reach := ballot.reach } }
  let s := s.trace (.announced s.node.cycle s.campaign.direct ballot.reach left)
  pure (s.sendOwn { s.beacon with fromHead := true, content := .candidacy ballot })

def checkedSendMessage (s : Station) : Option Station :=
  if 0 < s.campaign.renouncements then s.checkedRenounce
  else if s.node.role = .candidate ∧ 0 < s.campaign.rounds then s.checkedAnnounce
  else some s.sendBeacon

theorem checkedOwnBallot_eq (s : Station) : s.checkedOwnBallot = some s.ownBallot := by
  unfold checkedOwnBallot ownBallot
  exact Ballot.checkedAddHop_eq ..

theorem checkedSendMessage_eq (s : Station) : s.checkedSendMessage = some s.sendMessage := by
  unfold checkedSendMessage sendMessage
  split
  · next hr =>
    unfold checkedRenounce
    rw [Checked.bind_eq (Checked.difference_eq hr)]
    rfl
  · split
    · next hc =>
      unfold checkedAnnounce
      rw [Checked.bind_eq (Checked.difference_eq hc.2)]
      dsimp only
      rw [Checked.bind_eq (checkedOwnBallot_eq _)]
      rfl
    · rfl

/-! ## Relaying -/

def checkedCountHop (s : Station) (p : Packet) : Option Content :=
  match p.content with
  | .candidacy ballot => do
    let known := (p.path.toList.filter s.node.roster.knowsDirect).length
    let ballot ← ballot.checkedAddHop (UInt32.ofNat s.node.countDirect) (UInt32.ofNat known)
    pure (.candidacy ballot)
  | content => some content

def checkedCopyOf (s : Station) (p : Packet) : Option (Except DropReason Packet) := do
  match ← p.checkedSpendLife with
  | none => pure (.error .lifeSpent)
  | some p =>
    let content ← s.checkedCountHop p
    if isSaturated content then pure (.error .reachSaturated)
    else
      match { p with content }.addToPath? s.id with
      | none => pure (.error .pathFull)
      | some p => pure (.ok { p with position := s.node.here.or p.position })

def checkedRelayNext (s : Station) : Option Station := do
  match ← s.queue.checkedDequeue with
  | none => pure s
  | some (entry, queue) =>
    let p := entry.packet
    let (accepted, dice) :=
      Relay.accepts p s.node.here s.crowding s.settings.proximity s.node.countDirect s.dice
    let s := { s with queue, dice }
    if accepted then
      match ← s.checkedCopyOf p with
      | .error why => pure (s.drop p.sender why)
      | .ok copy => pure (s.relay copy)
    else pure (s.drop p.sender .policy)

theorem checkedCountHop_eq (s : Station) (p : Packet) :
    s.checkedCountHop p = some (s.countHop p) := by
  unfold checkedCountHop countHop
  cases p.content with
  | candidacy ballot =>
    dsimp only
    rw [Checked.bind_eq (Ballot.checkedAddHop_eq ..)]
    rfl
  | beacon | renouncement => rfl

theorem checkedCopyOf_eq (s : Station) (p : Packet) : s.checkedCopyOf p = some (s.copyOf p) := by
  unfold checkedCopyOf copyOf
  rw [Checked.bind_eq p.checkedSpendLife_eq]
  cases p.spendLife? with
  | none => rfl
  | some p =>
    dsimp only
    rw [Checked.bind_eq (s.checkedCountHop_eq p)]
    split
    · rfl
    · cases { p with content := s.countHop p }.addToPath? s.id <;> rfl

theorem checkedRelayNext_eq {s : Station} (h : s.queue.Tallied) :
    s.checkedRelayNext = some s.relayNext := by
  unfold checkedRelayNext relayNext
  rw [Checked.bind_eq h.checkedDequeue_eq]
  cases s.queue.dequeue? with
  | none => rfl
  | some r =>
    obtain ⟨entry, queue⟩ := r
    dsimp only
    generalize Relay.accepts entry.packet s.node.here s.crowding s.settings.proximity
      s.node.countDirect s.dice = draw
    generalize { s with queue, dice := draw.2 } = t
    split
    · rw [Checked.bind_eq (t.checkedCopyOf_eq entry.packet)]
      cases t.copyOf entry.packet <;> rfl
    · rfl

/-! ## The end of a cycle -/

def checkedMaintain (s : Station) : Option (Nat × Nat × Station) := do
  let (node, pruned) ← s.node.advanceCycle.checkedPrune s.settings.patience
  let (queue, expired) ← s.queue.checkedForget s.now s.maxAge
  let (survey, _) ← s.survey.checkedForget s.now s.maxAge
  let node ← node.checkedRefreshCounts
  let survey ← survey.checkedMeasure
  pure (pruned, expired, { s with node, queue, survey })

def checkedDecideRole (s : Station) : Option Station :=
  match s.node.role with
  | .starting => some (s.become .discovering).2
  | .candidate => some s.takeOffice
  | .head => some s
  | role => do
    let mayStand ← s.node.checkedMayStand
    let isEdge ← s.node.checkedIsEdge
    if !s.node.hasHead && mayStand then pure s.stand
    else if role = .discovering ∧ isEdge = true then pure (s.become .edge).2
    else if role = .edge ∧ s.node.hasHead = true then pure (s.become .member).2
    else pure s

def checkedCompleteCycle (s : Station) : Option Station := do
  let (pruned, expired, s) ← s.checkedMaintain
  let s := s.publish s.survey.measures
  let s ← s.checkedDecideRole
  let s := s.trace (.completed s.node.cycle s.node.role s.node.roster.size s.node.countDirect
    s.crowding)
  let s := s.note (.completed s.node.cycle pruned expired)
  pure (s.enter .noisy)

section neighbors
variable {s : Station} (h : s.Roomy)
include h

theorem checkedMaintain_eq (hw : s.survey.window.InBounds) :
    s.checkedMaintain = some s.maintain := by
  have hroster : (s.node.advanceCycle.prune s.settings.patience).1.roster.size ≤
      Roster.capacity := Nat.le_trans (Table.size_filter_le ..) h
  have hwindow : (s.survey.forget s.now s.maxAge).1.window.InBounds := hw
  unfold checkedMaintain
  rw [Checked.bind_eq (Node.checkedPrune_eq ..)]
  dsimp only
  rw [Checked.bind_eq (Relay.Queue.checkedForget_eq ..),
    Checked.bind_eq (Survey.checkedForget_eq ..),
    Checked.bind_eq (Node.checkedRefreshCounts_eq hroster),
    Checked.bind_eq (Survey.checkedMeasure_eq hwindow)]
  rfl

theorem checkedDecideRole_eq : s.checkedDecideRole = some s.decideRole := by
  unfold checkedDecideRole decideRole
  cases s.node.role with
  | starting | candidate | head => rfl
  | discovering | edge | member =>
    dsimp only
    rw [Checked.bind_eq (Node.checkedMayStand_eq h), Checked.bind_eq (Node.checkedIsEdge_eq h)]
    split
    · rfl
    · split
      · rfl
      · split <;> rfl

theorem checkedCompleteCycle_eq (hw : s.survey.window.InBounds) :
    s.checkedCompleteCycle = some s.completeCycle := by
  have hroom : (s.maintain.2.2.publish s.maintain.2.2.survey.measures).Roomy := by
    unfold Roomy
    rw [(publish_keeps _ _).2.2.2]
    exact Nat.le_trans (Table.size_filter_le ..) h
  unfold checkedCompleteCycle
  rw [Checked.bind_eq (checkedMaintain_eq h hw)]
  dsimp only
  rw [Checked.bind_eq (checkedDecideRole_eq hroom)]
  rfl

end neighbors

/-! ## Slots -/

def checkedFinishNoise (s : Station) : Option Station := do
  let survey ← s.survey.checkedEndMeasuring
  let found := survey.lastCrowding
  pure { s with survey, crowding := found, neighborly := s.neighborly.setCrowding found,
                node := { s.node with noise := Relay.noiseOf found } }

def checkedNoisySlot (s : Station) : Option Station := do
  let noisy ← s.noisy.checkedAdvance
  let s := { s with noisy }
  let s := if s.noisy.broadcasting then s.sendBeacon else s
  let phaseSlot ← Checked.below Checked.word (s.phaseSlot + 1)
  let s := { s with phaseSlot }
  if s.settings.plan.noisyCount.toNat ≤ s.phaseSlot then
    let s ← s.checkedFinishNoise
    pure (s.enter .neighbor)
  else pure s

def checkedNeighborSlot (s : Station) : Option Station := do
  let neighborly ← s.neighborly.checkedAdvance
  let s := { s with neighborly }
  let s := if s.neighborly.broadcasting then s.sendBeacon else s
  let phaseSlot ← Checked.below Checked.word (s.phaseSlot + 1)
  let s := { s with phaseSlot }
  if s.settings.plan.neighborCount.toNat ≤ s.phaseSlot then
    let s := s.enter .discovery
    pure { s with cycle := s.cycle.start.2 }
  else pure s

def checkedWork (s : Station) : Option SlotUse → Option Station
  | none => some s
  | some .own => s.checkedSendMessage
  | some .relay => s.checkedRelayNext

def checkedMoveOn (s : Station) : Option Station := do
  let (step, cycle) ← s.cycle.checkedAdvance
  let s := { s with cycle }
  if step.completed.isSome then s.checkedCompleteCycle else pure s

def checkedDiscoverySlot (s : Station) : Option Station := do
  let s := { s with cycle := s.cycle.start.2 }
  let due ← s.cycle.checkedDue
  let s ← s.checkedWork due
  let s ← s.checkedMoveOn
  pure (if s.phase = .discovery then s else { s with cycle := s.cycle.stop })

def checkedTick (s : Station) (now : Instant) : Option Station :=
  if !s.enabled then some s
  else
    let s := { s with now }
    match s.phase with
    | .noisy => s.checkedNoisySlot
    | .neighbor => s.checkedNeighborSlot
    | .discovery => s.checkedDiscoverySlot

theorem checkedFinishNoise_eq {s : Station} (hw : s.survey.window.InBounds) :
    s.checkedFinishNoise = some s.finishNoise := by
  unfold checkedFinishNoise
  rw [Checked.bind_eq (Survey.checkedEndMeasuring_eq hw)]
  rfl

theorem checkedNoisySlot_eq {s : Station} (ha : s.noisy.OnLap)
    (hp : s.phaseSlot < s.settings.plan.noisyCount.toNat) (hw : s.survey.window.InBounds) :
    s.checkedNoisySlot = some s.noisySlot := by
  have hfits : s.phaseSlot + 1 < Checked.word :=
    Nat.lt_of_le_of_lt hp s.settings.plan.noisyCount.toNat_lt
  unfold checkedNoisySlot noisySlot
  rw [Checked.bind_eq ha.checkedAdvance_eq]
  obtain ⟨hs, hv⟩ := sendBeacon_keeps { s with noisy := s.noisy.advance }
    (s.noisy.advance.broadcasting = true)
  dsimp only at hs hv ⊢
  generalize (if s.noisy.advance.broadcasting = true then _ else _ : Station) = t at hs hv ⊢
  rw [Checked.bind_eq (Checked.below_eq (hs ▸ hfits))]
  split
  · have hw' : { t with phaseSlot := t.phaseSlot + 1 }.survey.window.InBounds := hv ▸ hw
    rw [Checked.bind_eq (checkedFinishNoise_eq hw')]
    rfl
  · rfl

theorem checkedNeighborSlot_eq {s : Station} (ha : s.neighborly.OnLap)
    (hp : s.phaseSlot < s.settings.plan.neighborCount.toNat) :
    s.checkedNeighborSlot = some s.neighborSlot := by
  have hfits : s.phaseSlot + 1 < Checked.word :=
    Nat.lt_of_le_of_lt hp s.settings.plan.neighborCount.toNat_lt
  unfold checkedNeighborSlot neighborSlot
  rw [Checked.bind_eq ha.checkedAdvance_eq]
  obtain ⟨hs, -⟩ := sendBeacon_keeps { s with neighborly := s.neighborly.advance }
    (s.neighborly.advance.broadcasting = true)
  dsimp only at hs ⊢
  generalize (if s.neighborly.advance.broadcasting = true then _ else _ : Station) = t at hs ⊢
  rw [Checked.bind_eq (Checked.below_eq (hs ▸ hfits))]
  split <;> rfl

theorem checkedWork_eq {s : Station} (h : s.queue.Tallied) (slotUse : Option SlotUse) :
    s.checkedWork slotUse = some (s.work slotUse) := by
  cases slotUse with
  | none => rfl
  | some slotUse =>
    cases slotUse with
    | own => exact checkedSendMessage_eq s
    | relay => exact checkedRelayNext_eq h

/-- Neither a message nor a relayed packet touches neighbors or window. -/
theorem work_keeps (s : Station) (slotUse : Option SlotUse) :
    (s.work slotUse).node.roster = s.node.roster ∧
      (s.work slotUse).survey.window = s.survey.window := by
  cases slotUse with
  | none => exact ⟨rfl, rfl⟩
  | some slotUse =>
    cases slotUse with
    | own => exact ⟨roster_sendMessage s, window_sendMessage s⟩
    | relay => exact ⟨roster_relayNext s, window_relayNext s⟩

theorem checkedMoveOn_eq {s : Station} (hr : s.Roomy) (hw : s.survey.window.InBounds) :
    s.checkedMoveOn = some
      (if s.cycle.advance.1.completed.isSome then
        { s with cycle := s.cycle.advance.2 }.completeCycle
      else { s with cycle := s.cycle.advance.2 }) := by
  have hc := checkedCompleteCycle_eq (s := { s with cycle := s.cycle.advance.2 }) hr hw
  unfold checkedMoveOn
  rw [Checked.bind_eq (Cycle.checkedAdvance_eq _)]
  dsimp only
  split
  · exact hc
  · rfl

theorem checkedDiscoverySlot_eq {s : Station} (hq : s.queue.Tallied) (hr : s.Roomy)
    (hw : s.survey.window.InBounds) : s.checkedDiscoverySlot = some s.discoverySlot := by
  have hq' : { s with cycle := s.cycle.start.2 }.queue.Tallied := hq
  obtain ⟨hroster, hwindow⟩ := work_keeps { s with cycle := s.cycle.start.2 } s.cycle.start.2.due?
  unfold checkedDiscoverySlot discoverySlot
  dsimp only
  rw [Checked.bind_eq (Cycle.checkedDue_eq _), Checked.bind_eq (checkedWork_eq hq' _)]
  generalize work _ _ = t at hroster hwindow ⊢
  have hroom : t.Roomy := by
    unfold Roomy
    rw [hroster]
    exact hr
  have hbounds : t.survey.window.InBounds := by
    rw [hwindow]
    exact hw
  rw [Checked.bind_eq (checkedMoveOn_eq hroom hbounds)]
  rfl

theorem InBounds.checkedTick_eq {s : Station} (h : s.InBounds) (now : Instant) :
    s.checkedTick now = some (s.tick now) := by
  unfold checkedTick tick
  split
  · rfl
  · cases hp : s.phase with
    | noisy => exact checkedNoisySlot_eq h.noisy (h.inTime.noisy hp) h.window
    | neighbor => exact checkedNeighborSlot_eq h.neighborly (h.inTime.neighbor hp)
    | discovery => exact checkedDiscoverySlot_eq h.queue h.roster h.window

/-! ## Reception -/

def checkedTake (s : Station) (p : Packet) : Option (Reception × Station) := do
  match ← s.queue.checkedEnqueue p s.id s.now with
  | (.ok (), queue) =>
    let s := { s with queue, node := s.node.noteReceived, survey := s.survey.noteReceived }
    pure (.queued, s.trace (.enqueued p.sender p.life p.content.kind))
  | (.error why, queue) =>
    let s := { s with queue }
    pure (.rejected why, (s.trace (.refused p.sender why)).note (.refused p.sender why))

def checkedReceive (s : Station) (p : Packet) (rssi : Int8) (now : Instant) :
    Option (Reception × Station) :=
  if !s.enabled then some (.ignored, s)
  else
    let s := { s with now }
    match s.phase with
    | .noisy =>
      if s.noisy.broadcasting then some (.ignored, s)
      else do
        let survey ← s.survey.checkedSample rssi
        pure (.sampled, { s with survey })
    | .neighbor =>
      if s.neighborly.broadcasting then some (.ignored, s)
      else some (.observed, s.observe p rssi)
    | .discovery => (s.observe p rssi).checkedTake p

def checkedReceiveBytes (s : Station) (bytes : List UInt8) (rssi : Int8) (now : Instant) :
    Option (Except Wire.DecodeError Reception × Station) := do
  match ← Packet.checkedOfBytes bytes with
  | .error e => pure (.error e, s)
  | .ok p =>
    let (r, s) ← s.checkedReceive p rssi now
    pure (.ok r, s)

theorem checkedTake_eq {s : Station} (h : s.queue.Tallied) (p : Packet) :
    s.checkedTake p = some (s.take p) := by
  unfold checkedTake take
  rw [Checked.bind_eq (h.checkedEnqueue_eq p s.id s.now)]
  rcases s.queue.enqueue p s.id s.now with ⟨why | _, queue⟩ <;> rfl

theorem tallied_observe {s : Station} (h : s.queue.Tallied) (p : Packet) (rssi : Int8) :
    (s.observe p rssi).queue.Tallied := by
  have hq : (s.observe p rssi).queue = s.queue :=
    congrArg Traffic.queue (observe_keeps s p rssi).2
  rw [hq]
  exact h

theorem InBounds.checkedReceive_eq {s : Station} (h : s.InBounds) (p : Packet) (rssi : Int8)
    (now : Instant) : s.checkedReceive p rssi now = some (s.receive p rssi now) := by
  unfold checkedReceive receive
  split
  · rfl
  · cases s.phase with
    | noisy =>
      dsimp only
      split
      · rfl
      · rw [Checked.bind_eq (Survey.checkedSample_eq h.window rssi)]
        rfl
    | neighbor =>
      dsimp only
      split <;> rfl
    | discovery =>
      refine checkedTake_eq (tallied_observe ?_ p rssi) p
      exact h.queue

theorem InBounds.checkedReceiveBytes_eq {s : Station} (h : s.InBounds) (bytes : List UInt8)
    (rssi : Int8) (now : Instant) :
    s.checkedReceiveBytes bytes rssi now = some (s.receiveBytes bytes rssi now) := by
  unfold checkedReceiveBytes receiveBytes
  rw [Checked.bind_eq (Packet.checkedOfBytes_eq bytes)]
  cases Packet.ofBytes bytes with
  | error e => rfl
  | ok p =>
    dsimp only
    rw [Checked.bind_eq (h.checkedReceive_eq p rssi now)]
    rfl

/-! ## Runs -/

/-- What a host does besides slots and receptions computes nothing that could fail. -/
def checkedStep (s : Station) : Op → Option Station
  | .tick now => s.checkedTick now
  | .receive p rssi now => (s.checkedReceive p rssi now).map Prod.snd
  | .receiveBytes bytes rssi now => (s.checkedReceiveBytes bytes rssi now).map Prod.snd
  | op => some (s.step op)

def checkedRun (s : Station) (ops : List Op) : Option Station := ops.foldlM checkedStep s

theorem InBounds.checkedStep_eq {s : Station} (h : s.InBounds) (op : Op) :
    s.checkedStep op = some (s.step op) := by
  cases op with
  | tick now => exact h.checkedTick_eq now
  | receive p rssi now => exact congrArg (Option.map Prod.snd) (h.checkedReceive_eq p rssi now)
  | receiveBytes bytes rssi now =>
    exact congrArg (Option.map Prod.snd) (h.checkedReceiveBytes_eq bytes rssi now)
  | _ => rfl

theorem InBounds.checkedRun_eq {s : Station} (hb : s.InBounds) (h : s.clockwork.InStep)
    (hv : s.settings.Valid) (ops : List Op) :
    s.checkedRun ops = some (s.run ops) ∧ (s.run ops).InBounds := by
  induction ops generalizing s with
  | nil => exact ⟨rfl, hb⟩
  | cons op ops ih =>
    have hv' : (s.step op).settings.Valid := by
      rw [settings_step h op]
      exact hv
    unfold checkedRun
    rw [List.foldlM_cons, Checked.bind_eq (hb.checkedStep_eq op)]
    exact ih (hb.step h hv op) (inStep_step h op) hv'

/-- With valid settings and someone to take its packets a station starts, and no operation of a
host can then bring it out of its bounds: the checked run has a result, which is the run itself. -/
theorem run_stays_in_bounds {settings : Settings} {receivers : Receivers}
    (h : settings.check = .ok ()) (hr : receivers.packets = true) :
    ∃ s, Station.start settings receivers = .ok s ∧ ∀ ops, s.checkedRun ops = some (s.run ops) ∧
      (s.run ops).InBounds := by
  have hs : Station.start settings receivers = .ok (fresh settings receivers) := by
    unfold Station.start
    rw [h, hr]
    rfl
  refine ⟨_, hs, fun ops => ?_⟩
  exact (inBounds_start hs).checkedRun_eq (Reachable.start hs).inStep (start_eq hs).1 ops

/-- A station hears broken bytes, a frame that ends too early and a packet, all of it with the
clock running backwards, queues the packet, relays it and begins its second round. -/
theorem run_stays_in_bounds_with_broken_frames :
    let c : Settings := { id := 1, plan := ⟨1, 50, 1, 10⟩ }
    let packet : Packet := { (fresh { id := 7 } {}).beacon with life := 5 }
    let ops : List Op := [.tick ⟨900⟩, .receiveBytes [9, 9] (-128) ⟨800⟩, .tick ⟨700⟩,
      .receiveBytes (packet.encode.take 12) 127 ⟨600⟩, .receive packet (-50) ⟨500⟩, .tick ⟨400⟩,
      .tick ⟨300⟩, .tick ⟨200⟩, .tick ⟨100⟩, .tick ⟨0⟩]
    let s := fresh c {}
    c.check = .ok () ∧ ({} : Receivers).packets = true ∧ Station.start c {} = .ok s ∧
      s.checkedRun ops = some (s.run ops) ∧ (s.run ops).InBounds ∧
      (s.run ops).queue.counts.dequeued = 1 ∧ (s.run ops).phase = .neighbor := by
  intro c packet ops s
  have hc : c.check = .ok () := by decide
  have hr : ({} : Receivers).packets = true := rfl
  obtain ⟨t, ht, hrun⟩ := run_stays_in_bounds hc hr
  have hs : Station.start c {} = .ok s := rfl
  obtain rfl : s = t := Except.ok.inj (hs.symm.trans ht)
  obtain ⟨hchecked, hbounds⟩ := hrun ops
  exact ⟨hc, hr, hs, hchecked, hbounds, by decide +kernel, by decide +kernel⟩

end ClusterMesh.Station
