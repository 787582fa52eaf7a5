import ClusterMesh.Station.Election

/-! What a station does in its slots. Noisy and neighbor slots may broadcast a beacon. The
discovery cycle sends the station's own message in slot zero and relays in the other three;
its end brings maintenance, the measures and the decision on the role. -/
namespace ClusterMesh.Station

/-! ## Own messages -/

def beacon (s : Station) : Packet where
  sender := s.id
  life := s.settings.life
  path := ⟨[s.id], by simp [maxHops]⟩
  position := s.node.here
  fromHead := s.node.role = .head

def ownBallot (s : Station) : Ballot :=
  let ballot : Ballot :=
    { clusterClass := s.node.clusterClass, direct := s.campaign.direct,
      score := .ofFloat s.node.score, hash := s.node.hash }
  ballot.addHop s.campaign.direct 0

def sendOwn (s : Station) (p : Packet) : Station :=
  let s := s.send p
  { s with node := s.node.noteSent }

def sendBeacon (s : Station) : Station := s.sendOwn s.beacon

def renounce (s : Station) : Station :=
  let left := s.campaign.renouncements - 1
  let s := { s with campaign := { s.campaign with renouncements := left } }
  let s := s.trace (.renounced s.node.cycle left)
  s.sendOwn { s.beacon with content := .renouncement {} }

def announce (s : Station) : Station :=
  let left := s.campaign.rounds - 1
  let s := { s with campaign := { s.campaign with rounds := left, lastRound := s.node.cycle } }
  let ballot := s.ownBallot
  let s := { s with node := { s.node with reach := ballot.reach } }
  let s := s.trace (.announced s.node.cycle s.campaign.direct ballot.reach left)
  s.sendOwn { s.beacon with fromHead := true, content := .candidacy ballot }

def sendMessage (s : Station) : Station :=
  if 0 < s.campaign.renouncements then s.renounce
  else if s.node.role = .candidate ∧ 0 < s.campaign.rounds then s.announce
  else s.sendBeacon

/-! ## Relaying -/

/-- The content of the next copy. An announcement counts the neighbors that this hop adds;
those already on the path count as reached. -/
def countHop (s : Station) (p : Packet) : Content :=
  match p.content with
  | .candidacy ballot =>
    let known := (p.path.toList.filter s.node.roster.knowsDirect).length
    .candidacy (ballot.addHop (UInt32.ofNat s.node.countDirect) (UInt32.ofNat known))
  | content => content

def isSaturated : Content → Bool
  | .candidacy ballot => ballot.isSaturated
  | _ => false

def copyOf (s : Station) (p : Packet) : Except DropReason Packet :=
  match p.spendLife? with
  | none => .error .lifeSpent
  | some p =>
    let content := s.countHop p
    if isSaturated content then .error .reachSaturated
    else
      match { p with content }.addToPath? s.id with
      | none => .error .pathFull
      | some p => .ok { p with position := s.node.here.or p.position }

def drop (s : Station) (sender : NodeId) (why : DropReason) : Station :=
  let s := { s with node := s.node.noteDropped }
  (s.trace (.dropped sender why)).note (.dropped sender why)

def relay (s : Station) (p : Packet) : Station :=
  let s := s.send p
  let s := { s with node := s.node.noteRelayed, survey := s.survey.noteRelayed }
  s.trace (.relayed p.sender p.life p.content.kind)

def relayNext (s : Station) : Station :=
  match s.queue.dequeue? with
  | none => s
  | some (entry, queue) =>
    let p := entry.packet
    let (accepted, dice) :=
      Relay.accepts p s.node.here s.crowding s.settings.proximity s.node.countDirect s.dice
    let s := { s with queue, dice }
    if accepted then
      match s.copyOf p with
      | .error why => s.drop p.sender why
      | .ok copy => s.relay copy
    else s.drop p.sender .policy

/-! ## The end of a cycle -/

def maxAge (s : Station) : Span := s.cycle.length.scale s.settings.patience.toUInt64

/-- Counts the cycle, forgets what is too old and takes the measures. Tells how many
neighbors and how many sightings were forgotten. -/
def maintain (s : Station) : Nat × Nat × Station :=
  let (node, pruned) := s.node.advanceCycle.prune s.settings.patience
  let (queue, expired) := s.queue.forget s.now s.maxAge
  let (survey, _) := s.survey.forget s.now s.maxAge
  (pruned, expired, { s with node := node.refreshCounts, queue, survey := survey.measure })

def completeCycle (s : Station) : Station :=
  let (pruned, expired, s) := s.maintain
  let s := s.publish s.survey.measures
  let s := s.decideRole
  let s := s.trace (.completed s.node.cycle s.node.role s.node.roster.size s.node.countDirect
    s.crowding)
  let s := s.note (.completed s.node.cycle pruned expired)
  s.enter .noisy

/-! ## Slots -/

def finishNoise (s : Station) : Station :=
  let survey := s.survey.endMeasuring
  let found := survey.lastCrowding
  { s with survey, crowding := found, neighborly := s.neighborly.setCrowding found,
           node := { s.node with noise := Relay.noiseOf found } }

def noisySlot (s : Station) : Station :=
  let s := { s with noisy := s.noisy.advance }
  let s := if s.noisy.broadcasting then s.sendBeacon else s
  let s := { s with phaseSlot := s.phaseSlot + 1 }
  if s.settings.plan.noisyCount.toNat ≤ s.phaseSlot then s.finishNoise.enter .neighbor else s

def neighborSlot (s : Station) : Station :=
  let s := { s with neighborly := s.neighborly.advance }
  let s := if s.neighborly.broadcasting then s.sendBeacon else s
  let s := { s with phaseSlot := s.phaseSlot + 1 }
  if s.settings.plan.neighborCount.toNat ≤ s.phaseSlot then
    let s := s.enter .discovery
    { s with cycle := s.cycle.start.2 }
  else s

def work (s : Station) : Option SlotUse → Station
  | none => s
  | some .own => s.sendMessage
  | some .relay => s.relayNext

def discoverySlot (s : Station) : Station :=
  let s := { s with cycle := s.cycle.start.2 }
  let s := s.work s.cycle.due?
  let (step, cycle) := s.cycle.advance
  let s := { s with cycle }
  let s := if step.completed.isSome then s.completeCycle else s
  if s.phase = .discovery then s else { s with cycle := s.cycle.stop }

def tick (s : Station) (now : Instant) : Station :=
  if !s.enabled then s
  else
    let s := { s with now }
    match s.phase with
    | .noisy => s.noisySlot
    | .neighbor => s.neighborSlot
    | .discovery => s.discoverySlot

def slotSpan (s : Station) : Span :=
  .ofWord <|
    match s.phase with
    | .noisy => s.settings.plan.noisyMs
    | .neighbor => s.settings.plan.neighborMs
    | .discovery => s.settings.slotMs

end ClusterMesh.Station
