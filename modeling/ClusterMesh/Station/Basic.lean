import ClusterMesh.Airtime
import ClusterMesh.Cycle
import ClusterMesh.Node.Standing
import ClusterMesh.Relay.Queue
import ClusterMesh.Settings
import ClusterMesh.Station.Outbox

/-! A station: one node with its radio protocol. It is a value that its host moves on from
slot to slot and hands the packets that were heard; all that it wants to say outside waits
in its outbox. -/
namespace ClusterMesh

structure Campaign where
  rounds : Nat := 0
  renouncements : Nat := 0
  lastRound : UInt32 := 0
  direct : UInt32 := 0
  deriving DecidableEq, Inhabited, Repr

structure Choice where
  hops : UInt8 := 0
  direct : UInt32 := 0
  deriving DecidableEq, Inhabited, Repr

structure Station where
  settings : Settings
  receivers : Receivers
  enabled : Bool
  now : Instant
  node : Node
  queue : Relay.Queue
  survey : Survey
  noisy : Airtime
  neighborly : Airtime
  dice : Xorshift32
  phase : Phase
  phaseSlot : Nat
  cycle : Cycle SlotUse Unit
  crowding : Float
  campaign : Campaign
  choice : Choice
  outbox : Outbox

namespace Station

def electionRounds : Nat := 3

def nodeSeed (seed : UInt32) (id : NodeId) : UInt32 := seed ^^^ (id * 0x85ebca6b)

def neighborMix : UInt32 := 0x9e3779b9

def noisyAirtime (c : Settings) : Airtime :=
  (Airtime.noisy c.plan.noisyMs).reseed (nodeSeed c.timingSeed c.id)

def neighborAirtime (c : Settings) : Airtime :=
  (Airtime.stochastic c.plan.neighborMs).reseed (nodeSeed c.timingSeed c.id ^^^ neighborMix)

def relayDice (c : Settings) : Xorshift32 := .ofSeed (nodeSeed c.relaySeed c.id)

def fresh (settings : Settings) (receivers : Receivers) : Station where
  settings
  receivers
  enabled := true
  now := .zero
  node := .fresh settings.id
  queue := .empty
  survey := Survey.beginMeasuring {}
  noisy := noisyAirtime settings
  neighborly := neighborAirtime settings
  dice := relayDice settings
  phase := .noisy
  phaseSlot := 0
  cycle := .atRest (.ofWord settings.slotMs)
    #v[some .own, some .relay, some .relay, some .relay] (some ())
  crowding := 0.0
  campaign := {}
  choice := {}
  outbox := {}

def start (settings : Settings) (receivers : Receivers) : Except SettingsError Station :=
  match settings.check with
  | .error e => .error e
  | .ok () => if receivers.packets then .ok (fresh settings receivers) else .error .noSender

/-- The station as if it had just been started. Settings, receivers, the clock, whether it
is enabled, what waits in the outbox and the counts of the queue stay. -/
def reset (s : Station) : Station :=
  { s with
    node := s.node.reset
    queue := s.queue.clear
    survey := s.survey.reset.beginMeasuring
    noisy := noisyAirtime s.settings
    neighborly := neighborAirtime s.settings
    dice := relayDice s.settings
    phase := .noisy
    phaseSlot := 0
    cycle := s.cycle.stop.resetCount
    crowding := 0.0
    campaign := {}
    choice := {} }

def id (s : Station) : NodeId := s.node.id

/-! ## Output -/

def send (s : Station) (p : Packet) : Station :=
  { s with outbox := { s.outbox with packets := s.outbox.packets.push p } }

def trace (s : Station) (t : Trace) : Station :=
  { s with outbox := { s.outbox with traces := (s.outbox.traces.push? t).getD s.outbox.traces } }

def note (s : Station) (n : Notice) : Station :=
  if s.receivers.notices then
    { s with outbox := { s.outbox with notices := s.outbox.notices.push n } }
  else s

def publish (s : Station) (m : Connectivity) : Station :=
  if s.receivers.measures then
    { s with outbox := { s.outbox with measures := s.outbox.measures.push m } }
  else s

/-! ## Changes of phase and role -/

def enter (s : Station) (phase : Phase) : Station :=
  let old := s.phase
  let s := { s with phase, phaseSlot := 0 }
  let s := if phase = .noisy then { s with survey := s.survey.beginMeasuring } else s
  (s.trace (.phaseChanged s.now old phase)).note (.phaseChanged old phase)

def become (s : Station) (next : Role) : Bool × Station :=
  match s.node.become next with
  | .error f => (false, s.note (.fault f))
  | .ok node =>
    let old := s.node.role
    let s := { s with node }
    if old = next then (true, s)
    else
      (true, (s.trace (.roleChanged node.cycle old next)).note (.roleChanged node.id old next))

end Station
end ClusterMesh
