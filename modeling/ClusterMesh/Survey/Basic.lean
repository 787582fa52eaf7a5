import ClusterMesh.Relay.Policy
import ClusterMesh.Survey.Ring
import ClusterMesh.Table
import ClusterMesh.Time

/-! A node's view of its neighborhood for elections: who was heard from where and how
loudly, how crowded the air is, and the measures of connectivity that come out of both. -/
namespace ClusterMesh

structure Heard where
  position : Position
  rssi : Int8
  messages : UInt32
  lastSeen : Instant
  isDirect : Bool
  deriving DecidableEq, Inhabited

structure Connectivity where
  direct : UInt32 := 0
  total : UInt32 := 0
  crowding : Float := 0.0
  signalRatio : Float := 0.0
  places : List Position := []
  relayRate : Float := 0.0
  relayed : UInt32 := 0
  received : UInt32 := 0

def Connectivity.spread (m : Connectivity) (order : Position.Order := id) : Float :=
  Position.spread (order m.places)

structure Thresholds where
  neighbors : UInt32 := 10
  signalRatio : Float := 5.0
  spread : Float := 0.3

structure Survey where
  heard : Table NodeId Heard := .empty
  directSignal : Int8 := -85
  window : Ring Int8 100 := .blank 0
  measuring : Bool := false
  lastCrowding : Float := 0.0
  measures : Connectivity := {}
  thresholds : Thresholds := {}

namespace Survey

def capacity : Nat := 150

/-- Notes a message. Without a position the last known one stays, and a new node is ignored
when there is no room. -/
def note (s : Survey) (id : NodeId) (position : Option Position) (rssi : Int8) (now : Instant) :
    Survey :=
  let isDirect : Bool := s.directSignal ≤ rssi
  match s.heard.get? id with
  | some h =>
    let h := ⟨position.getD h.position, rssi, h.messages.succSat, now, isDirect⟩
    { s with heard := s.heard.insert id h }
  | none =>
    if s.heard.isFull capacity then s
    else { s with heard := s.heard.insert id ⟨position.getD .origin, rssi, 1, now, isDirect⟩ }

def countDirect (s : Survey) : UInt32 :=
  UInt32.ofNat (s.heard.values.filter (·.isDirect)).length

def forget (s : Survey) (now : Instant) (maxAge : Span) : Survey × Nat :=
  let (heard, gone) := s.heard.retain fun _ h => now.since h.lastSeen ≤ maxAge
  ({ s with heard }, gone)

/-! ## Crowding -/

def beginMeasuring (s : Survey) : Survey := { s with window := s.window.clear, measuring := true }

def sample (s : Survey) (rssi : Int8) : Survey :=
  if s.measuring then { s with window := s.window.push rssi } else s

def crowding (s : Survey) : Float :=
  if s.window.isEmpty then s.lastCrowding else Relay.crowdingOf s.window.held

def endMeasuring (s : Survey) : Survey :=
  let found := s.crowding
  { s with lastCrowding := found, measures := { s.measures with crowding := found },
           measuring := false, window := s.window.clear }

/-! ## Measures -/

def places (s : Survey) : List Position :=
  (s.heard.values.map (·.position)).filter fun p => !p.isOrigin

def spread (s : Survey) (order : Position.Order := id) : Float := Position.spread (order s.places)

def measure (s : Survey) : Survey :=
  let direct := s.countDirect
  let crowding := s.crowding
  { s with measures := { s.measures with
      direct
      total := UInt32.ofNat s.heard.size
      crowding
      signalRatio := direct.toFloat / (1.0 + crowding)
      places := s.places
      relayRate :=
        if 0 < s.measures.received then s.measures.relayed.toFloat / s.measures.received.toFloat
        else 0.0 } }

def noteRelayed (s : Survey) : Survey :=
  { s with measures := { s.measures with relayed := s.measures.relayed.succSat } }

def noteReceived (s : Survey) : Survey :=
  { s with measures := { s.measures with received := s.measures.received.succSat } }

/-- The measures last taken meet the thresholds. Nothing is decided by it. -/
def meetsThresholds (s : Survey) (order : Position.Order := id) : Bool :=
  s.thresholds.neighbors ≤ s.measures.direct &&
    s.thresholds.signalRatio ≤ s.measures.signalRatio &&
    s.thresholds.spread ≤ s.measures.spread order

def reset (s : Survey) : Survey :=
  { s with heard := .empty, window := s.window.clear, measuring := false, lastCrowding := 0.0,
           measures := {} }

end Survey
end ClusterMesh
