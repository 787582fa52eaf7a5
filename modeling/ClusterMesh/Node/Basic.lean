import ClusterMesh.Fault
import ClusterMesh.Node.Roster
import ClusterMesh.Packet

/-! What a node knows of itself: its role, its position, its neighbors, the head it follows
and its counts. A node sends nothing. -/
namespace ClusterMesh

structure NodeCounts where
  sent : UInt32 := 0
  received : UInt32 := 0
  relayed : UInt32 := 0
  dropped : UInt32 := 0
  cycles : UInt32 := 0
  meanRssi : Int8 := 0
  direct : UInt16 := 0
  deriving DecidableEq, Inhabited, Repr

structure Node where
  id : NodeId
  role : Role := .starting
  previousRole : Role := .starting
  roleSince : UInt32 := 0
  position : Option Position := none
  positionSince : UInt32 := 0
  /-- Cycles for which a position holds. Zero means for ever. -/
  positionLife : UInt32 := 0
  roster : Roster := .empty
  head : NodeId := nobody
  clusterClass : UInt16 := 0
  reach : UInt32 := 0
  score : Float := 0.0
  noise : Float := 0.0
  candidateHeard : UInt32 := 0
  cycle : UInt32 := 0
  counts : NodeCounts := {}

namespace Node

def fresh (id : NodeId) : Node := { id }

def reset (n : Node) : Node := fresh n.id

def hash (n : Node) : UInt32 := slotHash n.id

def become (n : Node) (next : Role) : Except Fault Node :=
  if n.role.mayBecome next then
    .ok { n with previousRole := n.role, role := next, roleSince := n.cycle }
  else .error (.badTransition n.role next)

def advanceCycle (n : Node) : Node :=
  { n with cycle := n.cycle.succSat,
           counts := { n.counts with cycles := n.counts.cycles.succSat } }

/-! ## Position -/

def locate (n : Node) (p : Position) : Node :=
  { n with position := some p, positionSince := n.cycle }

def forgetPosition (n : Node) : Node := { n with position := none }

def positionAge (n : Node) : UInt32 := n.cycle.subSat n.positionSince

def positionHolds (n : Node) : Bool :=
  n.position.isSome && (n.positionLife = 0 || n.positionAge < n.positionLife)

def here (n : Node) : Option Position := if n.positionHolds then n.position else none

def expirePosition (n : Node) : Node :=
  if n.positionLife = 0 then n
  else { n with position := none, positionSince := n.cycle.subSat n.positionLife }

/-! ## Neighbors -/

def hear? (n : Node) (id : NodeId) (rssi : Int8) (hops : UInt8) : Option Node :=
  (n.roster.hear? id rssi hops n.cycle).map fun roster => { n with roster }

def locateNeighbor (n : Node) (id : NodeId) (p : Position) : Node :=
  { n with roster := n.roster.modify id fun m => { m with position := some p } }

def markHead (n : Node) (id : NodeId) (headClass : UInt16) : Node :=
  { n with roster := n.roster.modify id fun m => { m with isHead := true, headClass } }

def countDirect (n : Node) : Nat := n.roster.countDirect

def prune (n : Node) (patience : UInt32) : Node × Nat :=
  let (roster, gone) := n.roster.prune n.cycle patience
  ({ n with roster }, gone)

/-! ## Head -/

def hasHead (n : Node) : Bool := n.head ≠ nobody

def follow (n : Node) (head : NodeId) (clusterClass : UInt16) : Node :=
  { n with head, clusterClass }

def leave (n : Node) : Node := { n with head := nobody, clusterClass := 0 }

/-! ## Counts -/

def refreshCounts (n : Node) : Node :=
  { n with counts := { n.counts with
      meanRssi := n.roster.meanRssi
      direct := UInt16.ofNat n.countDirect } }

def noteSent (n : Node) : Node :=
  { n with counts := { n.counts with sent := n.counts.sent.succSat } }

def noteReceived (n : Node) : Node :=
  { n with counts := { n.counts with received := n.counts.received.succSat } }

def noteRelayed (n : Node) : Node :=
  { n with counts := { n.counts with relayed := n.counts.relayed.succSat } }

def noteDropped (n : Node) : Node :=
  { n with counts := { n.counts with dropped := n.counts.dropped.succSat } }

end Node
end ClusterMesh
