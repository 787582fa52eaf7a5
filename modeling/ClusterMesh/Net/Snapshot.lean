import ClusterMesh.Node.Basic
import ClusterMesh.Time

/-! The state of an election in a whole network at one moment, and what many of them show. -/
namespace ClusterMesh.Net

structure Record where
  role : Role
  head : Option NodeId
  direct : Nat
  candidateHeard : UInt32
  counts : NodeCounts
  deriving DecidableEq, Inhabited

structure Snapshot where
  time : Instant
  records : Table NodeId Record := .empty

namespace Snapshot

def record (s : Snapshot) (id : NodeId) (r : Record) : Snapshot :=
  { s with records := s.records.insert id r }

def byName (s : Snapshot) : List (NodeId × Record) :=
  s.records.entries.mergeSort fun a b => a.1 ≤ b.1

def withRole (s : Snapshot) (role : Role) : List NodeId :=
  (s.byName.filter fun e => e.2.role = role).map Prod.fst

def heads (s : Snapshot) : List NodeId := s.withRole .head

def hasValidHead (s : Snapshot) (id : NodeId) : Bool :=
  match (s.records.get? id).bind Record.head with
  | some head => s.records.contains head
  | none => false

def clusteredCount (s : Snapshot) : Nat :=
  (s.records.entries.filter fun e => e.2.role = .head || s.hasValidHead e.1).length

def membersValid (s : Snapshot) : Bool := (s.withRole .member).all s.hasValidHead

/-- There is a head, and everyone is one or has one. -/
def isClustered (s : Snapshot) : Bool :=
  !s.heads.isEmpty && s.clusteredCount = s.records.size

end Snapshot

structure History where
  sent : UInt64 := 0
  lost : UInt64 := 0
  delivered : UInt64 := 0
  undecodable : UInt64 := 0
  snapshots : Array Snapshot := #[]

namespace History

def clusteringTime? (h : History) : Option Instant :=
  (h.snapshots.find? Snapshot.isClustered).map Snapshot.time

def latest? (h : History) : Option Snapshot := h.snapshots.back?

end History

structure Outcome where
  time : Instant
  exhausted : Bool
  history : History

namespace Outcome

def heads (o : Outcome) : List NodeId := (o.history.latest?.map Snapshot.heads).getD []

def isClustered (o : Outcome) : Bool := (o.history.latest?.map Snapshot.isClustered).getD false

end Outcome
end ClusterMesh.Net
