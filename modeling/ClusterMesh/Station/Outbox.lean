import ClusterMesh.Fault
import ClusterMesh.Packet
import ClusterMesh.Station.Phase
import ClusterMesh.Survey.Basic
import ClusterMesh.Wire.Frame

/-! What a station hands to its host: packets to transmit, traces of what it did, notices
for a log, and the measures of each cycle. They wait in an outbox until the host takes
them. -/
namespace ClusterMesh

inductive DropReason
  | policy
  | lifeSpent
  | reachSaturated
  | pathFull
  deriving DecidableEq, Inhabited, Repr

def DropReason.label : DropReason → String
  | policy => "Policy"
  | lifeSpent => "TtlExhausted"
  | reachSaturated => "PdsfSaturated"
  | pathFull => "PathFull"

inductive Trace
  | phaseChanged (time : Instant) (old new : Phase)
  | roleChanged (cycle : UInt32) (old new : Role)
  | enqueued (sender : NodeId) (life kind : UInt8)
  | refused (sender : NodeId) (why : Refusal)
  | relayed (sender : NodeId) (life kind : UInt8)
  | dropped (sender : NodeId) (why : DropReason)
  | announced (cycle direct reach : UInt32) (left : Nat)
  | lost (winner : NodeId) (own theirs : UInt32)
  | followed (head : NodeId) (hops : UInt8) (direct : UInt32)
  | renounced (cycle : UInt32) (left : Nat)
  | completed (cycle : UInt32) (role : Role) (neighbors direct : Nat) (crowding : Float)

inductive Level
  | debug
  | info
  | warn
  | error
  deriving DecidableEq, Inhabited, Repr

namespace Level

def all : List Level := [debug, info, warn, error]

def label : Level → String
  | debug => "DEBUG"
  | info => "INFO"
  | warn => "WARN"
  | error => "ERROR"

def weight : Level → Nat
  | debug => 0
  | info => 1
  | warn => 2
  | error => 3

end Level

inductive Notice
  | phaseChanged (old new : Phase)
  | roleChanged (id : NodeId) (old new : Role)
  | fault (f : Fault)
  | rosterFull (id : NodeId)
  | refused (sender : NodeId) (why : Refusal)
  | dropped (sender : NodeId) (why : DropReason)
  | lost (id winner : NodeId) (own theirs : UInt32)
  | followed (id head : NodeId) (hops : UInt8)
  | headRenounced (head : NodeId)
  | completed (cycle : UInt32) (pruned expired : Nat)
  | undecodable (length : Nat) (why : Wire.DecodeError)
  deriving DecidableEq

namespace Notice

def level : Notice → Level
  | phaseChanged .. => .debug
  | roleChanged .. => .info
  | fault _ => .debug
  | rosterFull _ => .warn
  | refused .. => .debug
  | dropped .. => .debug
  | lost .. => .info
  | followed .. => .info
  | headRenounced _ => .info
  | completed .. => .debug
  | undecodable .. => .warn

def text : Notice → String
  | phaseChanged old new => s!"phase {old.label} -> {new.label}"
  | roleChanged id old new => s!"node {id}: {old.label} -> {new.label}"
  | fault f => f.message
  | rosterFull id => s!"neighbor table full, ignoring {id}"
  | refused sender why => s!"queue rejected packet from {sender}: {why.message}"
  | dropped sender why => s!"dropped packet from {sender}: {why.label}"
  | lost id winner own theirs => s!"node {id} lost election to {winner} ({own} vs {theirs} direct)"
  | followed id head hops => s!"node {id} selected clusterhead {head} ({hops} hops)"
  | headRenounced head => s!"clusterhead {head} renounced"
  | completed cycle pruned expired =>
    s!"cycle {cycle} complete: pruned {pruned} neighbors, expired {expired} seen"
  | undecodable length why => s!"dropping undecodable frame ({length} bytes): {why.message}"

end Notice

def traceCapacity : Nat := 64

structure Outbox where
  packets : Array Packet := #[]
  traces : Bounded Trace traceCapacity := .empty
  notices : Array Notice := #[]
  measures : Array Connectivity := #[]

/-- The outputs for which the host has a receiver. Without one for packets no station
starts; the others may be missing, and then nothing is kept for them. -/
structure Receivers where
  packets : Bool := true
  notices : Bool := true
  measures : Bool := true
  deriving DecidableEq, Repr

end ClusterMesh
