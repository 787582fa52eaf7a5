import ClusterMesh.Role

/-! Why an operation of the protocol is refused. None of these stops a node: they are
counted, reported and left behind. -/
namespace ClusterMesh

inductive Refusal
  | loop
  /-- A packet of this sender with this remaining life was taken before. -/
  | duplicate
  | overflow
  deriving DecidableEq, Inhabited, Repr

inductive Fault
  | badTransition (now next : Role)
  | refused (why : Refusal)
  | lifeSpent
  | full
  deriving DecidableEq, Inhabited, Repr

def Refusal.message : Refusal → String
  | loop => "loop detected"
  | duplicate => "duplicate message"
  | overflow => "forwarding queue full"

def Fault.message : Fault → String
  | badTransition now next => "invalid state transition " ++ now.label ++ " -> " ++ next.label
  | refused why => why.message
  | lifeSpent => "ttl exhausted"
  | full => "capacity exceeded"

end ClusterMesh
