/-! The parts a node can play in its cluster, and which may follow which. -/
namespace ClusterMesh

inductive Role
  | starting
  | discovering
  | edge
  | candidate
  | head
  | member
  deriving DecidableEq, Inhabited, Repr

namespace Role

def all : List Role := [starting, discovering, edge, candidate, head, member]

def label : Role → String
  | starting => "INIT"
  | discovering => "DISCOVERY"
  | edge => "EDGE"
  | candidate => "CANDIDATE"
  | head => "CLUSTERHEAD"
  | member => "MEMBER"

def successors : Role → List Role
  | starting => [discovering]
  | discovering => [edge, candidate]
  | edge => [candidate, member]
  | candidate => [head, member, edge]
  | head => [candidate]
  | member => [candidate, edge]

def mayBecome (r next : Role) : Bool := r = next || r.successors.contains next

end Role
end ClusterMesh
