/-! The three phases of a round. -/
namespace ClusterMesh

inductive Phase
  | noisy
  | neighbor
  | discovery
  deriving DecidableEq, Inhabited, Repr

namespace Phase

def label : Phase → String
  | noisy => "NOISY"
  | neighbor => "NEIGHBOR"
  | discovery => "DISCOVERY"

end Phase
end ClusterMesh
