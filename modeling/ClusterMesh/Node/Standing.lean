import ClusterMesh.Node.Basic

/-! How well a node is connected, and whether that makes it an edge or a candidate. -/
namespace ClusterMesh.Node

def coreNeighbors : Nat := 3

def candidateNeighbors : Nat := 5

def weakSignal : Int8 := -85

def isEdge (n : Node) : Bool :=
  n.countDirect < coreNeighbors || n.roster.meanRssi < weakSignal

def quietCycles (n : Node) : UInt32 := n.cycle.subSat n.candidateHeard

/-- The bar for standing: six right after another candidate was heard, three in the next
cycle, one from then on. -/
def bar (n : Node) : UInt32 :=
  if n.quietCycles = 0 then 6 else if n.quietCycles = 1 then 3 else 1

def meetsBaseline (n : Node) : Bool :=
  candidateNeighbors ≤ n.countDirect && !n.roster.isFull Roster.capacity &&
    weakSignal ≤ n.roster.meanRssi

def mayStand (n : Node) : Bool :=
  let cluster := fullCluster.toFloat
  let share := Float.ofNat n.countDirect / cluster / (1.0 + n.noise)
  let bar := n.bar.toFloat
  n.meetsBaseline && bar * bar / (0.5 * cluster) ≤ share

def scoreAt (n : Node) (noise : Float) : Float :=
  candidacyScore (UInt32.ofNat n.countDirect) noise

def noteCandidate (n : Node) : Node := { n with candidateHeard := n.cycle }

end ClusterMesh.Node
