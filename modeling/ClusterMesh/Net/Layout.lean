import ClusterMesh.Net.Forest
import ClusterMesh.Net.Topology

/-! Nodes scattered over a square field. Those in radio range of each other are linked, and
the shortest missing links join what would otherwise stay apart. -/
namespace ClusterMesh.Net

def scatterStep (s : UInt64) : UInt64 := s * 1103515245 + 12345

def scatterUnit (s : UInt64) : Float := ((s >>> 16) &&& 0x7fff).toFloat / 32767.0

def scatter (side : Float) : Nat → UInt64 → List (Float × Float)
  | 0, _ => []
  | count + 1, s =>
    let x := scatterStep s
    let y := scatterStep x
    (scatterUnit x * side, scatterUnit y * side) :: scatter side count y

def planeDistance (a b : Float × Float) : Float :=
  let dx := a.1 - b.1
  let dy := a.2 - b.2
  (dx * dx + dy * dy).sqrt

structure Edge (n : Nat) where
  a : Fin n
  b : Fin n
  length : Float

namespace Edge
variable {n : Nat}

def link (e : Edge n) : Link := { rssi := rssiAt e.length }

/-- Neither longer, nor beyond comparison. -/
def notLonger (e d : Edge n) : Bool := !(d.length < e.length)

end Edge

def allEdges {n : Nat} (places : Vector (Float × Float) n) : List (Edge n) :=
  (Topology.pairs (List.finRange n)).map fun p =>
    ⟨p.1, p.2, planeDistance places[p.1] places[p.2]⟩

structure Patchwork (n : Nat) where
  nodes : Vector NodeId n
  topology : Topology
  forest : Forest n
  parts : Nat

namespace Patchwork
variable {n : Nat}

def isLinked (p : Patchwork n) (e : Edge n) : Bool :=
  p.topology.connected p.nodes[e.a] p.nodes[e.b]

def unite (p : Patchwork n) (e : Edge n) : Bool × Patchwork n :=
  let (apart, forest) := p.forest.union e.a e.b
  (apart, { p with forest, parts := if apart then p.parts - 1 else p.parts })

def survey (p : Patchwork n) (e : Edge n) : Patchwork n :=
  if p.isLinked e then (p.unite e).2 else p

def mend (p : Patchwork n) (e : Edge n) : Patchwork n :=
  match p.unite e with
  | (true, p) => { p with topology := p.topology.join p.nodes[e.a] p.nodes[e.b] e.link }
  | (false, p) => p

def mendAll (p : Patchwork n) : List (Edge n) → Patchwork n
  | [] => p
  | e :: es =>
    if p.parts = 1 then p
    else if p.isLinked e then mendAll p es
    else mendAll (p.mend e) es

end Patchwork

namespace Topology

/-- Adds the shortest missing links until every node can reach every other. -/
def patch {n : Nat} (t : Topology) (nodes : Vector NodeId n) (edges : List (Edge n)) : Topology :=
  let edges := edges.mergeSort Edge.notLonger
  let start : Patchwork n := ⟨nodes, t, .singletons n, n⟩
  ((edges.foldl Patchwork.survey start).mendAll edges).topology

def scattered (nodes : List NodeId) (seed : UInt64) (side range : Float) : Topology :=
  let places := scatter side nodes.length seed
  let placed := (nodes.zip places).foldl (fun t p => t.place p.1 p.2.1 p.2.2) ({} : Topology)
  let named : Vector NodeId nodes.length := ⟨nodes.toArray, by simp⟩
  let edges := allEdges (Vector.ofFn fun i : Fin nodes.length => places.getD i (0.0, 0.0))
  let inRange := edges.foldl (fun t e =>
    if e.length ≤ range then t.join named[e.a] named[e.b] e.link else t) placed
  if nodes.length ≤ 1 then placed else inRange.patch named edges

end Topology
end ClusterMesh.Net
