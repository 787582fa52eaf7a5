import ClusterMesh.Binary64
import ClusterMesh.Identity
import ClusterMesh.Table
import ClusterMesh.Time

/-! Who hears whom, and how loudly. A link joins two nodes in both directions, and two nodes
have at most one. Nodes may have a place in the plane. -/
namespace ClusterMesh.Net

structure Link where
  rssi : Int8 := -60
  loss : Float := 0.0
  delay : Span := ⟨1⟩
  active : Bool := true

def rssiAt (distance : Float) : Int8 := nearestInt8 (-40.0 - distance / 5.0)

def Link.setLoss (l : Link) (loss : Float) : Link := { l with loss := clampUnit loss }

def ends (a b : NodeId) : NodeId × NodeId := if a < b then (a, b) else (b, a)

def opposite? (n : NodeId) (e : NodeId × NodeId) : Option NodeId :=
  if e.1 = n then some e.2 else if e.2 = n then some e.1 else none

structure Topology where
  links : Table (NodeId × NodeId) Link := .empty
  places : Table NodeId (Float × Float) := .empty

namespace Topology

def join (t : Topology) (a b : NodeId) (l : Link) : Topology :=
  { t with links := t.links.insert (ends a b) l }

def link? (t : Topology) (a b : NodeId) : Option Link := t.links.get? (ends a b)

def adjust (t : Topology) (a b : NodeId) (f : Link → Link) : Topology :=
  { t with links := t.links.modify (ends a b) f }

def adjustAll (t : Topology) (f : Link → Link) : Topology :=
  { t with links := t.links.mapValues fun _ => f }

def connected (t : Topology) (a b : NodeId) : Bool :=
  match t.link? a b with
  | some l => l.active
  | none => false

def neighbors (t : Topology) (n : NodeId) : List NodeId :=
  (t.links.entries.filterMap fun e => if e.2.active then opposite? n e.1 else none).mergeSort
    fun a b => a ≤ b

def place? (t : Topology) (n : NodeId) : Option (Float × Float) := t.places.get? n

def place (t : Topology) (n : NodeId) (x y : Float) : Topology :=
  { t with places := t.places.insert n (x, y) }

def groupOf (groups : List (List NodeId)) (n : NodeId) : Option Nat :=
  groups.findIdx? fun g => g.contains n

/-- Cuts the links between different groups. Nodes in no group form one more. -/
def partition (t : Topology) (groups : List (List NodeId)) : Topology :=
  { t with links := t.links.mapValues fun e l =>
      if groupOf groups e.1 = groupOf groups e.2 then l else { l with active := false } }

def heal (t : Topology) : Topology := t.adjustAll fun l => { l with active := true }

def setLoss (t : Topology) (loss : Float) : Topology := t.adjustAll (·.setLoss loss)

def setDelay (t : Topology) (delay : Span) : Topology := t.adjustAll ({ · with delay })

def ofPairs (pairs : List (NodeId × NodeId)) : Topology :=
  pairs.foldl (fun t p => t.join p.1 p.2 {}) {}

def pairs {α : Type} : List α → List (α × α)
  | [] => []
  | a :: as => as.map (a, ·) ++ pairs as

def full (nodes : List NodeId) : Topology := ofPairs (pairs nodes)

def line (nodes : List NodeId) : Topology := ofPairs (nodes.zip nodes.tail)

def star (nodes : List NodeId) : Topology :=
  match nodes with
  | [] => {}
  | hub :: others => ofPairs (others.map (hub, ·))

end Topology
end ClusterMesh.Net
