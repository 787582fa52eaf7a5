import ClusterMesh.Identity
import ClusterMesh.Position
import ClusterMesh.Table
import ClusterMesh.Word

/-! The neighbors that a node knows, in the order in which it came to know them. -/
namespace ClusterMesh

structure Neighbor where
  rssi : Int8
  /-- One for a neighbor that was heard itself. -/
  hops : UInt8
  lastSeen : UInt32
  isHead : Bool := false
  headClass : UInt16 := 0
  position : Option Position := none
  deriving DecidableEq, Inhabited

def Neighbor.isDirect (n : Neighbor) : Bool := n.hops = 1

abbrev Roster := Table NodeId Neighbor

namespace Roster

def capacity : Nat := 150

def hear? (r : Roster) (id : NodeId) (rssi : Int8) (hops : UInt8) (cycle : UInt32) :
    Option Roster :=
  match r.get? id with
  | some n => some (r.insert id { n with rssi, hops, lastSeen := cycle })
  | none =>
    if r.isFull capacity then none
    else some (r.insert id { rssi, hops, lastSeen := cycle })

def knowsDirect (r : Roster) (id : NodeId) : Bool :=
  match r.get? id with
  | some n => n.isDirect
  | none => false

def countDirect (r : Roster) : Nat := (r.values.filter Neighbor.isDirect).length

/-- The mean signal strength with its fraction cut off, zero where nobody is known. -/
def meanRssi (r : Roster) : Int8 :=
  if r.size = 0 then 0
  else
    let total := r.values.foldl (fun total n => total + n.rssi.toInt) 0
    Int8.ofInt (total.tdiv r.size)

def prune (r : Roster) (cycle patience : UInt32) : Roster × Nat :=
  r.retain fun _ n => cycle.subSat n.lastSeen ≤ patience

theorem countDirect_le_size (r : Roster) : r.countDirect ≤ r.size := by
  have hle := List.length_filter_le Neighbor.isDirect r.values
  rwa [Table.values, List.length_map] at hle

theorem size_of_hear? {r r' : Roster} {id : NodeId} {rssi : Int8} {hops : UInt8} {cycle : UInt32}
    (h : r.hear? id rssi hops cycle = some r') (hr : r.size ≤ capacity) : r'.size ≤ capacity := by
  unfold hear? at h
  split at h
  · next n hn =>
    cases h
    rw [Table.size_insert, if_pos (by simp [hn])]
    exact hr
  · next hn =>
    split at h
    · cases h
    · next hfull =>
      cases h
      have hroom : r.size < capacity := by simpa [Table.isFull] using hfull
      rw [Table.size_insert, if_neg (by simp [hn])]
      exact hroom

end Roster
end ClusterMesh
