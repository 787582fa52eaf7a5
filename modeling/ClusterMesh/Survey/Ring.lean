/-! A ring of fixed size that holds the latest values put into it. -/
namespace ClusterMesh

structure Ring (α : Type) (cap : Nat) where
  cells : Vector α cap
  first : Nat
  size : Nat

namespace Ring
variable {α : Type} {cap : Nat}

def blank (a : α) : Ring α cap := ⟨Vector.replicate cap a, 0, 0⟩

/-- The ring holding nothing. Its cells keep what was put into them. -/
def clear (r : Ring α cap) : Ring α cap := { r with first := 0, size := 0 }

def isEmpty (r : Ring α cap) : Bool := r.size = 0

def push (r : Ring α cap) (a : α) : Ring α cap :=
  let cells := r.cells.setIfInBounds ((r.first + r.size) % cap) a
  if r.size < cap then { r with cells, size := r.size + 1 }
  else { r with cells, first := (r.first + 1) % cap }

def held (r : Ring α cap) : List α := r.cells.toList.take r.size

def inOrder (r : Ring α cap) : List α := r.held.drop r.first ++ r.held.take r.first

end Ring
end ClusterMesh
