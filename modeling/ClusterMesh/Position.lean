import ClusterMesh.Binary64

/-! Positions in space, in metres. -/
namespace ClusterMesh

structure Position where
  x : Binary64
  y : Binary64
  z : Binary64
  deriving DecidableEq, Inhabited, Repr

namespace Position

def ofFloats (x y z : Float) : Position := ⟨.ofFloat x, .ofFloat y, .ofFloat z⟩

def origin : Position := ⟨.zero, .zero, .zero⟩

def distance (a b : Position) : Float :=
  let dx := a.x.toFloat - b.x.toFloat
  let dy := a.y.toFloat - b.y.toFloat
  let dz := a.z.toFloat - b.z.toFloat
  (dx * dx + dy * dy + dz * dz).sqrt

def isOrigin (p : Position) : Bool :=
  p.x.toFloat == 0.0 && p.y.toFloat == 0.0 && p.z.toFloat == 0.0

def fullSpread : Float := 100.0

/-- How far positions are spread, within `[0, 1]`: their standard deviation from the center, on a
scale that ends at one. Fewer than two are not spread at all. The sums follow the list, and their
last bits depend on its order. -/
def spread (known : List Position) : Float :=
  if known.length < 2 then 0.0
  else
    let n := Float.ofNat known.length
    let mean (coordinate : Position → Binary64) : Float :=
      known.foldl (fun sum p => sum + (coordinate p).toFloat) 0.0 / n
    let center := ofFloats (mean (·.x)) (mean (·.y)) (mean (·.z))
    let squares := known.foldl (fun sum p =>
      let d := p.distance center
      sum + d * d) 0.0
    let deviation := (squares / n).sqrt / fullSpread
    if deviation < 1.0 then deviation else 1.0

abbrev Order := List Position → List Position

end Position
end ClusterMesh
