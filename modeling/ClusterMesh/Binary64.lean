/-! Floating-point values as they travel in frames, and how they are rounded. -/
namespace ClusterMesh

/-- A double as its bits, so that a copy keeps them all, also those of a NaN. -/
structure Binary64 where
  bits : UInt64
  deriving DecidableEq, Inhabited, Repr

namespace Binary64

def ofFloat (x : Float) : Binary64 := ⟨x.toBits⟩
def toFloat (b : Binary64) : Float := Float.ofBits b.bits
def zero : Binary64 := ⟨0⟩

end Binary64

def clampUnit (x : Float) : Float :=
  let y := if x < 0.0 then 0.0 else x
  if 1.0 < y then 1.0 else y

def nearestInt8 (x : Float) : Int8 :=
  if 127.0 ≤ x then 127
  else if x ≤ -128.0 then -128
  else
    let size := if x < 0.0 then -x else x
    let whole := size.toUInt8.toNat
    let n : Int := if 0.5 ≤ size - Float.ofNat whole then whole + 1 else whole
    Int8.ofInt (if x < 0.0 then -n else n)

end ClusterMesh
