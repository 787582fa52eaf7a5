/-! Sources of pseudo-random draws. Every node owns its generators, so a run is a function
of their seeds. -/
namespace ClusterMesh

class Generator (γ : Type) where
  next : γ → UInt32 × γ
  nextUnit : γ → Float × γ := fun g =>
    let (w, g) := next g
    (w.toFloat / (0xffffffff : UInt32).toFloat, g)
  reseed : UInt32 → γ → γ

def draws {α γ : Type} (next : γ → α × γ) : Nat → γ → List α × γ
  | 0, g => ([], g)
  | n + 1, g =>
    let (x, g) := next g
    let (xs, g) := draws next n g
    (x :: xs, g)

structure Lcg32 where
  state : UInt32
  deriving DecidableEq, Repr

namespace Lcg32

def defaultSeed : UInt32 := 12345

def step (s : UInt32) : UInt32 := 1664525 * s + 1013904223

instance : Inhabited Lcg32 := ⟨⟨defaultSeed⟩⟩

instance : Generator Lcg32 where
  next g := let s := step g.state; (s, ⟨s⟩)
  reseed seed _ := ⟨seed⟩

end Lcg32

structure Xorshift32 where
  state : UInt32
  deriving DecidableEq, Repr

namespace Xorshift32

/-- The state that stands in for zero, which the generator could never leave. -/
def fallback : UInt32 := 0x6d2b79f5

def ofSeed (seed : UInt32) : Xorshift32 := ⟨if seed = 0 then fallback else seed⟩

def step (s : UInt32) : UInt32 :=
  let s := s ^^^ (s <<< 13)
  let s := s ^^^ (s >>> 17)
  s ^^^ (s <<< 5)

instance : Inhabited Xorshift32 := ⟨ofSeed 0⟩

instance : Generator Xorshift32 where
  next g := let s := step g.state; (s, ⟨s⟩)
  reseed seed _ := ofSeed seed

end Xorshift32

def lcg64Step (s : UInt64) : UInt64 := 6364136223846793005 * s + 1

structure Lcg64 where
  state : UInt64
  deriving DecidableEq, Repr

namespace Lcg64

instance : Inhabited Lcg64 := ⟨⟨12345⟩⟩

instance : Generator Lcg64 where
  next g := let s := lcg64Step g.state; ((s >>> 32).toUInt32, ⟨s⟩)
  reseed seed _ := ⟨seed.toUInt64⟩

end Lcg64

structure Script where
  draws : List Float
  used : Nat := 0

namespace Script

def draw (g : Script) : Float :=
  g.draws.getD (min g.used (g.draws.length - 1)) 0.0

def advance (g : Script) : Script := { g with used := g.used + 1 }

instance : Generator Script where
  next g := ((g.draw * (0xffffffff : UInt32).toFloat).toUInt32, g.advance)
  nextUnit g := (g.draw, g.advance)
  reseed _ g := { g with used := 0 }

end Script
end ClusterMesh
