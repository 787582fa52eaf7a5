import ClusterMesh.Generator
import ClusterMesh.Packet

/-! When to relay a packet. Remaining life comes first, then a draw that gets harder to win
in crowded air, then the distance from the position that the packet carries. -/
namespace ClusterMesh.Relay

def quietCrowding : Float := 0.1

def denseCrowding : Float := 0.9

def quietSignal : Float := -90.0
def denseSignal : Float := -40.0

def saturatedNoise : Float := 2.0

/-- The probability of relaying: certain in quiet air, two copies per neighborhood in dense
air, and a straight line between. -/
def probability (crowding : Float) (direct : Nat) : Float :=
  let crowding := clampUnit crowding
  let share := 2.0 / Float.ofNat (max direct 1)
  let base := if share < 1.0 then share else 1.0
  if crowding ≤ quietCrowding then 1.0
  else if denseCrowding ≤ crowding then base
  else
    let t := (crowding - quietCrowding) / (denseCrowding - quietCrowding)
    1.0 + t * (base - 1.0)

def winsDraw {γ : Type} [Generator γ] (crowding : Float) (direct : Nat) (g : γ) : Bool × γ :=
  let (draw, g) := Generator.nextUnit g
  (draw < probability crowding direct, g)

def isFar (here carried : Position) (threshold : Float) : Bool :=
  threshold < here.distance carried

def addsCoverage (here carried : Option Position) (threshold : Float) : Bool :=
  match here, carried with
  | some here, some carried => isFar here carried threshold
  | _, _ => true

def accepts {γ : Type} [Generator γ] (p : Packet) (here : Option Position)
    (crowding proximity : Float) (direct : Nat) (g : γ) : Bool × γ :=
  if p.life = 0 then (false, g)
  else
    let (won, g) := winsDraw crowding direct g
    (won && addsCoverage here p.position proximity, g)

def urgency (life : UInt8) : UInt8 :=
  if life = 0 then 255 else 255 - life

def crowdingOf (samples : List Int8) : Float :=
  if samples.isEmpty then 0.0
  else
    let total := samples.foldl (fun total s => total + s.toInt) 0
    let mean := Float.ofInt total / Float.ofNat samples.length
    if denseSignal ≤ mean then 1.0
    else if mean ≤ quietSignal then 0.0
    else (mean - quietSignal) / (denseSignal - quietSignal)

def noiseOf (crowding : Float) : Float := clampUnit crowding * saturatedNoise

end ClusterMesh.Relay
