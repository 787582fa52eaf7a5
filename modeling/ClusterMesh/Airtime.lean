import ClusterMesh.Binary64
import ClusterMesh.Generator
import ClusterMesh.Word

/-! Slot by slot, whether a node listens or broadcasts. The noisy pattern is one draw
against a listening ratio. The stochastic pattern also has a budget of broadcasts per lap
of its slots, which shrinks as the air gets crowded. -/
namespace ClusterMesh

inductive Pattern
  | noisy
  | stochastic
  deriving DecidableEq, Inhabited, Repr

structure Airtime where
  pattern : Pattern
  slots : UInt32
  slotMs : UInt32
  listenRatio : Float
  crowding : Float
  slot : UInt32
  broadcasting : Bool
  lapBroadcasts : UInt32
  budget : UInt32
  dice : Lcg32
  retries : Nat
  delivered : Bool
  attempts : UInt32
  listenSlots : UInt32
  broadcastSlots : UInt32
  successes : UInt32
  failures : UInt32

namespace Airtime

def maxSlots : UInt32 := 10

def maxRetries : Nat := 3

def defaultRatio : Pattern → Float
  | .noisy => 0.8
  | .stochastic => 0.9

def fallbackRatio : Float := 0.8

/-- Broadcasts per lap for a crowding: three in empty air, one in full air, the line
between them rounded up. -/
def budgetFor (crowding : Float) : UInt32 :=
  let line := 1.0 + (1.0 - clampUnit crowding) * 2.0
  if 2.0 < line then 3 else if 1.0 < line then 2 else 1

def fit (a : Airtime) : Airtime :=
  match a.pattern with
  | .noisy => a
  | .stochastic =>
    let budget := budgetFor a.crowding
    { a with slots := maxSlots, budget,
             listenRatio := clampUnit (1.0 - budget.toFloat / maxSlots.toFloat) }

def make (pattern : Pattern) (slots? : Option UInt32) (slotMs : UInt32)
    (ratio? : Option Float) : Airtime :=
  let ratio := ratio?.getD (defaultRatio pattern)
  let slots := slots?.getD maxSlots
  fit {
    pattern
    slots := if slots = 0 then maxSlots else min slots maxSlots
    slotMs
    listenRatio := if 0.0 ≤ ratio && ratio ≤ 1.0 then ratio else fallbackRatio
    crowding := 0.5
    slot := 0
    broadcasting := false
    lapBroadcasts := 0
    budget := maxSlots
    dice := default
    retries := 0
    delivered := false
    attempts := 0
    listenSlots := 0
    broadcastSlots := 0
    successes := 0
    failures := 0 }

def noisy (slotMs : UInt32) : Airtime := make .noisy none slotMs none
def stochastic (slotMs : UInt32) : Airtime := make .stochastic none slotMs none

def reseed (a : Airtime) (seed : UInt32) : Airtime :=
  { a with dice := Generator.reseed seed a.dice }

def isSpent (a : Airtime) : Bool := a.pattern = .stochastic && a.budget ≤ a.lapBroadcasts

def turn (a : Airtime) : Airtime :=
  let slot := (a.slot + 1) % a.slots
  { a with slot, lapBroadcasts := if slot = 0 then 0 else a.lapBroadcasts }

def listen (a : Airtime) : Airtime :=
  { a with broadcasting := false, listenSlots := a.listenSlots.succSat }

def broadcast (a : Airtime) : Airtime :=
  { a with broadcasting := true
           broadcastSlots := a.broadcastSlots.succSat
           attempts := a.attempts.succSat
           lapBroadcasts :=
             match a.pattern with
             | .noisy => a.lapBroadcasts
             | .stochastic => a.lapBroadcasts + 1 }

/-- Goes one slot on and settles by a draw what to do there. A spent budget draws too. -/
def advance (a : Airtime) : Airtime :=
  let a := a.turn
  let (draw, dice) := Generator.nextUnit a.dice
  let a := { a with dice }
  if a.isSpent || draw < a.listenRatio then a.listen else a.broadcast

def recordSuccess (a : Airtime) : Airtime :=
  { a with successes := a.successes.succSat, delivered := true, retries := 0 }

def recordFailure (a : Airtime) : Bool × Airtime :=
  let a := { a with failures := a.failures.succSat }
  if a.retries + 1 < maxRetries then (true, { a with retries := a.retries + 1 })
  else (false, { a with retries := 0 })

def resetRetries (a : Airtime) : Airtime := { a with retries := 0, delivered := false }

def setCrowding (a : Airtime) (crowding : Float) : Airtime :=
  let a := { a with crowding := clampUnit crowding }
  match a.pattern with
  | .noisy => a
  | .stochastic => { a.fit with lapBroadcasts := 0 }

def share (part other : UInt32) : Float :=
  let total := part + other
  if total = 0 then 0.0 else part.toFloat / total.toFloat

def successRate (a : Airtime) : Float := share a.successes a.failures
def listenShare (a : Airtime) : Float := share a.listenSlots a.broadcastSlots

end Airtime
end ClusterMesh
