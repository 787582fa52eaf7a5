import ClusterMesh.Time
import ClusterMesh.Word

/-! The cycle of four slots in which a node sends its own message and then relays those of others.
What to do in a slot is registered as a value, and handed back when it is due. -/
namespace ClusterMesh

inductive SlotUse
  | own
  | relay
  deriving DecidableEq, Inhabited, Repr

namespace SlotUse

def of (slot : UInt8) : SlotUse := if slot = 0 then .own else .relay

end SlotUse

structure Cycle (α β : Type) where
  running : Bool := false
  slot : Fin 4 := 0
  slotLength : Span := ⟨100⟩
  count : UInt32 := 0
  work : Vector (Option α) 4 := Vector.replicate 4 none
  completion : Option β := none

namespace Cycle
variable {α β : Type}

def atRest (slotLength : Span) (work : Vector (Option α) 4) (completion : Option β) : Cycle α β :=
  { slotLength, work, completion }

def isSlot (slot : UInt8) : Bool := slot < 4
def isRelaySlot (slot : UInt8) : Bool := 1 ≤ slot && slot ≤ 3

def slotLabel (slot : UInt8) : String :=
  if slot = 0 then "own-message"
  else if slot = 1 then "forward-1"
  else if slot = 2 then "forward-2"
  else if slot = 3 then "forward-3"
  else "invalid"

def length (c : Cycle α β) : Span := c.slotLength.scale 4

def offset (c : Cycle α β) (slot : UInt8) : Span :=
  if isSlot slot then c.slotLength.scale slot.toUInt64 else .zero

def setSlotLength (c : Cycle α β) (length : Span) : Bool × Cycle α β :=
  if c.running then (false, c) else (true, { c with slotLength := length })

def setWork (c : Cycle α β) (slot : UInt8) (a : α) : Bool × Cycle α β :=
  if h : slot.toNat < 4 then (true, { c with work := c.work.set slot.toNat (some a) })
  else (false, c)

def setCompletion (c : Cycle α β) (b : β) : Cycle α β := { c with completion := some b }

def start (c : Cycle α β) : Bool × Cycle α β :=
  if c.running then (false, c) else (true, { c with running := true, slot := 0 })

def stop (c : Cycle α β) : Cycle α β := { c with running := false }

def resetCount (c : Cycle α β) : Cycle α β := { c with count := 0 }

def due? (c : Cycle α β) : Option α := if c.running then c.work[c.slot] else none

/-- What an advance leads to: the slot entered, zero while idle, and the completion that is
due with the new count. -/
structure Advance (β : Type) where
  slot : Fin 4
  completed : Option (β × UInt32)
  deriving DecidableEq

def advance (c : Cycle α β) : Advance β × Cycle α β :=
  if !c.running then (⟨0, none⟩, c)
  else if c.slot = 3 then
    let count := c.count + 1
    (⟨0, c.completion.map fun b => (b, count)⟩, { c with slot := 0, count })
  else (⟨c.slot + 1, none⟩, { c with slot := c.slot + 1 })

end Cycle
end ClusterMesh
