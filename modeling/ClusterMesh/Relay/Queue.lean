import ClusterMesh.Fault
import ClusterMesh.Relay.Policy
import ClusterMesh.Table
import ClusterMesh.Time

/-! Packets that wait to be relayed. There is a fixed number of slots; a new packet takes
the lowest free one, and the packet with most life left goes first. The queue remembers
what it took, by sender and remaining life, so that the same copy is not taken twice. -/
namespace ClusterMesh.Relay

def capacity : Nat := 100

def memoryCapacity : Nat := 200

structure Entry where
  packet : Packet
  receivedAt : Instant
  urgency : UInt8
  deriving DecidableEq

structure Sighting where
  sender : NodeId
  mark : UInt64
  seenAt : Instant
  deriving DecidableEq, Repr

structure Counts where
  enqueued : UInt32 := 0
  dequeued : UInt32 := 0
  duplicates : UInt32 := 0
  loops : UInt32 := 0
  overflows : UInt32 := 0
  deriving DecidableEq, Inhabited, Repr

/-- The mark by which a packet is remembered: its sender above its remaining life. -/
def mark (p : Packet) : UInt64 := (p.sender.toUInt64 <<< 32) ||| p.life.toUInt64

structure Queue where
  slots : Vector (Option Entry) capacity
  size : Nat
  memory : Table (NodeId × UInt64) Sighting
  counts : Counts

namespace Queue

def empty : Queue := ⟨Vector.replicate capacity none, 0, .empty, {}⟩

instance : Inhabited Queue := ⟨empty⟩

def isEmpty (q : Queue) : Bool := q.size = 0
def isFull (q : Queue) : Bool := capacity ≤ q.size

def hasSeen (q : Queue) (sender : NodeId) (mark : UInt64) : Bool :=
  q.memory.contains (sender, mark)

def freeSlot? (q : Queue) : Option (Fin capacity) :=
  (List.finRange capacity).find? fun i => q.slots[i].isNone

def refuse (q : Queue) (why : Refusal) : Queue :=
  { q with counts :=
      match why with
      | .loop => { q.counts with loops := q.counts.loops.succSat }
      | .duplicate => { q.counts with duplicates := q.counts.duplicates.succSat }
      | .overflow => { q.counts with overflows := q.counts.overflows.succSat } }

def remember (q : Queue) (p : Packet) (now : Instant) : Queue :=
  if q.memory.isFull memoryCapacity then q
  else { q with memory := q.memory.insert (p.sender, mark p) ⟨p.sender, mark p, now⟩ }

def store (q : Queue) (slot : Fin capacity) (p : Packet) (now : Instant) : Queue :=
  let q := { q with slots := q.slots.set slot (some ⟨p, now, Relay.urgency p.life⟩),
                    size := q.size + 1 }
  let q := q.remember p now
  { q with counts := { q.counts with enqueued := q.counts.enqueued.succSat } }

/-- Takes a packet that `own` heard at `now`, or says why not: a loop before a duplicate,
a duplicate before a lack of room. -/
def enqueue (q : Queue) (p : Packet) (own : NodeId) (now : Instant) : Except Refusal Unit × Queue :=
  if p.path.contains own then (.error .loop, q.refuse .loop)
  else if q.hasSeen p.sender (mark p) then (.error .duplicate, q.refuse .duplicate)
  else
    match q.freeSlot? with
    | none => (.error .overflow, q.refuse .overflow)
    | some slot => (.ok (), q.store slot p now)

def better (q : Queue) (best : Option (Fin capacity × Entry)) (i : Fin capacity) :
    Option (Fin capacity × Entry) :=
  match q.slots[i], best with
  | none, best => best
  | some e, none => some (i, e)
  | some e, some b => if b.2.urgency ≤ e.urgency then some b else some (i, e)

def best? (q : Queue) : Option (Fin capacity × Entry) :=
  (List.finRange capacity).foldl q.better none

def peek? (q : Queue) : Option Entry := q.best?.map Prod.snd

def dequeue? (q : Queue) : Option (Entry × Queue) :=
  q.best?.map fun (slot, e) =>
    (e, { q with slots := q.slots.set slot none, size := q.size - 1,
                 counts := { q.counts with dequeued := q.counts.dequeued.succSat } })

def forget (q : Queue) (now : Instant) (maxAge : Span) : Queue × Nat :=
  let (memory, gone) := q.memory.retain fun _ s => now.since s.seenAt ≤ maxAge
  ({ q with memory }, gone)

def clear (q : Queue) : Queue := { empty with counts := q.counts }

end Queue
end ClusterMesh.Relay
