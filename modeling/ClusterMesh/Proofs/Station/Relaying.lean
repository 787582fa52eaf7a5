import Mathlib
import ClusterMesh.Proofs.Station.Ledger
import ClusterMesh.Proofs.Station.Neighborhood

/-! What a relay slot sends and where it comes from. A packet sent there is the copy of the most
urgent entry of the queue, one hop older and otherwise as it was heard, and the entries taken
out of the queue are, one for one, among the receptions that it accepted. -/
namespace ClusterMesh
open Relay (Entry)

/-- How the content of a copy comes from the content of the packet, at a station with so many
direct neighbors of which so many are on the path. -/
inductive Content.Copies (direct known : Nat) : Content → Content → Prop
  | beacon : Copies direct known .beacon .beacon
  | renouncement (b : Ballot) : Copies direct known (.renouncement b) (.renouncement b)
  | counted {b b' : Ballot} {fresh : UInt32} (hl : b.history.toList.length < maxHops)
      (hf : fresh.toNat = direct - known) (hh : b'.history.toList = b.history.toList ++ [fresh])
      (hb : b' = { b with history := b'.history, reach := reachStep b.reach fresh })
      (hr : b'.reach.toNat < 150) : Copies direct known (.candidacy b) (.candidacy b')
  | full {b : Ballot} (hl : b.history.toList.length = maxHops) (hr : b.reach.toNat < 150) :
      Copies direct known (.candidacy b) (.candidacy b)

namespace Station

structure Copies (s : Station) (p q : Packet) : Prop where
  life : q.life.toNat + 1 = p.life.toNat
  fresh : s.id ∉ p.path.toList
  path : q.path.toList = p.path.toList ++ [s.id]
  position : q.position = s.node.here.or p.position
  sender : q.sender = p.sender
  fromHead : q.fromHead = p.fromHead
  content : Content.Copies s.node.countDirect
    (p.path.toList.filter s.node.roster.knowsDirect).length p.content q.content

def sentBy (s : Station) (op : Op) : List Packet :=
  (s.step op).outbox.packets.toList.drop s.outbox.packets.size

/-- The entry that the queue makes for the packet of an operation. -/
def accepts? (s : Station) (op : Op) : Option Entry :=
  match s.reception? op, op.packet?, op.time? with
  | some .queued, some p, some now => some ⟨p, now, Relay.urgency p.life⟩
  | _, _, _ => none

def takes? (s : Station) (op : Op) : Option Entry := if s.relays op then s.queue.peek? else none

def entries (find? : Station → Op → Option Entry) : Station → List Op → List Entry
  | _, [] => []
  | s, op :: ops => (find? s op).toList ++ entries find? (s.step op) ops

def accepted : Station → List Op → List Entry := entries accepts?

def taken : Station → List Op → List Entry := entries takes?

/-! ## Copies -/

theorem id_run {s : Station} (h : s.clockwork.InStep) (ops : List Op) : (s.run ops).id = s.id := by
  induction ops generalizing s with
  | nil => rfl
  | cons op ops ih => exact (ih (inStep_step h op)).trans (id_step h op)

end Station
end ClusterMesh
