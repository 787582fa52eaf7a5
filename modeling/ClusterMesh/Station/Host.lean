import ClusterMesh.Station.Control

/-! A station driven by a host with a clock and an inbox. The host waits until a frame is
heard or the deadline of the slot has come, lets the station handle what came first, and
goes on waiting for the next deadline. -/
namespace ClusterMesh

structure Clock where
  now : Instant
  deriving DecidableEq, Repr

namespace Clock

def zero : Clock := ⟨.zero⟩
def set (_ : Clock) (t : Instant) : Clock := ⟨t⟩
def advance (c : Clock) (d : Span) : Clock := ⟨c.now.after d⟩
def sleepUntil (c : Clock) (deadline : Instant) : Clock := ⟨c.now.latest deadline⟩

end Clock

structure Transmission where
  bytes : List UInt8
  rssi : Int8
  deriving DecidableEq, Repr

abbrev Inbox := Bounded Transmission 8

namespace Inbox

def hear (inbox : Inbox) (t : Transmission) : Inbox := (inbox.push? t).getD inbox

def ofList (ts : List Transmission) : Inbox := ts.foldl hear .empty

def next? (inbox : Inbox) : Option (Transmission × Inbox) :=
  match h : inbox.toList with
  | [] => none
  | t :: ts => some (t, ⟨ts, by have := inbox.length_le; simp [h] at this; omega⟩)

end Inbox

inductive Wake
  | heard (t : Transmission)
  | slot
  deriving DecidableEq

namespace Station

def wake (s : Station) (now deadline : Instant) : Wake → Station × Instant
  | .heard t =>
    match s.receiveBytes t.bytes t.rssi now with
    | (.ok _, s) => (s, deadline)
    | (.error e, s) => (s.note (.undecodable t.bytes.length e), deadline)
  | .slot =>
    let s := s.tick now
    (s, deadline.after s.slotSpan)

def slots : Nat → Station → Instant → Station × Instant
  | 0, s, now => (s, now)
  | n + 1, s, now =>
    let (s, now) := s.wake now now .slot
    slots n s now

def slotsUntil (phase : Phase) : Nat → Station → Instant → Nat × Station × Instant
  | 0, s, now => (0, s, now)
  | n + 1, s, now =>
    if s.phase = phase then (0, s, now)
    else
      let (s, now) := s.wake now now .slot
      let (count, s, now) := slotsUntil phase n s now
      (count + 1, s, now)

end Station

structure Session where
  station : Station
  inbox : Inbox
  clock : Clock
  deadline : Instant

namespace Session

def once (s : Session) : Session :=
  let clock := s.clock.sleepUntil s.deadline
  match s.inbox.next? with
  | some (t, inbox) =>
    let (station, deadline) := s.station.wake clock.now s.deadline (.heard t)
    { station, inbox, clock, deadline }
  | none =>
    let (station, deadline) := s.station.wake clock.now s.deadline .slot
    { s with station, clock, deadline }

def times : Nat → Session → Session
  | 0, s => s
  | n + 1, s => times n s.once

end Session

namespace Station

/-- Runs a station on a written course of events: transmissions with the times at which they
are heard, and a number of slots. A transmission due by the deadline goes before the slot.
The run ends with its last slot, whatever there would still be to hear. -/
def runCourse (s : Station) (now deadline : Instant) (slots : Nat)
    (heard : List (Instant × Transmission)) : Station × Instant :=
  match slots, heard with
  | 0, _ => (s, now)
  | slots + 1, [] =>
    let now := now.latest deadline
    let (s, deadline) := s.wake now deadline .slot
    runCourse s now deadline slots []
  | slots + 1, (time, t) :: heard =>
    if time ≤ deadline then
      let now := now.latest time
      let (s, deadline) := s.wake now deadline (.heard t)
      runCourse s now deadline (slots + 1) heard
    else
      let now := now.latest deadline
      let (s, deadline) := s.wake now deadline .slot
      runCourse s now deadline slots ((time, t) :: heard)
termination_by heard.length + slots

end Station
end ClusterMesh
