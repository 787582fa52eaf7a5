import ClusterMesh.Station.Election

/-! What a station does with the packets it hears. The phase decides: the noisy phase keeps
signal strengths only, the neighbor phase learns from a packet, and the discovery phase
also queues it for relaying. -/
namespace ClusterMesh

inductive Reception
  | sampled
  | observed
  | queued
  | rejected (why : Refusal)
  | ignored
  deriving DecidableEq, Inhabited, Repr

namespace Station

def hearTransmitter (s : Station) (p : Packet) (rssi : Int8) : Station :=
  let s :=
    match s.node.hear? p.transmitter rssi 1 with
    | some node => { s with node }
    | none => s.note (.rosterFull p.transmitter)
  match p.position with
  | some position => { s with node := s.node.locateNeighbor p.transmitter position }
  | none => s

/-- Enters the sender of a relayed packet into the roster, at its distance. A neighbor that
was heard itself stays direct. -/
def hearSender (s : Station) (p : Packet) (rssi : Int8) : Station :=
  if p.sender = p.transmitter ∨ p.sender = s.id ∨ s.node.roster.knowsDirect p.sender = true then s
  else
    match s.node.hear? p.sender rssi p.distance with
    | some node => { s with node }
    | none => s

def observe (s : Station) (p : Packet) (rssi : Int8) : Station :=
  if p.transmitter = s.id then s
  else
    let s := s.hearTransmitter p rssi
    let s := s.hearSender p rssi
    let s := { s with survey := s.survey.note p.transmitter p.position rssi s.now }
    s.heed p

def take (s : Station) (p : Packet) : Reception × Station :=
  match s.queue.enqueue p s.id s.now with
  | (.ok (), queue) =>
    let s := { s with queue, node := s.node.noteReceived, survey := s.survey.noteReceived }
    (.queued, s.trace (.enqueued p.sender p.life p.content.kind))
  | (.error why, queue) =>
    let s := { s with queue }
    (.rejected why, (s.trace (.refused p.sender why)).note (.refused p.sender why))

def receive (s : Station) (p : Packet) (rssi : Int8) (now : Instant) : Reception × Station :=
  if !s.enabled then (.ignored, s)
  else
    let s := { s with now }
    match s.phase with
    | .noisy =>
      if s.noisy.broadcasting then (.ignored, s)
      else (.sampled, { s with survey := s.survey.sample rssi })
    | .neighbor =>
      if s.neighborly.broadcasting then (.ignored, s)
      else (.observed, s.observe p rssi)
    | .discovery => (s.observe p rssi).take p

def receiveBytes (s : Station) (bytes : List UInt8) (rssi : Int8) (now : Instant) :
    Except Wire.DecodeError Reception × Station :=
  match Packet.ofBytes bytes with
  | .error e => (.error e, s)
  | .ok p =>
    let (r, s) := s.receive p rssi now
    (.ok r, s)

end Station
end ClusterMesh
