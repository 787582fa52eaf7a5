import ClusterMesh.Packet
import ClusterMesh.Wire.Reader

/-! The frames in which packets travel. All numbers are big-endian and nothing is padded:

    kind 1, from-head 1, sender 4, life 1, path length 2, path 4 each,
    position flag 1, then three doubles if the flag is one;
    for kinds 1 and 2 also: class 2, direct 4, reach 4, score 8, hash 4,
    history length 2, history 4 each.

`Packet.encode` writes a frame and `Packet.decode` reads one. -/
namespace ClusterMesh
open Wire

namespace Wire

def ofByte (b : UInt8) : List UInt8 := [b]
def ofWord16 (w : UInt16) : List UInt8 := bigEndian 2 w.toNat
def ofWord32 (w : UInt32) : List UInt8 := bigEndian 4 w.toNat
def ofFlag (b : Bool) : List UInt8 := ofByte (if b then 1 else 0)
def ofReal (x : Binary64) : List UInt8 := bigEndian 8 x.bits.toNat

def ofWords (ws : Bounded UInt32 maxHops) : List UInt8 :=
  bigEndian 2 ws.size ++ ws.toList.flatMap ofWord32

def ofPosition? : Option Position → List UInt8
  | none => ofFlag false
  | some p => ofFlag true ++ ofReal p.x ++ ofReal p.y ++ ofReal p.z

def ofBallot (b : Ballot) : List UInt8 :=
  ofWord16 b.clusterClass ++ ofWord32 b.direct ++ ofWord32 b.reach ++ ofReal b.score ++
    ofWord32 b.hash ++ ofWords b.history

/-- Any byte but one counts as false. -/
def readFlag : Read Bool := do
  let b ← Read.byte
  pure (b = 1)

def readWords : Read (Bounded UInt32 maxHops) := do
  let n ← Read.number 2
  if maxHops < n then Read.fail .tooMany
  else
    let ws ← Read.many Read.word32 n
    match Bounded.ofList? ws with
    | some ws => pure ws
    | none => Read.fail .tooMany

def readPosition? : Read (Option Position) := do
  if ← readFlag then
    let x ← Read.real
    let y ← Read.real
    let z ← Read.real
    pure (some ⟨x, y, z⟩)
  else pure none

def readBallot : Read Ballot := do
  let clusterClass ← Read.word16
  let direct ← Read.word32
  let reach ← Read.word32
  let score ← Read.real
  let hash ← Read.word32
  let history ← readWords
  pure { clusterClass, direct, reach, score, hash, history }

def readBeacon : Read Packet := do
  let fromHead ← readFlag
  let sender ← Read.word32
  let life ← Read.byte
  let path ← readWords
  let position ← readPosition?
  pure { sender, life, path, position, fromHead }

inductive EncodeError
  | bufferTooSmall (needed available : Nat)
  deriving DecidableEq, Repr

def EncodeError.message : EncodeError → String
  | bufferTooSmall needed available =>
    "buffer too small: need " ++ toString needed ++ " bytes, have " ++ toString available

end Wire

namespace Packet

def encode (p : Packet) : List UInt8 :=
  ofByte p.content.kind ++ ofFlag p.fromHead ++ ofWord32 p.sender ++ ofByte p.life ++
    ofWords p.path ++ ofPosition? p.position ++ (p.content.ballot?.map ofBallot).getD []

def encodedLength (p : Packet) : Nat :=
  10 + 4 * p.path.size + (if p.position.isSome then 24 else 0) +
    match p.content.ballot? with
    | none => 0
    | some b => 24 + 4 * b.history.size

/-- Writes the frame over the front of a buffer. A buffer that is too short stays as it was. -/
def encodeInto (p : Packet) (buffer : List UInt8) : Except EncodeError Nat × List UInt8 :=
  let needed := p.encodedLength
  if buffer.length < needed then (.error (.bufferTooSmall needed buffer.length), buffer)
  else (.ok needed, p.encode ++ buffer.drop needed)

def decode : Read Packet := do
  let kind ← Read.byte
  if kind = 0 then readBeacon
  else if kind = 1 then
    let p ← readBeacon
    let ballot ← readBallot
    pure { p with content := .candidacy ballot }
  else if kind = 2 then
    let p ← readBeacon
    let ballot ← readBallot
    pure { p with content := .renouncement ballot }
  else Read.fail .unknownKind

def decodePrefix (bytes : List UInt8) : Except DecodeError (Packet × Nat) :=
  match decode (Reader.ofBytes bytes) with
  | (.ok p, r) => .ok (p, r.taken)
  | (.error e, _) => .error e

def ofBytes (bytes : List UInt8) : Except DecodeError Packet :=
  match decode (Reader.ofBytes bytes) with
  | (.ok p, r) => if r.atEnd then .ok p else .error .trailingBytes
  | (.error e, _) => .error e

end Packet
end ClusterMesh
