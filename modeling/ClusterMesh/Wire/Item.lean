import ClusterMesh.Wire.Frame

/-! Byte strings as sequences of typed items: what `Item.encode` writes, reading by the
same sequence of kinds gives back. -/
namespace ClusterMesh.Wire

inductive Kind
  | byte
  | word16
  | word32
  | real
  | raw (length : Nat)
  | frame
  deriving DecidableEq, Repr

inductive Item
  | byte (v : UInt8)
  | word16 (v : UInt16)
  | word32 (v : UInt32)
  | real (v : Binary64)
  | raw (v : List UInt8)
  | frame (v : Packet)
  deriving DecidableEq

def Item.kind : Item → Kind
  | byte _ => .byte
  | word16 _ => .word16
  | word32 _ => .word32
  | real _ => .real
  | raw v => .raw v.length
  | frame _ => .frame

def Item.encode : Item → List UInt8
  | byte v => ofByte v
  | word16 v => ofWord16 v
  | word32 v => ofWord32 v
  | real v => ofReal v
  | raw v => v
  | frame v => v.encode

def Kind.read : Kind → Read Item
  | byte => do return .byte (← Read.byte)
  | word16 => do return .word16 (← Read.word16)
  | word32 => do return .word32 (← Read.word32)
  | real => do return .real (← Read.real)
  | raw n => do return .raw (← Read.raw n)
  | frame => do return .frame (← Packet.decode)

end ClusterMesh.Wire
