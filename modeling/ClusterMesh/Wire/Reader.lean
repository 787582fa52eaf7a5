import ClusterMesh.Binary64
import ClusterMesh.Wire.Word

/-! Reading typed values from the front of a byte string. A read that fails still says where
it left the reader, so what can be read next is defined after a failure as well. -/
namespace ClusterMesh.Wire

inductive DecodeError
  | unexpectedEnd
  | trailingBytes
  | unknownKind
  | tooMany
  deriving DecidableEq, Inhabited, Repr

def DecodeError.message : DecodeError → String
  | unexpectedEnd => "unexpected end of buffer"
  | trailingBytes => "trailing bytes after frame"
  | unknownKind => "invalid message type"
  | tooMany => "count exceeds capacity"

structure Reader where
  taken : Nat
  rest : List UInt8
  deriving DecidableEq, Repr

namespace Reader

def ofBytes (bytes : List UInt8) : Reader := ⟨0, bytes⟩
def remaining (r : Reader) : Nat := r.rest.length
def atEnd (r : Reader) : Bool := r.rest.isEmpty

end Reader

def Read (α : Type) : Type := Reader → Except DecodeError α × Reader

namespace Read
variable {α β : Type}

def fail (e : DecodeError) : Read α := fun r => (.error e, r)

instance : Monad Read where
  pure a := fun r => (.ok a, r)
  bind m f := fun r =>
    match m r with
    | (.ok a, r) => f a r
    | (.error e, r) => (.error e, r)

def raw (n : Nat) : Read (List UInt8) := fun r =>
  if n ≤ r.remaining then (.ok (r.rest.take n), ⟨r.taken + n, r.rest.drop n⟩)
  else (.error .unexpectedEnd, r)

def number (width : Nat) : Read Nat := do
  let bytes ← raw width
  pure (ofBigEndian bytes)

def byte : Read UInt8 := do
  let n ← number 1
  pure (UInt8.ofNat n)

def word16 : Read UInt16 := do
  let n ← number 2
  pure (UInt16.ofNat n)

def word32 : Read UInt32 := do
  let n ← number 4
  pure (UInt32.ofNat n)

/-- A double, the upper half of its bits first. The halves are read one after the other. -/
def real : Read Binary64 := do
  let upper ← number 4
  let lower ← number 4
  pure ⟨UInt64.ofNat (0x100000000 * upper + lower)⟩

def many (read : Read α) : Nat → Read (List α)
  | 0 => pure []
  | n + 1 => do
    let a ← read
    let rest ← many read n
    pure (a :: rest)

end Read
end ClusterMesh.Wire
