import ClusterMesh.Proofs.Checked.Basic
import ClusterMesh.Proofs.Wire.Frame

/-! Frames in a buffer of the caller. The frame is written on its own and then copied to the front
of the buffer, into as many bytes as its lists and its position call for. The copy has no result
where the two lengths differ; they never do. -/
namespace ClusterMesh

namespace Checked
variable {α : Type}

def overwrite (target source : List α) : Option (List α) :=
  if target.length = source.length then some source else none

theorem overwrite_eq {target source : List α} (h : target.length = source.length) :
    overwrite target source = some source := if_pos h

end Checked

namespace Packet
open Wire

def checkedEncodeInto (p : Packet) (buffer : List UInt8) :
    Option (Except EncodeError Nat × List UInt8) :=
  let needed := p.encodedLength
  if buffer.length < needed then
    some (.error (.bufferTooSmall needed buffer.length), buffer)
  else do
    let front ← Checked.slice buffer 0 needed
    let back ← Checked.slice buffer needed buffer.length
    let front ← Checked.overwrite front p.encode
    pure (.ok needed, front ++ back)

theorem checkedEncodeInto_eq (p : Packet) (buffer : List UInt8) :
    p.checkedEncodeInto buffer = some (p.encodeInto buffer) := by
  by_cases hroom : buffer.length < p.encodedLength
  · simp [checkedEncodeInto, encodeInto, hroom]
  · have hle : p.encodedLength ≤ buffer.length := Nat.not_lt.1 hroom
    have hfront : Checked.slice buffer 0 p.encodedLength =
        some (buffer.take p.encodedLength) := by
      simp [Checked.slice_eq (Nat.zero_le _) hle]
    have hback : Checked.slice buffer p.encodedLength buffer.length =
        some (buffer.drop p.encodedLength) := by
      simp [Checked.slice_eq hle (Nat.le_refl _)]
    have hlength : (buffer.take p.encodedLength).length = p.encode.length := by
      simp [length_encode, hle]
    simp only [checkedEncodeInto, encodeInto, hroom, if_false]
    rw [Checked.bind_eq hfront, Checked.bind_eq hback,
      Checked.bind_eq (Checked.overwrite_eq hlength)]
    rfl

/-- A frame is as long as its lists and its position say. So writing it into a buffer has a result
for every packet and every buffer: one that is too short is left alone and both lengths are told,
in any other the frame replaces as many bytes at the front, and all that follow stay. -/
theorem encodes_into_buffer (p : Packet) (buffer : List UInt8) :
    p.encode.length = p.encodedLength ∧
      p.checkedEncodeInto buffer = some (p.encodeInto buffer) ∧
      (buffer.length < p.encodedLength →
        p.encodeInto buffer =
          (.error (.bufferTooSmall p.encodedLength buffer.length), buffer)) ∧
      (p.encodedLength ≤ buffer.length →
        (p.encodeInto buffer).1 = .ok p.encodedLength ∧
          (p.encodeInto buffer).2.length = buffer.length ∧
          (p.encodeInto buffer).2.take p.encodedLength = p.encode ∧
          (p.encodeInto buffer).2.drop p.encodedLength = buffer.drop p.encodedLength) := by
  refine ⟨p.length_encode, p.checkedEncodeInto_eq buffer, fun h => by simp [encodeInto, h],
    fun h => ?_⟩
  have hroom : ¬ buffer.length < p.encodedLength := Nat.not_lt.2 h
  simp only [encodeInto, hroom, if_false]
  refine ⟨trivial, ?_, List.take_left' p.length_encode, List.drop_left' p.length_encode⟩
  rw [List.length_append, length_encode, List.length_drop]
  omega

/-- A beacon of ten bytes in a buffer of nine and in one of twelve. -/
theorem encodes_into_buffer_of_twelve :
    let p : Packet := { sender := 3 }
    let short : List UInt8 := List.replicate 9 0xaa
    let long : List UInt8 := List.replicate 12 0xaa
    short.length < p.encodedLength ∧
      p.encodeInto short = (.error (.bufferTooSmall 10 9), short) ∧
      p.encodedLength ≤ long.length ∧ (p.encodeInto long).1 = .ok 10 ∧
      (p.encodeInto long).2.take 10 = [0, 0, 0, 0, 0, 3, 10, 0, 0, 0] ∧
      (p.encodeInto long).2.drop 10 = [0xaa, 0xaa] := by
  intro p short long
  have hshort : short.length < p.encodedLength := by decide
  have hlong : p.encodedLength ≤ long.length := by decide
  obtain ⟨-, -, hsmall, -⟩ := encodes_into_buffer p short
  obtain ⟨-, -, -, hroom⟩ := encodes_into_buffer p long
  obtain ⟨hneeded, -, hfront, hback⟩ := hroom hlong
  have hcode : p.encode = [0, 0, 0, 0, 0, 3, 10, 0, 0, 0] := by decide
  exact ⟨hshort, hsmall hshort, hlong, hneeded, hfront.trans hcode, hback⟩

end Packet
end ClusterMesh
