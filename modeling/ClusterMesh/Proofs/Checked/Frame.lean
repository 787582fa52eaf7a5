import ClusterMesh.Proofs.Checked.Basic
import ClusterMesh.Proofs.Wire.Reader

/-! Reading frames from a buffer that stays as it is. A scan goes from place to place, and what it
takes has to lie within the buffer, else the scan has no result. Scans have a result for all
bytes, and it is that of reading from the bytes that are left. -/
namespace ClusterMesh

namespace Wire

def Scan (α : Type) : Type := List UInt8 → Nat → Option (Except DecodeError α × Nat)

namespace Scan
variable {α β : Type}

def fail (e : DecodeError) : Scan α := fun _ place => some (.error e, place)

instance : Monad Scan where
  pure a := fun _ place => some (.ok a, place)
  bind m f := fun buffer place =>
    match m buffer place with
    | none => none
    | some (.ok a, next) => f a buffer next
    | some (.error e, next) => some (.error e, next)

def number (width : Nat) : Scan Nat := fun buffer place =>
  if width ≤ buffer.length - place then do
    let bytes ← Checked.slice buffer place (place + width)
    let digits ← Checked.slice bytes 0 width
    pure (.ok (ofBigEndian digits), place + width)
  else some (.error .unexpectedEnd, place)

def byte : Scan UInt8 := do
  let n ← number 1
  pure (UInt8.ofNat n)

def word16 : Scan UInt16 := do
  let n ← number 2
  pure (UInt16.ofNat n)

def word32 : Scan UInt32 := do
  let n ← number 4
  pure (UInt32.ofNat n)

def real : Scan Binary64 := do
  let upper ← number 4
  let lower ← number 4
  pure ⟨UInt64.ofNat (0x100000000 * upper + lower)⟩

def many (scan : Scan α) : Nat → Scan (List α)
  | 0 => pure []
  | n + 1 => do
    let a ← scan
    let rest ← many scan n
    pure (a :: rest)

def flag : Scan Bool := do
  let b ← byte
  pure (b = 1)

def words : Scan (Bounded UInt32 maxHops) := do
  let n ← number 2
  if maxHops < n then fail .tooMany
  else
    let ws ← many word32 n
    match Bounded.ofList? ws with
    | some ws => pure ws
    | none => fail .tooMany

def position? : Scan (Option Position) := do
  if ← flag then
    let x ← real
    let y ← real
    let z ← real
    pure (some ⟨x, y, z⟩)
  else pure none

def ballot : Scan Ballot := do
  let clusterClass ← word16
  let direct ← word32
  let reach ← word32
  let score ← real
  let hash ← word32
  let history ← words
  pure { clusterClass, direct, reach, score, hash, history }

def beacon : Scan Packet := do
  let fromHead ← flag
  let sender ← word32
  let life ← byte
  let path ← words
  let position ← position?
  pure { sender, life, path, position, fromHead }

def packet : Scan Packet := do
  let kind ← byte
  if kind = 0 then beacon
  else if kind = 1 then
    let p ← beacon
    let b ← ballot
    pure { p with content := .candidacy b }
  else if kind = 2 then
    let p ← beacon
    let b ← ballot
    pure { p with content := .renouncement b }
  else fail .unknownKind

/-! ## Scans and readings -/

/-- From each place in a buffer the scan has a result. It is the result of the reading for the
bytes behind that place, and both go on from one place within the buffer. -/
def Follows (scan : Scan α) (read : Read α) : Prop :=
  ∀ buffer place, place ≤ buffer.length → ∃ result next, next ≤ buffer.length ∧
    scan buffer place = some (result, next) ∧
      read ⟨place, buffer.drop place⟩ = (result, ⟨next, buffer.drop next⟩)

theorem follows_pure (a : α) : (pure a : Scan α).Follows (pure a) := by
  intro buffer place hp
  exact ⟨.ok a, place, hp, rfl, rfl⟩

theorem follows_fail (e : DecodeError) : (fail e : Scan α).Follows (Read.fail e) := by
  intro buffer place hp
  exact ⟨.error e, place, hp, rfl, rfl⟩

theorem Follows.bind {scan : Scan α} {read : Read α} {f : α → Scan β} {g : α → Read β}
    (h : scan.Follows read) (hf : ∀ a, (f a).Follows (g a)) :
    (scan >>= f).Follows (read >>= g) := by
  intro buffer place hp
  obtain ⟨result, next, hn, hs, hr⟩ := h buffer place hp
  cases result with
  | error e =>
    rw [Read.bind_of_error hr]
    refine ⟨.error e, next, hn, ?_, rfl⟩
    simp only [Bind.bind, hs]
  | ok a =>
    rw [Read.bind_of_ok hr]
    obtain ⟨result, last, hl, hs', hr'⟩ := hf a buffer next hn
    refine ⟨result, last, hl, ?_, hr'⟩
    simp only [Bind.bind, hs]
    exact hs'

theorem Follows.map {scan : Scan α} {read : Read α} (h : scan.Follows read) (f : α → β) :
    (scan >>= fun a => pure (f a)).Follows (read >>= fun a => pure (f a)) :=
  h.bind fun a => follows_pure (f a)

theorem Follows.ite {c : Prop} [Decidable c] {scan scan' : Scan α} {read read' : Read α}
    (h : scan.Follows read) (h' : scan'.Follows read') :
    (if c then scan else scan').Follows (if c then read else read') := by
  split
  · exact h
  · exact h'

theorem follows_number (width : Nat) : (number width).Follows (Read.number width) := by
  intro buffer place hp
  have hrest : Reader.remaining ⟨place, buffer.drop place⟩ = buffer.length - place :=
    List.length_drop ..
  by_cases hw : width ≤ buffer.length - place
  · have hend : place + width ≤ buffer.length := by omega
    have hcut : Checked.slice buffer place (place + width) =
        some ((buffer.drop place).take width) := by
      rw [Checked.slice_eq (Nat.le_add_right place width) hend, Nat.add_sub_cancel_left]
    have hlen : ((buffer.drop place).take width).length = width := by
      rw [List.length_take, List.length_drop]
      omega
    have hdigits : Checked.slice ((buffer.drop place).take width) 0 width =
        some ((buffer.drop place).take width) := by
      rw [Checked.slice_eq (Nat.zero_le _) (Nat.le_of_eq hlen.symm), List.drop_zero, Nat.sub_zero,
        List.take_take, Nat.min_self]
    have hr : Read.raw width ⟨place, buffer.drop place⟩ =
        (.ok ((buffer.drop place).take width), ⟨place + width, buffer.drop (place + width)⟩) := by
      unfold Read.raw
      rw [if_pos (hrest ▸ hw), List.drop_drop]
    refine ⟨.ok (ofBigEndian ((buffer.drop place).take width)), place + width, hend, ?_,
      Read.bind_of_ok hr _⟩
    unfold number
    rw [if_pos hw, Checked.bind_eq hcut, Checked.bind_eq hdigits]
    rfl
  · have hr : Read.raw width ⟨place, buffer.drop place⟩ =
        (.error .unexpectedEnd, ⟨place, buffer.drop place⟩) := by
      unfold Read.raw
      rw [if_neg (hrest ▸ hw)]
    exact ⟨.error .unexpectedEnd, place, hp, if_neg hw, Read.bind_of_error hr _⟩

theorem follows_byte : byte.Follows Read.byte := (follows_number 1).map UInt8.ofNat

theorem follows_word16 : word16.Follows Read.word16 := (follows_number 2).map UInt16.ofNat

theorem follows_word32 : word32.Follows Read.word32 := (follows_number 4).map UInt32.ofNat

theorem follows_real : real.Follows Read.real :=
  (follows_number 4).bind fun _ => (follows_number 4).map _

theorem Follows.many {scan : Scan α} {read : Read α} (h : scan.Follows read) (n : Nat) :
    (scan.many n).Follows (read.many n) := by
  induction n with
  | zero => exact follows_pure []
  | succ n ih => exact h.bind fun a => ih.map (a :: ·)

theorem follows_flag : flag.Follows readFlag := follows_byte.map _

theorem follows_words : words.Follows readWords := by
  refine (follows_number 2).bind fun n => (follows_fail _).ite ?_
  refine (follows_word32.many n).bind fun ws => ?_
  cases Bounded.ofList? ws with
  | none => exact follows_fail _
  | some ws => exact follows_pure ws

theorem follows_position? : position?.Follows readPosition? := by
  refine follows_flag.bind fun known => Follows.ite ?_ (follows_pure none)
  exact follows_real.bind fun x => follows_real.bind fun y => follows_real.map _

theorem follows_ballot : ballot.Follows readBallot := by
  refine follows_word16.bind fun clusterClass => follows_word32.bind fun direct => ?_
  refine follows_word32.bind fun reach => follows_real.bind fun score => ?_
  exact follows_word32.bind fun hash => follows_words.map _

theorem follows_beacon : beacon.Follows readBeacon := by
  refine follows_flag.bind fun fromHead => follows_word32.bind fun sender => ?_
  exact follows_byte.bind fun life => follows_words.bind fun path => follows_position?.map _

theorem follows_packet : packet.Follows Packet.decode := by
  refine follows_byte.bind fun kind => follows_beacon.ite ?_
  refine Follows.ite (follows_beacon.bind fun p => follows_ballot.map _) ?_
  exact Follows.ite (follows_beacon.bind fun p => follows_ballot.map _) (follows_fail _)

end Scan
end Wire

namespace Packet
open Wire

def checkedOfBytes (bytes : List UInt8) : Option (Except DecodeError Packet) := do
  match ← Scan.packet bytes 0 with
  | (.ok p, place) => pure (if bytes.length - place = 0 then .ok p else .error .trailingBytes)
  | (.error e, _) => pure (.error e)

theorem checkedOfBytes_eq (bytes : List UInt8) : checkedOfBytes bytes = some (ofBytes bytes) := by
  obtain ⟨result, next, hn, hs, hr⟩ := Scan.follows_packet bytes 0 (Nat.zero_le _)
  unfold checkedOfBytes ofBytes
  rw [Checked.bind_eq hs]
  rw [show decode (Reader.ofBytes bytes) = (result, ⟨next, bytes.drop next⟩) from hr]
  cases result with
  | error e => rfl
  | ok p =>
    have hend : bytes.length - next = 0 ↔ (bytes.drop next).isEmpty = true := by
      rw [List.isEmpty_iff, List.drop_eq_nil_iff]
      omega
    dsimp only [Reader.atEnd]
    simp only [hend]
    rfl

end Packet
end ClusterMesh
