import ClusterMesh.Proofs.Wire.Frame

/-! Frames one after the other. What was read from the front of some bytes stays as it is when more
bytes come behind them, unless the reading came to their end too early. So a frame shows where it
ends, and a string of frames falls apart in one way only. -/
namespace ClusterMesh

namespace Wire

namespace Read
variable {α β : Type}

/-! ## How reading is put together -/

/-- All reading comes down to values, failures and runs of bytes, one after the other. -/
inductive Built : {α : Type} → Read α → Prop
  | pure {α : Type} (a : α) : Built (Pure.pure a : Read α)
  | fail {α : Type} (e : DecodeError) : Built (Read.fail e : Read α)
  | raw (n : Nat) : Built (Read.raw n)
  | bind {α β : Type} {m : Read α} {f : α → Read β} (hm : Built m) (hf : ∀ a, Built (f a)) :
      Built (m >>= f)

theorem Built.map {m : Read α} (hm : m.Built) (f : α → β) :
    (m >>= fun a => Pure.pure (f a)).Built :=
  hm.bind fun a => .pure (f a)

theorem Built.ite {c : Prop} [Decidable c] {m m' : Read α} (hm : m.Built) (hm' : m'.Built) :
    (if c then m else m').Built := by
  split
  · exact hm
  · exact hm'

theorem Built.many {m : Read α} (hm : m.Built) (n : Nat) : (many m n).Built := by
  induction n with
  | zero => exact .pure []
  | succ n ih => exact hm.bind fun a => ih.map (a :: ·)

theorem built_number (width : Nat) : (number width).Built := (Built.raw width).map ofBigEndian

theorem built_byte : byte.Built := (built_number 1).map UInt8.ofNat

theorem built_word16 : word16.Built := (built_number 2).map UInt16.ofNat

theorem built_word32 : word32.Built := (built_number 4).map UInt32.ofNat

theorem built_real : real.Built := (built_number 4).bind fun _ => (built_number 4).map _

end Read

theorem built_readFlag : readFlag.Built := Read.built_byte.map _

theorem built_readWords : readWords.Built := by
  refine (Read.built_number 2).bind fun n => (Read.Built.fail .tooMany).ite ?_
  refine (Read.built_word32.many n).bind fun ws => ?_
  cases Bounded.ofList? ws with
  | none => exact .fail .tooMany
  | some ws => exact .pure ws

theorem built_readPosition? : readPosition?.Built := by
  refine built_readFlag.bind fun known => Read.Built.ite ?_ (.pure none)
  exact Read.built_real.bind fun x => Read.built_real.bind fun y => Read.built_real.map _

theorem built_readBallot : readBallot.Built := by
  refine Read.built_word16.bind fun clusterClass => Read.built_word32.bind fun direct => ?_
  refine Read.built_word32.bind fun reach => Read.built_real.bind fun score => ?_
  exact Read.built_word32.bind fun hash => built_readWords.map _

theorem built_readBeacon : readBeacon.Built := by
  refine built_readFlag.bind fun fromHead => Read.built_word32.bind fun sender => ?_
  refine Read.built_byte.bind fun life => built_readWords.bind fun path => ?_
  exact built_readPosition?.map _

theorem built_decode : Packet.decode.Built := by
  refine Read.built_byte.bind fun kind => built_readBeacon.ite ?_
  refine Read.Built.ite (built_readBeacon.bind fun p => built_readBallot.map _) ?_
  exact Read.Built.ite (built_readBeacon.bind fun p => built_readBallot.map _) (.fail _)

/-! ## More bytes -/

def Reader.extend (r : Reader) (more : List UInt8) : Reader := ⟨r.taken, r.rest ++ more⟩

namespace Read
variable {α β : Type}

/-- More bytes at the end change nothing about what is read, unless the bytes at hand ran out. -/
def Steady (m : Read α) : Prop :=
  ∀ r more, (m r).1 ≠ .error .unexpectedEnd →
    m (r.extend more) = ((m r).1, (m r).2.extend more)

theorem steady_raw (n : Nat) : (raw n).Steady := by
  intro r more h
  by_cases hn : n ≤ r.rest.length
  · have hn' : n ≤ (r.rest ++ more).length := by
      rw [List.length_append]
      omega
    simp only [raw, Reader.remaining, Reader.extend, hn, hn', if_true,
      List.take_append_of_le_length hn, List.drop_append_of_le_length hn]
  · simp [raw, Reader.remaining, hn] at h

theorem Steady.bind {m : Read α} {f : α → Read β} (hm : m.Steady) (hf : ∀ a, (f a).Steady) :
    (m >>= f).Steady := by
  intro r more h
  have hmore := hm r more
  rcases hr : m r with ⟨e | a, r₁⟩
  · rw [hr] at hmore
    rw [bind_of_error hr] at h ⊢
    exact bind_of_error (hmore (by simpa using h)) f
  · rw [hr] at hmore
    rw [bind_of_ok hr] at h ⊢
    calc (m >>= f) (r.extend more)
        = f a (r₁.extend more) := bind_of_ok (hmore (by simp)) f
      _ = ((f a r₁).1, (f a r₁).2.extend more) := hf a r₁ more h

theorem Built.steady {m : Read α} (hm : m.Built) : m.Steady := by
  induction hm with
  | pure a =>
    intro r more h
    rfl
  | fail e =>
    intro r more h
    rfl
  | raw n => exact steady_raw n
  | bind _ _ ihm ihf => exact ihm.bind ihf

end Read
end Wire

namespace Packet
open Wire

/-! ## One frame -/

theorem decodePrefix_append {bytes : List UInt8}
    (h : decodePrefix bytes ≠ .error .unexpectedEnd) (more : List UInt8) :
    decodePrefix (bytes ++ more) = decodePrefix bytes := by
  have hmore := built_decode.steady (Reader.ofBytes bytes) more
  have hext : Reader.ofBytes (bytes ++ more) = (Reader.ofBytes bytes).extend more := rfl
  rcases hr : decode (Reader.ofBytes bytes) with ⟨e | p, r⟩
  · rw [hr] at hmore
    simp only [decodePrefix, hr] at h
    simp only [decodePrefix, hext, hr, hmore (by simpa using h)]
  · rw [hr] at hmore
    simp only [decodePrefix, hext, hr, hmore (by simp)]
    rfl

theorem length_of_decodePrefix {bytes : List UInt8} {p : Packet} {n : Nat}
    (h : decodePrefix bytes = .ok (p, n)) : n ≤ bytes.length ∧ n = p.encodedLength := by
  obtain ⟨hn, hc⟩ := (decodePrefix_eq_ok_iff ..).1 h
  have hlen := congrArg List.length hc
  rw [length_canonical, List.length_take, length_encode] at hlen
  exact ⟨hn, by omega⟩

/-- With the last byte of a frame still missing the bytes come to their end too early. -/
theorem decodePrefix_of_cut {bytes : List UInt8} {p : Packet} {n : Nat}
    (h : decodePrefix bytes = .ok (p, n)) {front : List UInt8} (hf : front <+: bytes)
    (hlt : front.length < n) : decodePrefix front = .error .unexpectedEnd := by
  obtain ⟨more, rfl⟩ := hf
  by_contra hne
  rw [decodePrefix_append hne] at h
  have hle := (length_of_decodePrefix h).1
  omega

/-! ## Frames in a row -/

theorem encodedLength_pos (p : Packet) : 0 < p.encodedLength := by
  unfold encodedLength
  omega

def frames (bytes : List UInt8) : List Packet × List UInt8 :=
  match _h : decodePrefix bytes with
  | .ok (p, n) => (p :: (frames (bytes.drop n)).1, (frames (bytes.drop n)).2)
  | .error _ => ([], bytes)
termination_by bytes.length
decreasing_by
  all_goals
    obtain ⟨hle, hn⟩ := length_of_decodePrefix _h
    have hpos := p.encodedLength_pos
    rw [List.length_drop]
    omega

theorem frames_of_ok {bytes : List UInt8} {p : Packet} {n : Nat}
    (h : decodePrefix bytes = .ok (p, n)) :
    frames bytes = (p :: (frames (bytes.drop n)).1, (frames (bytes.drop n)).2) := by
  rw [frames]
  split
  · next q m h' =>
    cases h'.symm.trans h
    rfl
  · next e h' => cases h'.symm.trans h

theorem frames_of_error {bytes : List UInt8} {e : DecodeError}
    (h : decodePrefix bytes = .error e) : frames bytes = ([], bytes) := by
  rw [frames]
  split
  · next q m h' => cases h'.symm.trans h
  · rfl

theorem frames_encode_append (p : Packet) (rest : List UInt8) :
    frames (p.encode ++ rest) = (p :: (frames rest).1, (frames rest).2) := by
  have hread : decodePrefix (p.encode ++ rest) = .ok (p, p.encode.length) := by
    rw [decodePrefix_eq_ok_iff, List.take_left]
    exact ⟨by simp, canonical_encode p⟩
  rw [frames_of_ok hread, List.drop_left]

theorem frames_flatMap_encode (ps : List Packet) : frames (ps.flatMap encode) = (ps, []) := by
  induction ps with
  | nil => exact frames_of_error (e := .unexpectedEnd) rfl
  | cons p ps ih => rw [List.flatMap_cons, frames_encode_append, ih]

/-- What is read from the front of some bytes is read from them with anything behind, unless they
end too early; they do so wherever a frame is cut; and packets written one behind the other are
read one after the other, with no byte left. -/
theorem frames_delimit_themselves :
    (∀ bytes more : List UInt8, decodePrefix bytes ≠ .error .unexpectedEnd →
      decodePrefix (bytes ++ more) = decodePrefix bytes) ∧
      (∀ bytes p n, decodePrefix bytes = .ok (p, n) →
        ∀ front, front <+: bytes.take n → front ≠ bytes.take n →
          decodePrefix front = .error .unexpectedEnd) ∧
      ∀ ps : List Packet, frames (ps.flatMap encode) = (ps, []) := by
  refine ⟨fun bytes more h => decodePrefix_append h more, fun bytes p n h front hf hne => ?_,
    frames_flatMap_encode⟩
  have hlen : front.length < n := by
    have hle := hf.length_le
    have hcut : front.length ≠ (bytes.take n).length := fun he => hne (hf.eq_of_length he)
    rw [List.length_take] at hle hcut
    omega
  exact decodePrefix_of_cut h (hf.trans (List.take_prefix n bytes)) hlen

/-- A beacon with odd flags and a byte behind it, the same without its last byte, and a frame that
declares too long a path and ends there. -/
theorem frames_delimit_themselves_of_beacon :
    let bytes : List UInt8 := [0, 7, 0, 0, 0, 5, 10, 0, 1, 0, 0, 0, 5, 9, 42]
    let long : List UInt8 := [1, 0, 0, 0, 0, 5, 10, 0, 51]
    ∃ p, decodePrefix bytes = .ok (p, 14) ∧ decodePrefix (bytes ++ [0, 1]) = .ok (p, 14) ∧
      decodePrefix (bytes.take 13) = .error .unexpectedEnd ∧
      decodePrefix (long ++ bytes) = .error .tooMany ∧
      frames ([p, p].flatMap encode) = ([p, p], []) := by
  intro bytes long
  obtain ⟨hmore, hcut, hall⟩ := frames_delimit_themselves
  have hread : ∃ p, decodePrefix bytes = .ok (p, 14) := ⟨_, rfl⟩
  have hlong : decodePrefix long = .error .tooMany := rfl
  obtain ⟨p, hread⟩ := hread
  refine ⟨p, hread, ?_, hcut bytes p 14 hread _ ?_ (by decide), ?_, hall [p, p]⟩
  · rw [hmore bytes [0, 1] (by simp [hread]), hread]
  · exact ⟨[9], rfl⟩
  · rw [hmore long bytes (by simp [hlong]), hlong]

end Packet
end ClusterMesh
