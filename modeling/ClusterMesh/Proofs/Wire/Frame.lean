import ClusterMesh.Proofs.Wire.Reader

/-! Which byte strings are frames. Reading takes what encoding writes, except that any byte
but one stands for false in the two flags: with these written as they should be, a string is
a frame exactly if it is the encoding of a packet, and then it reads as that packet. -/
namespace ClusterMesh
open Wire

namespace Wire

/-! ## Flags -/

def asFlag (b : UInt8) : UInt8 := if b = 1 then 1 else 0

def declaredHops (bytes : List UInt8) : Nat := ofBigEndian ((bytes.drop 7).take 2)

/-- A frame with both flags as they should be written: the one after the kind, and the one
behind the path. -/
def canonical (bytes : List UInt8) : List UInt8 :=
  (bytes.modify 1 asFlag).modify (9 + 4 * declaredHops bytes) asFlag

theorem asFlag_eq_iff (b : UInt8) (flag : Bool) :
    asFlag b = (if flag then 1 else 0) ↔ flag = decide (b = 1) := by
  unfold asFlag
  by_cases hb : b = 1 <;> cases flag <;> simp [hb]

theorem modifyHead_eq_ofFlag_iff (bytes : List UInt8) (flag : Bool) :
    bytes.modifyHead asFlag = ofFlag flag ↔ ∃ b, bytes = [b] ∧ flag = decide (b = 1) := by
  cases bytes with
  | nil => simp [ofFlag, ofByte]
  | cons b bytes =>
    rw [List.modifyHead_cons, ofFlag, ofByte, List.cons.injEq, asFlag_eq_iff]
    constructor
    · intro h
      exact ⟨b, by rw [h.2], h.1⟩
    · intro h
      obtain ⟨b', hb, hf⟩ := h
      cases hb
      exact ⟨hf, rfl⟩

theorem ofFlag_ne_nil (flag : Bool) : ofFlag flag ≠ [] := nofun

theorem ofPosition?_ne_nil (q : Option Position) : ofPosition? q ≠ [] := by
  cases q <;> exact nofun

/-- A change of the first byte stays within the front part, unless that is empty. -/
theorem modifyHead_eq_append_iff {ys : List UInt8} (h : ys ≠ []) (bytes rest : List UInt8)
    (f : UInt8 → UInt8) :
    bytes.modifyHead f = ys ++ rest ↔ ∃ xs, bytes = xs ++ rest ∧ xs.modifyHead f = ys := by
  constructor
  · intro he
    cases ys with
    | nil => exact absurd rfl h
    | cons y ys =>
      cases bytes with
      | nil => cases he
      | cons b bytes =>
        rw [List.modifyHead_cons, List.cons_append, List.cons.injEq] at he
        exact ⟨b :: ys, by rw [he.2, List.cons_append], by rw [List.modifyHead_cons, he.1]⟩
  · intro h
    obtain ⟨xs, he, hx⟩ := h
    cases xs with
    | nil => exact absurd hx.symm h
    | cons x xs => rw [he, ← hx, List.cons_append, List.modifyHead_cons, List.modifyHead_cons,
        List.cons_append]

theorem modify_eq_append_iff {xs : List UInt8} {i : Nat} (h : xs.length = i)
    (bytes ys : List UInt8) (f : UInt8 → UInt8) :
    bytes.modify i f = xs ++ ys ↔ ∃ zs, bytes = xs ++ zs ∧ zs.modifyHead f = ys := by
  rw [List.modify_eq_take_drop]
  constructor
  · intro he
    have hlen := congrArg List.length he
    simp only [List.length_append, List.length_take, List.length_modifyHead,
      List.length_drop] at hlen
    obtain ⟨hx, hy⟩ := List.append_inj he (by rw [List.length_take]; omega)
    refine ⟨bytes.drop i, ?_, hy⟩
    rw [← hx, List.take_append_drop]
  · intro hz
    obtain ⟨zs, he, hy⟩ := hz
    rw [he, ← h, List.take_left, List.drop_left, hy]

theorem accepts_readFlag :
    readFlag.Accepts fun bytes flag => bytes.modifyHead asFlag = ofFlag flag := by
  refine (Read.inverts_byte.map fun b => decide (b = 1)).congr fun bytes flag => ?_
  exact (modifyHead_eq_ofFlag_iff bytes flag).symm

/-! ## Parts of a frame -/

theorem ofList?_eq_some_iff (ws : List UInt32) (b : Bounded UInt32 maxHops) :
    Bounded.ofList? ws = some b ↔ ws = b.toList := by
  constructor
  · intro h
    unfold Bounded.ofList? at h
    split at h
    · cases h
      rfl
    · cases h
  · intro h
    rw [h, Bounded.ofList?_toList]

theorem inverts_readWords : readWords.Inverts ofWords := by
  have hread : readWords.Accepts _ :=
    (Read.accepts_number 2).bind fun n => Read.Accepts.ite (Read.accepts_fail .tooMany)
      ((Read.inverts_many Read.inverts_word32 n).bind
        (K := fun ws bytes b => bytes = [] ∧ ws = b.toList) fun ws => by
          simp only [← ofList?_eq_some_iff]
          cases Bounded.ofList? ws with
          | none => exact (Read.accepts_fail _).congr fun bytes b => by simp
          | some b' => exact (Read.accepts_pure b').congr fun bytes b => by simp [eq_comm])
  refine hread.congr fun bytes b => ?_
  have hlt : b.size < 256 ^ 2 := lt_of_le_of_lt b.length_le (by decide)
  constructor
  · intro h
    obtain ⟨xs, ys, n, he, ⟨hx, hn⟩, h⟩ := h
    split at h
    · exact h.elim
    · obtain ⟨_, _, _, rfl, ⟨hlen, rfl⟩, rfl, rfl⟩ := h
      rw [he, List.append_nil, ofWords, (eq_bigEndian_iff hlt xs).2 ⟨hx, hlen.trans hn⟩]
  · intro he
    obtain ⟨hx, hn⟩ := (eq_bigEndian_iff hlt _).1 rfl
    refine ⟨_, _, b.size, he, ⟨hx, hn⟩, ?_⟩
    have hmax : ¬ maxHops < b.size := Nat.not_lt.2 b.length_le
    rw [if_neg hmax]
    exact ⟨_, [], b.toList, (List.append_nil _).symm, ⟨rfl, rfl⟩, rfl, rfl⟩

theorem accepts_readPosition? :
    readPosition?.Accepts fun bytes p => bytes.modifyHead asFlag = ofPosition? p := by
  refine (accepts_readFlag.bind fun flag => Read.Accepts.ite
    (Read.inverts_real.bind fun x => Read.inverts_real.bind fun y =>
      Read.inverts_real.map fun z => some (⟨x, y, z⟩ : Position))
    (Read.accepts_pure none)).congr fun bytes p => ?_
  constructor
  · intro h
    obtain ⟨fs, ys, flag, he, hf, h⟩ := h
    cases flag with
    | false =>
      obtain ⟨rfl, rfl⟩ := h
      rw [he, List.append_nil, hf]
      rfl
    | true =>
      obtain ⟨x, _, rfl, y, _, rfl, z, rfl, rfl⟩ := h
      rw [(modifyHead_eq_append_iff (ofFlag_ne_nil true) ..).2 ⟨fs, he, hf⟩]
      simp only [ofPosition?, List.append_assoc]
  · intro h
    cases p with
    | none => exact ⟨bytes, [], false, (List.append_nil _).symm, h, rfl, rfl⟩
    | some p =>
      simp only [ofPosition?, List.append_assoc] at h
      obtain ⟨fs, he, hf⟩ := (modifyHead_eq_append_iff (ofFlag_ne_nil true) ..).1 h
      exact ⟨fs, _, true, he, hf, p.x, _, rfl, p.y, _, rfl, p.z, rfl, rfl⟩

theorem inverts_readBallot : readBallot.Inverts ofBallot := by
  refine (Read.inverts_word16.bind fun clusterClass => Read.inverts_word32.bind fun direct =>
    Read.inverts_word32.bind fun reach => Read.inverts_real.bind fun score =>
      Read.inverts_word32.bind fun hash => inverts_readWords.map fun history =>
        ({ clusterClass, direct, reach, score, hash, history } : Ballot)).congr fun bytes b => ?_
  simp only [ofBallot, List.append_assoc]
  constructor
  · intro h
    obtain ⟨_, _, he, _, _, h₁, _, _, h₂, _, _, h₃, _, _, h₄, _, h₅, hb⟩ := h
    rw [he, h₁, h₂, h₃, h₄, h₅, hb]
  · intro he
    exact ⟨_, _, he, _, _, rfl, _, _, rfl, _, _, rfl, _, _, rfl, _, rfl, rfl⟩

def SpellsBeacon (bytes : List UInt8) (p : Packet) : Prop :=
  ∃ fs ps, bytes = fs ++ (ofWord32 p.sender ++ (ofByte p.life ++ (ofWords p.path ++ ps))) ∧
    fs.modifyHead asFlag = ofFlag p.fromHead ∧ ps.modifyHead asFlag = ofPosition? p.position

theorem accepts_readBeacon :
    readBeacon.Accepts fun bytes p => SpellsBeacon bytes p ∧ p.content = .beacon := by
  refine (accepts_readFlag.bind fun fromHead => Read.inverts_word32.bind fun sender =>
    Read.inverts_byte.bind fun life => inverts_readWords.bind fun path =>
      accepts_readPosition?.map fun position =>
        ({ sender, life, path, position, fromHead } : Packet)).congr fun bytes p => ?_
  constructor
  · intro h
    obtain ⟨fs, _, _, he, hf, _, _, h₁, _, _, h₂, _, ps, h₃, _, hp, hb⟩ := h
    rw [hb]
    exact ⟨⟨fs, ps, by rw [he, h₁, h₂, h₃], hf, hp⟩, rfl⟩
  · intro h
    obtain ⟨⟨fs, ps, he, hf, hp⟩, hc⟩ := h
    refine ⟨fs, _, _, he, hf, _, _, rfl, _, _, rfl, _, ps, rfl, _, hp, ?_⟩
    rw [← hc]

theorem accepts_withBallot (make : Ballot → Content) :
    (readBeacon >>= fun p => readBallot >>= fun ballot =>
      pure { p with content := make ballot }).Accepts fun bytes p =>
        ∃ ys b, bytes = ys ++ ofBallot b ∧ SpellsBeacon ys p ∧ p.content = make b := by
  refine (accepts_readBeacon.bind fun p => inverts_readBallot.map fun ballot =>
    { p with content := make ballot }).congr fun bytes p => ?_
  constructor
  · intro h
    obtain ⟨ys, _, q, he, ⟨hq, _⟩, b, hb, hp⟩ := h
    rw [hp]
    exact ⟨ys, b, by rw [he, hb], hq, rfl⟩
  · intro h
    obtain ⟨ys, b, he, hy, hc⟩ := h
    refine ⟨ys, _, { p with content := .beacon }, he, ⟨hy, rfl⟩, b, rfl, ?_⟩
    rw [← hc]

def ofContent (c : Content) : List UInt8 := (c.ballot?.map ofBallot).getD []

/-- The parts of a frame, with the flags as they come. -/
def Spells (bytes : List UInt8) (p : Packet) : Prop :=
  ∃ ys, bytes = ofByte p.content.kind ++ (ys ++ ofContent p.content) ∧ SpellsBeacon ys p

theorem accepts_decode : Packet.decode.Accepts Spells := by
  refine (Read.inverts_byte.bind fun kind =>
    Read.Accepts.ite (c := kind = 0) accepts_readBeacon <|
    Read.Accepts.ite (c := kind = 1) (accepts_withBallot .candidacy) <|
    Read.Accepts.ite (c := kind = 2) (accepts_withBallot .renouncement) <|
    Read.accepts_fail .unknownKind).congr fun bytes p => ?_
  constructor
  · intro h
    obtain ⟨kind, zs, he, h⟩ := h
    split at h
    · next hk => exact ⟨zs, by rw [he, h.2, hk]; exact congrArg _ (List.append_nil zs).symm, h.1⟩
    split at h
    · next hk =>
      obtain ⟨ys, b, hz, hy, hc⟩ := h
      exact ⟨ys, by rw [he, hz, hc, hk]; rfl, hy⟩
    split at h
    · next hk =>
      obtain ⟨ys, b, hz, hy, hc⟩ := h
      exact ⟨ys, by rw [he, hz, hc, hk]; rfl, hy⟩
    · exact h.elim
  · intro h
    obtain ⟨ys, he, hy⟩ := h
    refine ⟨p.content.kind, _, he, ?_⟩
    cases hc : p.content with
    | beacon => exact ⟨by rw [ofContent]; simpa [Content.ballot?] using hy, rfl⟩
    | candidacy b => exact ⟨ys, b, rfl, hy, rfl⟩
    | renouncement b => exact ⟨ys, b, rfl, hy, rfl⟩

theorem spells_encode (p : Packet) : Spells p.encode p := by
  refine ⟨_, ?_, ofFlag p.fromHead, ofPosition? p.position, rfl, ?_, ?_⟩
  · simp only [Packet.encode, ofContent, List.append_assoc]
  · cases p.fromHead <;> rfl
  · cases p.position <;> rfl

/-! ## Canonical frames -/

theorem declaredHops_eq {xs : List UInt8} (h : xs.length = 7) (path : Path) (rest : List UInt8) :
    declaredHops (xs ++ (ofWords path ++ rest)) = path.size := by
  have hlt : path.size < 256 ^ 2 := lt_of_le_of_lt path.length_le (by decide)
  have htake : (ofWords path ++ rest).take 2 = bigEndian 2 path.size := by
    rw [ofWords, List.append_assoc]
    exact List.take_left' (length_bigEndian ..)
  rw [declaredHops, List.drop_left' h, htake, ofBigEndian_bigEndian hlt]

theorem declaredHops_of_spells {bytes : List UInt8} {p : Packet} (h : Spells bytes p) :
    declaredHops bytes = p.path.size := by
  obtain ⟨ys, he, fs, ps, hy, hf, -⟩ := h
  obtain ⟨b, hb, -⟩ := (modifyHead_eq_ofFlag_iff ..).1 hf
  have hsplit : bytes = (ofByte p.content.kind ++ fs ++ ofWord32 p.sender ++ ofByte p.life) ++
      (ofWords p.path ++ (ps ++ ofContent p.content)) := by
    rw [he, hy]
    simp only [List.append_assoc]
  rw [hsplit, declaredHops_eq]
  simp only [hb, List.length_append, ofByte, ofWord32, length_bigEndian, List.length_singleton]

/-- The flags stand outside the bytes that declare the length of the path. -/
theorem declaredHops_modify {i : Nat} (h : i < 7 ∨ 9 ≤ i) (bytes : List UInt8)
    (f : UInt8 → UInt8) : declaredHops (bytes.modify i f) = declaredHops bytes := by
  unfold declaredHops
  obtain h | h := h
  · rw [List.drop_modify_of_lt _ _ _ _ h]
  · have hlen : ((bytes.drop 7).take 2).length ≤ i - 7 := by
      rw [List.length_take]
      omega
    rw [List.drop_modify_of_ge _ _ _ _ (by omega), List.take_modify, List.modify_eq_self hlen]

theorem declaredHops_canonical (bytes : List UInt8) :
    declaredHops (canonical bytes) = declaredHops bytes := by
  rw [canonical, declaredHops_modify (by omega), declaredHops_modify (by omega)]

theorem length_canonical (bytes : List UInt8) : (canonical bytes).length = bytes.length := by
  rw [canonical, List.length_modify, List.length_modify]

theorem length_ofWords (ws : Bounded UInt32 maxHops) :
    (ofWords ws).length = 2 + 4 * ws.size := by
  have hwords : ∀ l : List UInt32, (l.flatMap ofWord32).length = 4 * l.length := by
    intro l
    induction l with
    | nil => rfl
    | cons w l ih =>
      rw [List.flatMap_cons, List.length_append, ih, ofWord32, length_bigEndian, List.length_cons]
      omega
  rw [ofWords, List.length_append, length_bigEndian, hwords]
  rfl

end Wire

namespace Packet

def opening (p : Packet) : List UInt8 :=
  ofByte p.content.kind ++ (ofFlag p.fromHead ++
    (ofWord32 p.sender ++ (ofByte p.life ++ ofWords p.path)))

theorem length_opening (p : Packet) : p.opening.length = 9 + 4 * p.path.size := by
  simp only [opening, List.length_append, ofByte, ofFlag, ofWord32, length_bigEndian,
    length_ofWords, List.length_singleton]
  omega

theorem encode_eq (p : Packet) :
    p.encode = p.opening ++ (ofPosition? p.position ++ ofContent p.content) := by
  simp only [encode, opening, ofContent, List.append_assoc]

/-- A string is put together from the parts of a frame exactly if its canonical form is the
encoding. -/
theorem canonical_eq_encode_iff (bytes : List UInt8) (p : Packet) :
    canonical bytes = p.encode ↔ Spells bytes p := by
  have hkind : (ofByte p.content.kind).length = 1 := rfl
  constructor
  · intro h
    have hd : declaredHops bytes = p.path.size := by
      rw [← declaredHops_canonical, h, declaredHops_of_spells (spells_encode p)]
    rw [canonical, hd, encode_eq, modify_eq_append_iff (length_opening p)] at h
    obtain ⟨zs, hz, hp⟩ := h
    obtain ⟨ps, hz', hp⟩ := (modifyHead_eq_append_iff (ofPosition?_ne_nil _) ..).1 hp
    rw [opening, List.append_assoc, modify_eq_append_iff hkind] at hz
    obtain ⟨ws, hw, hf⟩ := hz
    rw [List.append_assoc, modifyHead_eq_append_iff (ofFlag_ne_nil _)] at hf
    obtain ⟨fs, hw', hf⟩ := hf
    refine ⟨_, ?_, fs, ps, rfl, hf, hp⟩
    rw [hw, hw', hz']
    simp only [List.append_assoc]
  · intro h
    have hd := declaredHops_of_spells h
    obtain ⟨ys, he, fs, ps, hy, hf, hp⟩ := h
    rw [canonical, hd, encode_eq, modify_eq_append_iff (length_opening p)]
    refine ⟨ps ++ ofContent p.content, ?_,
      (modifyHead_eq_append_iff (ofPosition?_ne_nil _) ..).2 ⟨ps, rfl, hp⟩⟩
    rw [opening, List.append_assoc, modify_eq_append_iff hkind]
    refine ⟨_, he, ?_⟩
    rw [List.append_assoc, modifyHead_eq_append_iff (ofFlag_ne_nil _)]
    refine ⟨fs, ?_, hf⟩
    rw [hy]
    simp only [List.append_assoc]

/-- Decoding takes from the front of the bytes what is an encoding up to its flags. -/
theorem accepts_decode_canonical : decode.Accepts fun bytes p => canonical bytes = p.encode :=
  accepts_decode.congr fun bytes p => (canonical_eq_encode_iff bytes p).symm

theorem canonical_encode (p : Packet) : canonical p.encode = p.encode :=
  (canonical_eq_encode_iff ..).2 (spells_encode p)

theorem length_encode (p : Packet) : p.encode.length = p.encodedLength := by
  have hposition : (ofPosition? p.position).length =
      1 + if p.position.isSome then 24 else 0 := by
    cases p.position with
    | none => rfl
    | some q =>
      simp only [ofPosition?, ofFlag, ofByte, ofReal, List.length_append, length_bigEndian,
        List.length_singleton, Option.isSome_some, if_true]
  have hballot (b : Ballot) : (ofBallot b).length = 24 + 4 * b.history.size := by
    simp only [ofBallot, ofWord16, ofWord32, ofReal, List.length_append, length_bigEndian,
      length_ofWords]
    omega
  rw [encode_eq, List.length_append, List.length_append, length_opening, hposition,
    encodedLength, ofContent]
  cases p.content.ballot? with
  | none => simp only [Option.map_none, Option.getD_none, List.length_nil]; omega
  | some b => simp only [Option.map_some, Option.getD_some, hballot]; omega

theorem decodePrefix_eq_ok_iff (bytes : List UInt8) (p : Packet) (n : Nat) :
    decodePrefix bytes = .ok (p, n) ↔
      n ≤ bytes.length ∧ canonical (bytes.take n) = p.encode := by
  unfold decodePrefix
  constructor
  · intro h
    split at h
    · next q r hd =>
      cases h
      obtain ⟨xs, hx, hr, ht⟩ := (accepts_decode_canonical ..).1 hd
      have hb : bytes = xs ++ r.rest := hr
      have hn : r.taken = xs.length := ht.trans (Nat.zero_add _)
      rw [hn, hb, List.take_left]
      exact ⟨by simp, hx⟩
    · cases h
  · intro h
    obtain ⟨hn, hc⟩ := h
    have hd : decode (Reader.ofBytes bytes) = (.ok p, ⟨n, bytes.drop n⟩) :=
      (accepts_decode_canonical ..).2
        ⟨bytes.take n, hc, (List.take_append_drop n bytes).symm, by simp [Reader.ofBytes, hn]⟩
    rw [hd]

theorem ofBytes_eq_ok_iff (bytes : List UInt8) (p : Packet) :
    ofBytes bytes = .ok p ↔ canonical bytes = p.encode := by
  unfold ofBytes
  constructor
  · intro h
    split at h
    · next q r hd =>
      split at h
      · next he =>
        cases h
        obtain ⟨xs, hx, hr, -⟩ := (accepts_decode_canonical ..).1 hd
        have hb : bytes = xs := by
          rw [List.isEmpty_iff.1 he, List.append_nil] at hr
          exact hr
        rw [hb, hx]
      · cases h
    · cases h
  · intro hc
    have hd : decode (Reader.ofBytes bytes) = (.ok p, ⟨bytes.length, []⟩) :=
      (accepts_decode_canonical ..).2
        ⟨bytes, hc, (List.append_nil bytes).symm, (Nat.zero_add _).symm⟩
    rw [hd]
    rfl

/-! ## Reading back and accepting -/

/-- A frame is read back bit by bit, whatever follows it, and is refused as a whole with
anything after it. -/
theorem decode_encode (p : Packet) (rest : List UInt8) :
    ofBytes p.encode = .ok p ∧ decodePrefix (p.encode ++ rest) = .ok (p, p.encodedLength) ∧
      ofBytes (p.encode ++ rest) = if rest = [] then .ok p else .error .trailingBytes := by
  have hread : ofBytes p.encode = .ok p := (ofBytes_eq_ok_iff ..).2 (canonical_encode p)
  refine ⟨hread, ?_, ?_⟩
  · rw [decodePrefix_eq_ok_iff, ← length_encode, List.take_left]
    exact ⟨by simp, canonical_encode p⟩
  · split
    · next h => rw [h, List.append_nil, hread]
    · next h =>
      have hd : decode (Reader.ofBytes (p.encode ++ rest)) = (.ok p, ⟨p.encode.length, rest⟩) :=
        (accepts_decode_canonical ..).2
          ⟨p.encode, canonical_encode p, rfl, (Nat.zero_add _).symm⟩
      rw [ofBytes, hd]
      exact if_neg (by simpa [Reader.atEnd] using h)

/-- What is read from the front of any bytes is a frame up to its flags, and a string as a
whole is read exactly if its canonical form is the encoding of a packet, as that packet. -/
theorem accepts_canonical_frames (bytes : List UInt8) :
    (∀ p n, decodePrefix bytes = .ok (p, n) →
      n ≤ bytes.length ∧ n = p.encodedLength ∧ p.path.size ≤ 50 ∧
        (∀ b, p.content.ballot? = some b → b.history.size ≤ 50) ∧
        declaredHops (bytes.take n) = p.path.size ∧ p.encode = canonical (bytes.take n)) ∧
      ∀ p, ofBytes bytes = .ok p ↔ canonical bytes = p.encode := by
  refine ⟨fun p n h => ?_, ofBytes_eq_ok_iff bytes⟩
  obtain ⟨hn, hc⟩ := (decodePrefix_eq_ok_iff ..).1 h
  have hlen := congrArg List.length hc
  rw [length_canonical, List.length_take, length_encode] at hlen
  exact ⟨hn, by omega, p.path.length_le, fun b _ => b.history.length_le,
    declaredHops_of_spells ((canonical_eq_encode_iff ..).1 hc), hc.symm⟩

/-- Flags of seven and nine, and one byte behind the frame. -/
theorem accepts_canonical_frames_odd_flags :
    ∃ p : Packet,
      decodePrefix [0, 7, 0, 0, 0, 5, 10, 0, 1, 0, 0, 0, 5, 9, 42] = .ok (p, 14) ∧
      14 = p.encodedLength ∧
      p.encode = [0, 0, 0, 0, 0, 5, 10, 0, 1, 0, 0, 0, 5, 0] ∧
      ofBytes [0, 7, 0, 0, 0, 5, 10, 0, 1, 0, 0, 0, 5, 9] = .ok p := by
  have hread : decodePrefix [0, 7, 0, 0, 0, 5, 10, 0, 1, 0, 0, 0, 5, 9, 42] =
      .ok ({ sender := 5, life := 10, path := ⟨[5], by decide⟩ }, 14) := rfl
  obtain ⟨-, hlen, -, -, -, hcode⟩ := (accepts_canonical_frames _).1 _ _ hread
  have hcanonical : canonical [0, 7, 0, 0, 0, 5, 10, 0, 1, 0, 0, 0, 5, 9] =
      [0, 0, 0, 0, 0, 5, 10, 0, 1, 0, 0, 0, 5, 0] := by decide
  exact ⟨_, hread, hlen, hcode.trans hcanonical,
    ((accepts_canonical_frames _).2 _).2 hcode.symm⟩

end Packet
end ClusterMesh
