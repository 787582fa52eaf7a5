import ClusterMesh.Proofs.Wire.Stream
import ClusterMesh.Wire.Item

/-! Typed items in a row. What is read as an item is what the bytes at hand spell for its kind, and
what was written item by item is read back by the same kinds. However a read comes out, it only
moves the reader forward, over bytes that are there. -/
namespace ClusterMesh.Wire

/-! ## Moving forward -/

namespace Read
variable {α β : Type}

/-- Whether it fails or not, a reading goes over some of the bytes at hand and leaves the others. -/
def Forward (m : Read α) : Prop :=
  ∀ r, ∃ passed, r.rest = passed ++ (m r).2.rest ∧ (m r).2.taken = r.taken + passed.length

theorem forward_of_same {m : Read α} (h : ∀ r, (m r).2 = r) : m.Forward := by
  intro r
  exact ⟨[], by rw [h]; rfl, by rw [h]; rfl⟩

theorem forward_raw (n : Nat) : (raw n).Forward := by
  intro r
  by_cases hn : n ≤ r.remaining
  · refine ⟨r.rest.take n, ?_⟩
    have hlen : (r.rest.take n).length = n := List.length_take_of_le hn
    simp only [raw, if_pos hn, List.take_append_drop, hlen, and_self]
  · exact ⟨[], by simp [raw, hn]⟩

theorem Forward.bind {m : Read α} {f : α → Read β} (hm : m.Forward) (hf : ∀ a, (f a).Forward) :
    (m >>= f).Forward := by
  intro r
  obtain ⟨front, hrest, htaken⟩ := hm r
  rcases hr : m r with ⟨e | a, r₁⟩
  · rw [hr] at hrest htaken
    rw [bind_of_error hr]
    exact ⟨front, hrest, htaken⟩
  · rw [hr] at hrest htaken
    obtain ⟨more, hrest', htaken'⟩ := hf a r₁
    rw [bind_of_ok hr]
    refine ⟨front ++ more, ?_, ?_⟩
    · rw [List.append_assoc, ← hrest', hrest]
    · rw [htaken', htaken, List.length_append, Nat.add_assoc]

theorem Built.forward {m : Read α} (hm : m.Built) : m.Forward := by
  induction hm with
  | pure a => exact forward_of_same fun _ => rfl
  | fail e => exact forward_of_same fun _ => rfl
  | raw n => exact forward_raw n
  | bind _ _ ihm ihf => exact ihm.bind ihf

end Read

/-! ## Items -/

def Item.Spells (bytes : List UInt8) : Item → Prop
  | .frame p => canonical bytes = p.encode
  | item => bytes = item.encode

theorem Item.spells_encode (item : Item) : item.Spells item.encode := by
  cases item with
  | frame p => exact p.canonical_encode
  | _ => rfl

theorem built_kind (k : Kind) : k.read.Built := by
  cases k with
  | byte => exact Read.built_byte.map _
  | word16 => exact Read.built_word16.map _
  | word32 => exact Read.built_word32.map _
  | real => exact Read.built_real.map _
  | raw n => exact (Read.Built.raw n).map _
  | frame => exact built_decode.map _

/-- A reading of one kind takes exactly the strings that spell items of that kind. -/
theorem accepts_kind (k : Kind) :
    k.read.Accepts fun bytes item => item.kind = k ∧ item.Spells bytes := by
  cases k with
  | byte =>
    refine (Read.inverts_byte.map Item.byte).congr fun bytes item => ?_
    cases item <;> simp [Item.kind, Item.Spells, Item.encode]
  | word16 =>
    refine (Read.inverts_word16.map Item.word16).congr fun bytes item => ?_
    cases item <;> simp [Item.kind, Item.Spells, Item.encode]
  | word32 =>
    refine (Read.inverts_word32.map Item.word32).congr fun bytes item => ?_
    cases item <;> simp [Item.kind, Item.Spells, Item.encode]
  | real =>
    refine (Read.inverts_real.map Item.real).congr fun bytes item => ?_
    cases item <;> simp [Item.kind, Item.Spells, Item.encode]
  | raw n =>
    refine ((Read.accepts_raw n).map Item.raw).congr fun bytes item => ?_
    cases item with
    | raw v =>
      simp only [Item.kind, Item.Spells, Item.encode, Item.raw.injEq, Kind.raw.injEq]
      constructor
      · rintro ⟨_, ⟨rfl, hlen⟩, rfl⟩
        exact ⟨hlen, rfl⟩
      · rintro ⟨hlen, rfl⟩
        exact ⟨_, ⟨rfl, hlen⟩, rfl⟩
    | _ => simp [Item.kind]
  | frame =>
    refine (Packet.accepts_decode_canonical.map Item.frame).congr fun bytes item => ?_
    cases item <;> simp [Item.kind, Item.Spells]

/-! ## Items in a row -/

def writeAll (items : List Item) : List UInt8 := items.flatMap Item.encode

def readAll : List Kind → Reader → List (Except DecodeError Item) × Reader
  | [], r => ([], r)
  | k :: ks, r =>
    let (result, r) := k.read r
    let (results, r) := readAll ks r
    (result :: results, r)

theorem read_encode_append (item : Item) (rest : List UInt8) (taken : Nat) :
    item.kind.read ⟨taken, item.encode ++ rest⟩ =
      (.ok item, ⟨taken + item.encode.length, rest⟩) :=
  (accepts_kind item.kind ..).2 ⟨item.encode, ⟨rfl, item.spells_encode⟩, rfl, rfl⟩

theorem readAll_writeAll_append (items : List Item) (rest : List UInt8) (taken : Nat) :
    readAll (items.map Item.kind) ⟨taken, writeAll items ++ rest⟩ =
      (items.map .ok, ⟨taken + (writeAll items).length, rest⟩) := by
  induction items generalizing taken with
  | nil => rfl
  | cons item items ih =>
    have hread := read_encode_append item (writeAll items ++ rest) taken
    have hwrite : writeAll (item :: items) = item.encode ++ writeAll items := rfl
    rw [hwrite, List.append_assoc, List.map_cons, readAll, hread]
    dsimp only
    rw [ih, List.length_append, Nat.add_assoc, List.map_cons]

structure Reader.Within (bytes : List UInt8) (r : Reader) : Prop where
  taken_le : r.taken ≤ bytes.length
  rest_eq : r.rest = bytes.drop r.taken

theorem Reader.within_ofBytes (bytes : List UInt8) : (Reader.ofBytes bytes).Within bytes :=
  ⟨Nat.zero_le _, rfl⟩

theorem Reader.Within.taken_add_remaining {bytes : List UInt8} {r : Reader} (h : r.Within bytes) :
    r.taken + r.remaining = bytes.length := by
  rw [Reader.remaining, h.rest_eq, List.length_drop, Nat.add_sub_cancel' h.taken_le]

theorem Reader.Within.read {bytes : List UInt8} {r : Reader} (h : r.Within bytes) (k : Kind) :
    r.taken ≤ (k.read r).2.taken ∧ (k.read r).2.Within bytes := by
  obtain ⟨passed, hrest, htaken⟩ := (built_kind k).forward r
  have hlen := congrArg List.length hrest
  rw [h.rest_eq] at hrest hlen
  have hle := h.taken_le
  rw [List.length_append, List.length_drop] at hlen
  refine ⟨by omega, by omega, ?_⟩
  rw [htaken, ← List.drop_drop, hrest, List.drop_left]

theorem Reader.Within.readAll {bytes : List UInt8} {r : Reader} (h : r.Within bytes)
    (ks : List Kind) : (readAll ks r).2.Within bytes := by
  induction ks generalizing r with
  | nil => exact h
  | cons k ks ih => exact ih (h.read k).2

def passed (bytes : List UInt8) (r r' : Reader) : List UInt8 :=
  (bytes.drop r.taken).take (r'.taken - r.taken)

theorem length_passed {bytes : List UInt8} (r : Reader) {r' : Reader} (h : r'.Within bytes) :
    (passed bytes r r').length = r'.taken - r.taken := by
  have hle := h.taken_le
  rw [passed, List.length_take, List.length_drop]
  omega

theorem spells_passed {bytes : List UInt8} {r : Reader} (h : r.Within bytes) {k : Kind}
    {item : Item} (hok : (k.read r).1 = .ok item) :
    item.kind = k ∧ item.Spells (passed bytes r (k.read r).2) := by
  obtain ⟨slice, ⟨hkind, hspells⟩, hrest, htaken⟩ := (accepts_kind k r item (k.read r).2).1
    (Prod.ext hok rfl)
  have hpassed : passed bytes r (k.read r).2 = slice := by
    rw [passed, htaken, Nat.add_sub_cancel_left, ← h.rest_eq, hrest, List.take_left]
  exact ⟨hkind, hpassed ▸ hspells⟩

/-- Items written one behind the other are read back by their kinds, with nothing left. And from
any bytes, by any kinds, the reader stays within them and never goes back, and what it reads is
said by the bytes that it has passed: they alone, read by the kind, give the item. -/
theorem items_read_back :
    (∀ items : List Item, ∃ r,
      readAll (items.map Item.kind) (.ofBytes (writeAll items)) = (items.map .ok, r) ∧
        r.atEnd = true ∧ r.taken = (writeAll items).length) ∧
      ∀ (bytes : List UInt8) (ks : List Kind),
        let r : Reader := (readAll ks (.ofBytes bytes)).2
        r.taken ≤ bytes.length ∧ r.taken + r.remaining = bytes.length ∧
          ∀ k : Kind, let r' : Reader := (k.read r).2
            r.taken ≤ r'.taken ∧ r'.taken ≤ bytes.length ∧
              r'.taken + r'.remaining = bytes.length ∧
              ∀ item : Item, (k.read r).1 = .ok item →
                item.kind = k ∧ item.Spells (passed bytes r r') ∧
                  k.read (.ofBytes (passed bytes r r')) =
                    (.ok item, ⟨r'.taken - r.taken, []⟩) := by
  refine ⟨fun items => ⟨⟨(writeAll items).length, []⟩, ?_, rfl, rfl⟩, fun bytes ks => ?_⟩
  · have hread := readAll_writeAll_append items [] 0
    rwa [List.append_nil, Nat.zero_add] at hread
  · intro r
    have hr : r.Within bytes := (Reader.within_ofBytes bytes).readAll ks
    refine ⟨hr.taken_le, hr.taken_add_remaining, fun k => ?_⟩
    intro r'
    obtain ⟨hle, hr'⟩ := hr.read k
    refine ⟨hle, hr'.taken_le, hr'.taken_add_remaining, fun item hok => ?_⟩
    obtain ⟨hkind, hspells⟩ := spells_passed hr hok
    refine ⟨hkind, hspells, (accepts_kind k ..).2 ⟨_, ⟨hkind, hspells⟩, ?_, ?_⟩⟩
    · exact (List.append_nil _).symm
    · rw [length_passed r hr']
      exact (Nat.zero_add _).symm

/-- A double that is cut off is left after its upper half, and a byte is read from there. -/
theorem items_read_back_behind_half_real :
    let bytes : List UInt8 := [1, 2, 3, 4, 5]
    let r : Reader := (readAll [.real] (.ofBytes bytes)).2
    r.taken = 4 ∧ (Kind.byte.read r).1 = .ok (.byte 5) ∧
      (Kind.byte.read r).2.taken + (Kind.byte.read r).2.remaining = 5 ∧
      Kind.byte.read (.ofBytes (passed bytes r (Kind.byte.read r).2)) =
        (.ok (.byte 5), ⟨1, []⟩) := by
  intro bytes r
  have hok : (Kind.byte.read r).1 = .ok (.byte 5) := rfl
  obtain ⟨-, -, hreads⟩ := items_read_back.2 bytes [.real]
  obtain ⟨-, -, hsum, hitem⟩ := hreads .byte
  exact ⟨rfl, hok, hsum, (hitem _ hok).2.2⟩

end ClusterMesh.Wire
