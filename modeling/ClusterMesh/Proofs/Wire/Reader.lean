import Mathlib
import ClusterMesh.Wire.Frame

/-! Ways of reading as languages: which strings a way of reading takes from the front of the
bytes, and for which values. What is read in steps takes the strings put together in the same
steps. -/
namespace ClusterMesh.Wire

/-! ## Big-endian numbers -/

theorem ofBigEndian_concat (bytes : List UInt8) (b : UInt8) :
    ofBigEndian (bytes ++ [b]) = 256 * ofBigEndian bytes + b.toNat := by
  simp [ofBigEndian]

theorem ofBigEndian_append (xs ys : List UInt8) :
    ofBigEndian (xs ++ ys) = 256 ^ ys.length * ofBigEndian xs + ofBigEndian ys := by
  induction ys using List.reverseRecOn with
  | nil => simp [ofBigEndian]
  | append_singleton ys b ih =>
    rw [← List.append_assoc, ofBigEndian_concat, ih, ofBigEndian_concat, List.length_append,
      List.length_singleton, pow_succ]
    ring

theorem ofBigEndian_lt (bytes : List UInt8) : ofBigEndian bytes < 256 ^ bytes.length := by
  induction bytes using List.reverseRecOn with
  | nil => decide
  | append_singleton bytes b ih =>
    have hb := b.toNat_lt
    rw [ofBigEndian_concat, List.length_append, List.length_singleton, pow_succ]
    omega

theorem bigEndian_ofBigEndian (bytes : List UInt8) :
    bigEndian bytes.length (ofBigEndian bytes) = bytes := by
  induction bytes using List.reverseRecOn with
  | nil => rfl
  | append_singleton bytes b ih =>
    have hb := b.toNat_lt
    have hdiv : (256 * ofBigEndian bytes + b.toNat) / 256 = ofBigEndian bytes := by omega
    have hlow : UInt8.ofNat (256 * ofBigEndian bytes + b.toNat) = b := by
      apply UInt8.toNat.inj
      rw [UInt8.toNat_ofNat']
      omega
    rw [ofBigEndian_concat, List.length_append, List.length_singleton, bigEndian, hdiv, ih, hlow]

theorem ofBigEndian_bigEndian {width n : Nat} (h : n < 256 ^ width) :
    ofBigEndian (bigEndian width n) = n := by
  induction width generalizing n with
  | zero =>
    rw [pow_zero] at h
    simp only [bigEndian, ofBigEndian, List.foldl_nil]
    omega
  | succ width ih =>
    rw [pow_succ] at h
    rw [bigEndian, ofBigEndian_concat, ih (by omega), UInt8.toNat_ofNat']
    omega

/-- A string of the right length is the number that it spells, written down. -/
theorem eq_bigEndian_iff {width n : Nat} (h : n < 256 ^ width) (bytes : List UInt8) :
    bytes = bigEndian width n ↔ bytes.length = width ∧ n = ofBigEndian bytes := by
  constructor
  · intro h
    subst h
    exact ⟨length_bigEndian .., (ofBigEndian_bigEndian h).symm⟩
  · intro h
    obtain ⟨rfl, rfl⟩ := h
    exact (bigEndian_ofBigEndian bytes).symm

namespace Read
variable {α β : Type}

/-! ## Languages -/

/-- From the front of the bytes `m` takes exactly the strings of `L`, each for the value that
it spells there. -/
def Accepts (m : Read α) (L : List UInt8 → α → Prop) : Prop :=
  ∀ r a r', m r = (.ok a, r') ↔
    ∃ bytes, L bytes a ∧ r.rest = bytes ++ r'.rest ∧ r'.taken = r.taken + bytes.length

abbrev Inverts (m : Read α) (encode : α → List UInt8) : Prop :=
  m.Accepts fun bytes a => bytes = encode a

theorem Accepts.congr {m : Read α} {L K : List UInt8 → α → Prop} (hm : m.Accepts L)
    (h : ∀ bytes a, L bytes a ↔ K bytes a) : m.Accepts K := by
  intro r a r'
  rw [hm r a r']
  simp only [h]

theorem accepts_pure (a : α) : (pure a : Read α).Accepts fun bytes b => bytes = [] ∧ b = a := by
  intro r b r'
  constructor
  · intro h
    cases h
    exact ⟨[], ⟨rfl, rfl⟩, rfl, rfl⟩
  · intro h
    obtain ⟨_, ⟨rfl, rfl⟩, hr, ht⟩ := h
    obtain ⟨taken, rest⟩ := r
    obtain ⟨taken', rest'⟩ := r'
    simp only [List.nil_append, List.length_nil, Nat.add_zero] at hr ht
    rw [hr, ht]
    rfl

theorem accepts_fail (e : DecodeError) : (fail e : Read α).Accepts fun _ _ => False := by
  intro r a r'
  constructor
  · intro h
    cases h
  · intro h
    obtain ⟨_, h, _⟩ := h
    exact h.elim

theorem bind_of_ok {m : Read α} {r r₁ : Reader} {a : α} (h : m r = (.ok a, r₁))
    (f : α → Read β) : (m >>= f) r = f a r₁ := by
  simp only [Bind.bind, h]

theorem bind_of_error {m : Read α} {r r₁ : Reader} {e : DecodeError} (h : m r = (.error e, r₁))
    (f : α → Read β) : (m >>= f) r = (.error e, r₁) := by
  simp only [Bind.bind, h]

theorem Accepts.bind {m : Read α} {f : α → Read β} {L : List UInt8 → α → Prop}
    {K : α → List UInt8 → β → Prop} (hm : m.Accepts L) (hf : ∀ a, (f a).Accepts (K a)) :
    (m >>= f).Accepts fun bytes b => ∃ xs ys a, bytes = xs ++ ys ∧ L xs a ∧ K a ys b := by
  intro r b r'
  constructor
  · intro h
    rcases hr : m r with ⟨e | a, r₁⟩
    · rw [bind_of_error hr] at h
      cases h
    · rw [bind_of_ok hr] at h
      obtain ⟨xs, hx, hrest, htaken⟩ := (hm ..).1 hr
      obtain ⟨ys, hy, hrest', htaken'⟩ := (hf ..).1 h
      refine ⟨xs ++ ys, ⟨xs, ys, a, rfl, hx, hy⟩, ?_, ?_⟩
      · rw [hrest, hrest', List.append_assoc]
      · rw [htaken', htaken, List.length_append, Nat.add_assoc]
  · intro h
    obtain ⟨_, ⟨xs, ys, a, rfl, hx, hy⟩, hrest, htaken⟩ := h
    rw [List.append_assoc] at hrest
    rw [List.length_append, ← Nat.add_assoc] at htaken
    have hr : m r = (.ok a, ⟨r.taken + xs.length, ys ++ r'.rest⟩) :=
      (hm ..).2 ⟨xs, hx, hrest, rfl⟩
    rw [bind_of_ok hr]
    exact (hf ..).2 ⟨ys, hy, rfl, htaken⟩

theorem Accepts.map {m : Read α} {L : List UInt8 → α → Prop} (hm : m.Accepts L) (f : α → β) :
    (m >>= fun a => pure (f a)).Accepts fun bytes b => ∃ a, L bytes a ∧ b = f a := by
  refine (hm.bind fun a => accepts_pure (f a)).congr fun bytes b => ?_
  constructor
  · intro h
    obtain ⟨xs, _, a, rfl, hx, rfl, rfl⟩ := h
    exact ⟨a, by simpa using hx, rfl⟩
  · intro h
    obtain ⟨a, hx, rfl⟩ := h
    exact ⟨bytes, [], a, by simp, hx, rfl, rfl⟩

theorem Inverts.bind {m : Read α} {f : α → Read β} {encode : α → List UInt8}
    {K : α → List UInt8 → β → Prop} (hm : m.Inverts encode) (hf : ∀ a, (f a).Accepts (K a)) :
    (m >>= f).Accepts fun bytes b => ∃ a ys, bytes = encode a ++ ys ∧ K a ys b := by
  refine (Accepts.bind hm hf).congr fun bytes b => ?_
  constructor
  · intro h
    obtain ⟨_, ys, a, rfl, rfl, hy⟩ := h
    exact ⟨a, ys, rfl, hy⟩
  · intro h
    obtain ⟨a, ys, rfl, hy⟩ := h
    exact ⟨_, ys, a, rfl, rfl, hy⟩

theorem Accepts.ite {c : Prop} [Decidable c] {m m' : Read α} {L K : List UInt8 → α → Prop}
    (hm : m.Accepts L) (hm' : m'.Accepts K) :
    (if c then m else m').Accepts fun bytes a => if c then L bytes a else K bytes a := by
  by_cases hc : c
  · simpa only [if_pos hc] using hm
  · simpa only [if_neg hc] using hm'

/-! ## Primitive reads -/

theorem accepts_raw (n : Nat) : (raw n).Accepts fun bytes v => bytes = v ∧ v.length = n := by
  intro r v r'
  unfold raw Reader.remaining
  constructor
  · intro h
    split at h
    · next hn =>
      cases h
      exact ⟨r.rest.take n, ⟨rfl, by simpa using hn⟩, by simp, by simp [hn]⟩
    · cases h
  · intro h
    obtain ⟨_, ⟨rfl, rfl⟩, hr, ht⟩ := h
    rw [hr, if_pos (by simp)]
    simp [← ht]

theorem accepts_number (width : Nat) :
    (number width).Accepts fun bytes n => bytes.length = width ∧ n = ofBigEndian bytes := by
  refine ((accepts_raw width).map ofBigEndian).congr fun bytes n => ?_
  constructor
  · intro h
    obtain ⟨_, ⟨rfl, hw⟩, rfl⟩ := h
    exact ⟨hw, rfl⟩
  · intro h
    obtain ⟨hw, rfl⟩ := h
    exact ⟨bytes, ⟨rfl, hw⟩, rfl⟩

theorem accepts_ofNumber (width : Nat) (ofNat : Nat → α) :
    (number width >>= fun n => pure (ofNat n)).Accepts fun bytes a =>
      bytes.length = width ∧ a = ofNat (ofBigEndian bytes) := by
  refine ((accepts_number width).map ofNat).congr fun bytes a => ?_
  constructor
  · intro h
    obtain ⟨_, ⟨hw, rfl⟩, rfl⟩ := h
    exact ⟨hw, rfl⟩
  · intro h
    obtain ⟨hw, rfl⟩ := h
    exact ⟨_, ⟨hw, rfl⟩, rfl⟩

/-- Values that are numbers of a fixed width are read as they are written. -/
theorem Accepts.inverts {m : Read α} {width : Nat} {toNat : α → Nat} {ofNat : Nat → α}
    (hm : m.Accepts fun bytes a => bytes.length = width ∧ a = ofNat (ofBigEndian bytes))
    (hlt : ∀ a, toNat a < 256 ^ width) (hto : ∀ n, n < 256 ^ width → toNat (ofNat n) = n)
    (hof : ∀ a, ofNat (toNat a) = a) : m.Inverts fun a => bigEndian width (toNat a) := by
  refine hm.congr fun bytes a => ?_
  rw [eq_bigEndian_iff (hlt a)]
  constructor
  · intro h
    obtain ⟨rfl, rfl⟩ := h
    exact ⟨rfl, hto _ (ofBigEndian_lt bytes)⟩
  · intro h
    obtain ⟨hw, ha⟩ := h
    exact ⟨hw, by rw [← ha, hof]⟩

theorem inverts_byte : byte.Inverts ofByte := by
  have he : ofByte = fun v => bigEndian 1 v.toNat := by
    funext v
    simp [ofByte, bigEndian]
  rw [he]
  exact (accepts_ofNumber 1 UInt8.ofNat).inverts UInt8.toNat_lt
    (fun _ h => UInt8.toNat_ofNat_of_lt h) fun _ => UInt8.ofNat_toNat

theorem inverts_word16 : word16.Inverts ofWord16 :=
  (accepts_ofNumber 2 UInt16.ofNat).inverts UInt16.toNat_lt
    (fun _ h => UInt16.toNat_ofNat_of_lt h) fun _ => UInt16.ofNat_toNat

theorem inverts_word32 : word32.Inverts ofWord32 :=
  (accepts_ofNumber 4 UInt32.ofNat).inverts UInt32.toNat_lt
    (fun _ h => UInt32.toNat_ofNat_of_lt h) fun _ => UInt32.ofNat_toNat

/-- The two halves of a double are read like one number of eight bytes. -/
theorem inverts_real : real.Inverts ofReal := by
  have hm : real.Accepts fun bytes v =>
      bytes.length = 8 ∧ v = ⟨UInt64.ofNat (ofBigEndian bytes)⟩ := by
    refine ((accepts_number 4).bind fun upper =>
      (accepts_number 4).map fun lower =>
        (⟨UInt64.ofNat (0x100000000 * upper + lower)⟩ : Binary64)).congr fun bytes v => ?_
    constructor
    · intro h
      obtain ⟨xs, ys, _, rfl, ⟨hx, rfl⟩, _, ⟨hy, rfl⟩, rfl⟩ := h
      rw [ofBigEndian_append, hy]
      exact ⟨by rw [List.length_append, hx, hy], rfl⟩
    · intro h
      obtain ⟨hw, rfl⟩ := h
      refine ⟨bytes.take 4, bytes.drop 4, _, (List.take_append_drop ..).symm,
        ⟨by rw [List.length_take, hw]; rfl, rfl⟩, _, ⟨by rw [List.length_drop, hw], rfl⟩, ?_⟩
      have hsplit := ofBigEndian_append (bytes.take 4) (bytes.drop 4)
      rw [List.take_append_drop, List.length_drop, hw] at hsplit
      rw [hsplit]
      rfl
  exact hm.inverts (fun v => v.bits.toNat_lt) (fun _ h => UInt64.toNat_ofNat_of_lt h)
    fun _ => congrArg Binary64.mk UInt64.ofNat_toNat

theorem inverts_many {m : Read α} {encode : α → List UInt8} (hm : m.Inverts encode) (n : Nat) :
    (many m n).Accepts fun bytes as => as.length = n ∧ bytes = as.flatMap encode := by
  induction n with
  | zero =>
    refine (accepts_pure []).congr fun bytes as => ?_
    constructor
    · intro h
      obtain ⟨rfl, rfl⟩ := h
      exact ⟨rfl, rfl⟩
    · intro h
      obtain ⟨ha, rfl⟩ := h
      rw [List.length_eq_zero_iff.1 ha]
      exact ⟨rfl, rfl⟩
  | succ n ih =>
    refine (hm.bind fun a => ih.map (a :: ·)).congr fun bytes as => ?_
    constructor
    · intro h
      obtain ⟨a, _, rfl, rest, ⟨rfl, rfl⟩, rfl⟩ := h
      exact ⟨rfl, rfl⟩
    · intro h
      obtain ⟨ha, rfl⟩ := h
      cases as with
      | nil => cases ha
      | cons a rest => exact ⟨a, _, rfl, rest, ⟨Nat.succ.inj ha, rfl⟩, rfl⟩

end Read
end ClusterMesh.Wire
