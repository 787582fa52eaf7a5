import ClusterMesh.Proofs.Number.Order

/-! Whole numbers that a double has room for. Each of them is a double, so a part of a whole,
divided by the whole, is between zero and one however the quotient is rounded. -/
namespace ClusterMesh.Rounding
open Float.Model Float.Model.UnpackedFloat

/-- A double has a mantissa of full length, unless it has the least exponent. -/
theorem full_or_least {b : BitVec 64} {s : Sign} {m : Nat} {e : Int} {hm : 0 < m}
    (h : UnpackedFloat.unpack .binary64 b = .finite s m e hm) : 2 ^ 52 ≤ m ∨ e = -1074 := by
  have hbias : (Format.binary64.exponentBias : Int) = 1023 := rfl
  simp only [UnpackedFloat.unpack] at h
  split at h
  · split at h <;> cases h
  · split at h
    · next hzero =>
      split at h
      · cases h
      · cases h
        right
        rw [hzero, hbias]
        rfl
    · cases h
      left
      rw [BitVec.toNat_append]
      exact Nat.left_le_or

section whole
variable {n m : Nat} {e : Int}

def wholeMantissa (n : Nat) : Nat := n * 2 ^ (52 - n.log2)

theorem log2_wholeMantissa (hn : n ≠ 0) (h : n.log2 ≤ 52) : (wholeMantissa n).log2 = 52 := by
  have hlow : 2 ^ n.log2 * 2 ^ (52 - n.log2) ≤ wholeMantissa n :=
    Nat.mul_le_mul_right _ (Nat.log2_self_le hn)
  have hhigh : wholeMantissa n < 2 ^ (n.log2 + 1) * 2 ^ (52 - n.log2) :=
    Nat.mul_lt_mul_of_pos_right Nat.lt_log2_self (by positivity)
  rw [← pow_add, Nat.add_sub_cancel' h] at hlow
  rw [← pow_add, (by omega : n.log2 + 1 + (52 - n.log2) = 53)] at hhigh
  exact (Nat.log2_eq_iff (by omega)).2 ⟨hlow, hhigh⟩

/-- A mantissa of full length stays where it is. -/
theorem shiftToTargetExponent_of_log2 {acc : Accuracy} (h : m.log2 = 52) (he : -1074 ≤ e) :
    shiftToTargetExponent .binary64 m e acc =
      (ExtendedMantissa.ofMantissaAndAccuracy m acc, e) := by
  have htarget : Format.binary64.targetExponent (totalExponent m e) = e := by
    simp only [Format.targetExponent, totalExponent, Format.mantissaBits, Format.minExponent, h]
    norm_num
    omega
  simp only [shiftToTargetExponent, shiftToExponent, htarget, sub_self]
  simp
  rfl

theorem roundWithAccuracy_of_log2 {s : Sign} (hm : 0 < m) (h : m.log2 = 52) (he : -1074 ≤ e) :
    roundWithAccuracy .binary64 s m e .exact = .finite s m e hm := by
  have hexact : (ExtendedMantissa.ofMantissaAndAccuracy m .exact).roundedMantissa = m := rfl
  have hmantissa : (ExtendedMantissa.ofMantissaAndAccuracy m .exact).mantissa = m := rfl
  simp only [roundWithAccuracy, shiftToTargetExponent_of_log2 h he, hexact, hmantissa,
    dif_neg hm.ne']

/-- A whole number of at most 53 bits is not rounded. -/
theorem ofNat_eq (hn : n ≠ 0) (h : n.log2 ≤ 52) (hm : 0 < wholeMantissa n) :
    UnpackedFloat.ofNat .binary64 n =
      .finite .positive (wholeMantissa n) (n.log2 - 52) hm := by
  have hpos : compare (n : Int) 0 = .gt := Int.compare_eq_gt.2 (by omega)
  have htarget : Format.binary64.targetExponent (totalExponent n 0) = n.log2 - 52 := by
    simp only [Format.targetExponent, totalExponent, Format.mantissaBits, Format.minExponent]
    norm_num
    omega
  have hshift : (0 - ((n.log2 : Int) - 52)).toNat = 52 - n.log2 := by omega
  have hexp : (0 : Int) - ((52 - n.log2 : Nat) : Int) = n.log2 - 52 := by omega
  simp only [UnpackedFloat.ofNat, UnpackedFloat.ofInt, UnpackedFloat.normalize, hpos,
    UnpackedFloat.round, Int.toNat_natCast, htarget, decreaseExponent, hshift, hexp,
    Nat.shiftLeft_eq]
  exact roundWithAccuracy_of_log2 hm (log2_wholeMantissa hn h) (by omega)

/-- A word is exact. -/
theorem unpack_toFloat {w : UInt32} (hw : w ≠ 0) :
    ∃ hm, w.toFloat.toModel.unpack =
      .finite .positive (wholeMantissa w.toNat) (w.toNat.log2 - 52) hm := by
  have hn : w.toNat ≠ 0 := fun h => hw (UInt32.toNat.inj h)
  have hlog : w.toNat.log2 < 32 := (Nat.log2_lt hn).2 w.toNat_lt
  have hm : 0 < wholeMantissa w.toNat := Nat.mul_pos (Nat.pos_of_ne_zero hn) (by positivity)
  have hmodel : w.toFloat.toModel.unpack = UnpackedFloat.unpack .binary64
      (UnpackedFloat.pack .binary64 (UnpackedFloat.ofNat .binary64 w.toNat)) := rfl
  refine ⟨hm, ?_⟩
  rw [hmodel, ofNat_eq hn (by omega) hm]
  exact unpack_pack_of_log2 (log2_wholeMantissa hn (by omega)) (by omega) (by omega)

end whole

/-! ## Parts of a whole -/

section unit
variable {x : Float}

theorem le_one_of_within (h : Within 1 0 x.toModel.unpack) : x ≤ 1.0 := by
  have hone : (1.0 : Float).toModel.unpack = .finite .positive (2 ^ 52) (-52) (by decide) := rfl
  rw [le_iff_ordinal (sign?_of_within h) (by rw [hone]; exact Option.some_ne_none _), hone]
  generalize hu : x.toModel.unpack = u at h
  cases u with
  | notANumber => exact h.elim
  | infinity s => exact h.elim
  | zero s => exact Prod.Lex.toLex_le_toLex.2 (.inl (by decide))
  | finite s m e hm =>
    cases s with
    | negative => exact Prod.Lex.toLex_le_toLex.2 (.inl (by decide : (-1 : Int) < 1))
    | positive =>
      obtain ⟨-, he, hle⟩ := h
      rw [Nat.one_mul] at hle
      refine Prod.Lex.toLex_le_toLex.2 (.inr ⟨rfl, Prod.Lex.toLex_le_toLex.2 ?_⟩)
      obtain hlt | rfl | hgt := lt_trichotomy e (-52)
      · exact .inl hlt
      · exact .inr ⟨rfl, Int.ofNat_le.2 hle⟩
      · -- a mantissa of full length is too much for a larger exponent
        obtain hfull | hleast := full_or_least hu
        · have hpow : 2 ^ (0 - e).toNat < 2 ^ 52 :=
            Nat.pow_lt_pow_right (by decide) (by omega)
          omega
        · omega

theorem zero_le_of_sign (h : sign? x.toModel.unpack = some .positive) : 0.0 ≤ x := by
  have hzero : (0.0 : Float).toModel.unpack = .zero .positive := rfl
  rw [le_iff_ordinal (by rw [hzero]; exact Option.some_ne_none _)
    (by rw [h]; exact Option.some_ne_none _), hzero]
  generalize x.toModel.unpack = u at h
  cases u with
  | notANumber => cases h
  | infinity s =>
    cases h
    exact Prod.Lex.toLex_le_toLex.2 (.inl (by decide : (0 : Int) < 2))
  | zero s => exact le_refl _
  | finite s m e hm =>
    cases h
    exact Prod.Lex.toLex_le_toLex.2 (.inl (by decide : (0 : Int) < 1))

theorem sign?_ofNat (n : Nat) : sign? (UnpackedFloat.ofNat .binary64 n) = some .positive :=
  sign?_normalize (Int.natCast_nonneg n)

theorem sign?_div {u : UnpackedFloat} {m : Nat} {e : Int} {hm : 0 < m}
    (hu : sign? u = some .positive) :
    sign? (UnpackedFloat.div .binary64 u (.finite .positive m e hm)) = some .positive := by
  cases u with
  | notANumber => cases hu
  | infinity s =>
    cases hu
    rfl
  | zero s =>
    cases hu
    rfl
  | finite s m' e' hm' =>
    cases hu
    exact sign?_roundWithAccuracy

/-- A part of a whole is between nothing and one. -/
theorem part_div_whole {part whole : UInt32} (hle : part ≤ whole) (hne : whole ≠ 0) :
    0.0 ≤ part.toFloat / whole.toFloat ∧ part.toFloat / whole.toFloat ≤ 1.0 := by
  have hn : whole.toNat ≠ 0 := fun h => hne (UInt32.toNat.inj h)
  have hlog : whole.toNat.log2 < 32 := (Nat.log2_lt hn).2 whole.toNat_lt
  have hfull := log2_wholeMantissa hn (by omega)
  obtain ⟨hm, hwhole⟩ := unpack_toFloat hne
  have hpart : Within (wholeMantissa whole.toNat) (whole.toNat.log2 - 52)
      part.toFloat.toModel.unpack := by
    have hroom : wholeMantissa whole.toNat < 2 ^ 53 := by
      rw [← Nat.log2_lt hm.ne', hfull]
      decide
    refine within_unpack_pack (within_ofNat hroom (by omega) ?_) (by omega)
    have hneg : (-((whole.toNat.log2 : Int) - 52)).toNat = 52 - whole.toNat.log2 := by omega
    have hpos : ((whole.toNat.log2 : Int) - 52).toNat = 0 := by omega
    rw [hneg, hpos, Nat.pow_zero, Nat.mul_one]
    exact Nat.mul_le_mul_right _ (UInt32.le_iff_toNat_le.1 hle)
  have hsign : sign? part.toFloat.toModel.unpack = some .positive :=
    (sign?_unpack_pack _).trans (sign?_ofNat _)
  constructor
  · refine zero_le_of_sign ((sign?_unpack_pack _).trans ?_)
    rw [hwhole]
    exact sign?_div hsign
  · refine le_one_of_within (within_unpack_pack ?_ (by decide))
    rw [hwhole]
    exact within_div hpart

end unit
end ClusterMesh.Rounding
