import ClusterMesh.Proofs.Number.Whole

/-! Quotients from below. What has a mantissa of full length is rounded to no less than the mantissa
says. So the share that a word is of the largest word is known between two bounds, and the shares
tell the words apart. -/
namespace ClusterMesh.Rounding
open Float.Model Float.Model.UnpackedFloat

def AtLeast (N : Nat) (E : Int) : UnpackedFloat → Prop
  | .finite .positive m e _ => e ≤ E ∧ N * 2 ^ (E - e).toNat ≤ m
  | _ => False

section bounds
variable {M N m n r : Nat} {E e e' f : Int} {acc : Accuracy} {u : UnpackedFloat}

theorem AtLeast.eq_finite (h : AtLeast N E u) :
    ∃ m e hm, u = .finite .positive m e hm ∧ e ≤ E ∧ N * 2 ^ (E - e).toNat ≤ m := by
  cases u with
  | notANumber => exact h.elim
  | infinity s => exact h.elim
  | zero s => exact h.elim
  | finite s m e hm =>
    cases s with
    | negative => exact h.elim
    | positive => exact ⟨m, e, hm, rfl, h⟩

theorem AtLeast.le_of_within (h : AtLeast N E u) (h' : Within M E u) : N ≤ M := by
  obtain ⟨m, e, hm, rfl, -, hN⟩ := h.eq_finite
  exact Nat.le_of_mul_le_mul_right (hN.trans h'.2.2) (by positivity)

theorem zero_lt_of_atLeast {x : Float} (h : AtLeast N E x.toModel.unpack) : 0.0 < x := by
  have hzero : (0.0 : Float).toModel.unpack = .zero .positive := rfl
  obtain ⟨m, e, hm, hx, -⟩ := h.eq_finite
  rw [lt_iff_ordinal (by rw [hzero]; exact Option.some_ne_none _)
    (by rw [hx]; exact Option.some_ne_none _), hzero, hx]
  exact Prod.Lex.toLex_lt_toLex.2 (.inl (by decide : (0 : Int) < 1))

/-! ## Rounding -/

theorem roundedMantissa_between (em : ExtendedMantissa) :
    em.mantissa ≤ em.roundedMantissa ∧ em.roundedMantissa ≤ em.mantissa + 1 := by
  obtain ⟨m, round, sticky⟩ := em
  have hodd : m % 2 ≤ 1 := by omega
  cases round <;> cases sticky <;> simp [ExtendedMantissa.roundedMantissa,
    ExtendedMantissa.accuracy, Accuracy.roundToNearestEven]
  omega

/-- A mantissa that is one bit too long after rounding up ends in a zero, which is dropped. -/
theorem shiftToTargetExponent_of_rounded {em : ExtendedMantissa} (hlow : 2 ^ 52 ≤ r)
    (hhigh : r ≤ 2 ^ 53) (he : -1074 ≤ e)
    (h : shiftToTargetExponent .binary64 r e .exact = (em, e')) :
    em.mantissa.log2 = 52 ∧ e ≤ e' ∧ e' ≤ e + 1 ∧ em.mantissa * 2 ^ (e' - e).toNat = r := by
  by_cases hr : r < 2 ^ 53
  · have hlog : r.log2 = 52 := (Nat.log2_eq_iff (by omega)).2 ⟨hlow, hr⟩
    rw [shiftToTargetExponent_of_log2 hlog he] at h
    cases h
    exact ⟨hlog, le_refl _, by omega, by simp [ExtendedMantissa.ofMantissaAndAccuracy]⟩
  · obtain rfl : r = 2 ^ 53 := by omega
    have hlog : (2 ^ 53).log2 = 53 := by decide
    have htarget : Format.binary64.targetExponent (totalExponent (2 ^ 53) e) = e + 1 := by
      simp only [Format.targetExponent, totalExponent, Format.mantissaBits, Format.minExponent,
        hlog]
      norm_num
      omega
    have hshift : (e + 1 - e).toNat = 1 := by omega
    simp only [shiftToTargetExponent, shiftToExponent, htarget, hshift] at h
    cases h
    refine ⟨by decide, by simp, by simp, ?_⟩
    simp
    rfl

/-- A mantissa of full length is kept or rounded up. -/
theorem atLeast_roundWithAccuracy (h : m.log2 = 52) (he : -1074 ≤ e) (hE : e < E) (hE' : E ≤ 971)
    (hN : N * 2 ^ (E - e).toNat ≤ m) :
    AtLeast N E (UnpackedFloat.unpack .binary64
      (UnpackedFloat.pack .binary64 (roundWithAccuracy .binary64 .positive m e acc))) := by
  have hm : m ≠ 0 := by
    rintro rfl
    simp at h
  obtain ⟨hlow, hhigh⟩ := (Nat.log2_eq_iff hm).1 h
  obtain ⟨hle, hle'⟩ := roundedMantissa_between (.ofMantissaAndAccuracy m acc)
  rw [mantissa_ofMantissaAndAccuracy] at hle hle'
  rcases hsecond : shiftToTargetExponent .binary64
    (ExtendedMantissa.ofMantissaAndAccuracy m acc).roundedMantissa e .exact with ⟨em, e'⟩
  obtain ⟨hlog, hexp, hexp', hr⟩ :=
    shiftToTargetExponent_of_rounded (hlow.trans hle) (by omega) he hsecond
  have hpos : em.mantissa ≠ 0 := fun hzero => by simp [hzero] at hlog
  have hround : roundWithAccuracy .binary64 .positive m e acc =
      .finite .positive em.mantissa e' (Nat.pos_of_ne_zero hpos) := by
    simp only [roundWithAccuracy, shiftToTargetExponent_of_log2 h he, hsecond, dif_neg hpos]
  have hsum : (E - e').toNat + (e' - e).toNat = (E - e).toNat := by omega
  rw [hround, unpack_pack_of_log2 hlog (by omega) (by omega)]
  refine ⟨by omega, Nat.le_of_mul_le_mul_right ?_ (by positivity : 0 < 2 ^ (e' - e).toNat)⟩
  rw [hr, mul_assoc, ← pow_add, hsum]
  exact hN.trans hle

/-! ## Division -/

theorem divCore_of_log2 (hm : m.log2 = 52) (hn : n.log2 = 52) (he : -1074 ≤ e - f - 53) :
    divCore .binary64 m e n f =
      (m * 2 ^ 53 / n, e - f - 53, accuracyOfFraction (m * 2 ^ 53 % n) n) := by
  have htarget : min (e - f) (Format.binary64.targetExponent
      (totalExponent m e - totalExponent n f)) = e - f - 53 := by
    simp only [Format.targetExponent, totalExponent, Format.mantissaBits, Format.minExponent, hm,
      hn]
    norm_num
    omega
  have hshift : (e - f - (e - f - 53)).toNat = 53 := by omega
  simp only [divCore, htarget, hshift, Nat.shiftLeft_eq]

/-- The quotient of two mantissas of full length is one as well, if the dividend is the smaller
one. -/
theorem atLeast_div {hm : 0 < m} {hn : 0 < n} (hm' : m.log2 = 52) (hn' : n.log2 = 52)
    (hlt : m < n) (he : -1074 ≤ e - f - 53) (hE : e - f - 53 < E) (hE' : E ≤ 971)
    (hN : N * 2 ^ (E - (e - f - 53)).toNat * n ≤ m * 2 ^ 53) :
    AtLeast N E (UnpackedFloat.unpack .binary64 (UnpackedFloat.pack .binary64
      (UnpackedFloat.div .binary64 (.finite .positive m e hm) (.finite .positive n f hn)))) := by
  obtain ⟨hlow, -⟩ := (Nat.log2_eq_iff hm.ne').1 hm'
  obtain ⟨-, hhigh⟩ := (Nat.log2_eq_iff hn.ne').1 hn'
  have hquotient : (m * 2 ^ 53 / n).log2 = 52 := by
    have hge : 2 ^ 52 ≤ m * 2 ^ 53 / n := (Nat.le_div_iff_mul_le hn).2 (by omega)
    have hlt : m * 2 ^ 53 / n < 2 ^ 53 := (Nat.div_lt_iff_lt_mul hn).2 (by omega)
    exact (Nat.log2_eq_iff (by omega)).2 ⟨hge, hlt⟩
  simp only [UnpackedFloat.div, divCore_of_log2 hm' hn' he]
  exact atLeast_roundWithAccuracy hquotient he hE hE' ((Nat.le_div_iff_mul_le hn).2 hN)

end bounds

/-! ## Words -/

section words
variable {w : UInt32}

theorem unpack_largest : (0xffffffff : UInt32).toFloat.toModel.unpack =
    .finite .positive (0xffffffff * 2 ^ 21) (-21) (by decide) := rfl

/-- No other word has so large a mantissa as the largest one. -/
theorem wholeMantissa_lt (hw : w ≠ 0) (hlast : w ≠ 0xffffffff) :
    wholeMantissa w.toNat < 0xffffffff * 2 ^ 21 := by
  have hn : w.toNat ≠ 0 := fun h => hw (UInt32.toNat.inj h)
  have hlt : w.toNat < 0xffffffff := by
    have hw := w.toNat_lt
    have hne : w.toNat ≠ 0xffffffff := fun h => hlast (UInt32.toNat.inj h)
    omega
  have hlog : w.toNat.log2 < 32 := (Nat.log2_lt hn).2 w.toNat_lt
  obtain ⟨j, hj⟩ : ∃ j, 52 - w.toNat.log2 = j + 21 := ⟨31 - w.toNat.log2, by omega⟩
  have hroom : (w.toNat + 1) * 2 ^ j ≤ 2 ^ 32 := by
    calc (w.toNat + 1) * 2 ^ j ≤ 2 ^ (w.toNat.log2 + 1) * 2 ^ j :=
          Nat.mul_le_mul_right _ Nat.lt_log2_self
      _ = 2 ^ 32 := by rw [← pow_add, (by omega : w.toNat.log2 + 1 + j = 32)]
  have hshare : w.toNat * 2 ^ j < 0xffffffff := by
    cases j with
    | zero => omega
    | succ j =>
      have hpow : 0 < 2 ^ j := by positivity
      rw [add_one_mul, pow_succ] at hroom
      rw [pow_succ]
      omega
  rw [wholeMantissa, hj, pow_add, ← mul_assoc]
  exact Nat.mul_lt_mul_of_pos_right hshare (by decide)

/-! The share of a word, counted in units of `2 ^ -52`, is rounded down for the lower bound and up
for the upper one. -/

theorem within_word_div (w : UInt32) :
    Within (w.toNat * 2 ^ 52 / 0xffffffff + 1) (-52)
      (w.toFloat / (0xffffffff : UInt32).toFloat).toModel.unpack := by
  have hw := w.toNat_lt
  have hword : Within (w.toNat * 2 ^ 21) (-21) w.toFloat.toModel.unpack :=
    within_unpack_pack (within_ofNat (by omega) (by decide) (by simp)) (by decide)
  have hshare := Nat.lt_div_mul_add (a := w.toNat * 2 ^ 52) (b := 0xffffffff) (by decide)
  have hshift : ((-21 : Int) - -21 - -52).toNat = 52 := rfl
  refine within_unpack_pack ?_ (by decide)
  rw [unpack_largest]
  refine within_div_of_le (by omega) (by decide) hword (by decide) ?_
  rw [hshift]
  omega

theorem atLeast_word_div (hw : w ≠ 0) :
    AtLeast (w.toNat * 2 ^ 52 / 0xffffffff) (-52)
      (w.toFloat / (0xffffffff : UInt32).toFloat).toModel.unpack := by
  by_cases hlast : w = 0xffffffff
  · subst hlast
    exact ⟨by decide, by decide⟩
  have hn : w.toNat ≠ 0 := fun h => hw (UInt32.toNat.inj h)
  have hlog : w.toNat.log2 < 32 := (Nat.log2_lt hn).2 w.toNat_lt
  obtain ⟨hm, hword⟩ := unpack_toFloat hw
  have hdiv : (w.toFloat / (0xffffffff : UInt32).toFloat).toModel.unpack =
      UnpackedFloat.unpack .binary64 (UnpackedFloat.pack .binary64 (UnpackedFloat.div .binary64
        w.toFloat.toModel.unpack (0xffffffff : UInt32).toFloat.toModel.unpack)) := rfl
  rw [hdiv, hword, unpack_largest]
  refine atLeast_div (log2_wholeMantissa hn (by omega)) (by decide) (wholeMantissa_lt hw hlast)
    (by omega) (by omega) (by decide) ?_
  have hexp : (-52 - ((w.toNat.log2 : Int) - 52 - -21 - 53)).toNat = 32 - w.toNat.log2 := by omega
  have hshift : 52 - w.toNat.log2 + 53 = 32 - w.toNat.log2 + 73 := by omega
  have hshare := Nat.div_mul_le_self (w.toNat * 2 ^ 52) 0xffffffff
  rw [hexp, wholeMantissa, mul_assoc w.toNat, ← pow_add, hshift, pow_add]
  calc w.toNat * 2 ^ 52 / 0xffffffff * 2 ^ (32 - w.toNat.log2) * (0xffffffff * 2 ^ 21)
      = w.toNat * 2 ^ 52 / 0xffffffff * 0xffffffff * (2 ^ (32 - w.toNat.log2) * 2 ^ 21) := by ring
    _ ≤ w.toNat * 2 ^ 52 * (2 ^ (32 - w.toNat.log2) * 2 ^ 21) := Nat.mul_le_mul_right _ hshare
    _ = w.toNat * (2 ^ (32 - w.toNat.log2) * 2 ^ 73) := by ring

/-- Different words are different shares of the largest word. -/
theorem injective_word_div :
    Function.Injective fun w : UInt32 => w.toFloat / (0xffffffff : UInt32).toFloat := by
  have hne (a b : UInt32) (h : a.toNat < b.toNat) :
      a.toFloat / (0xffffffff : UInt32).toFloat ≠ b.toFloat / (0xffffffff : UInt32).toFloat := by
    intro heq
    have hb : b ≠ 0 := by
      rintro rfl
      cases h
    have hle := (atLeast_word_div hb).le_of_within (heq ▸ within_word_div a)
    omega
  intro a b h
  obtain hab | hab | hab := Nat.lt_trichotomy a.toNat b.toNat
  · exact absurd h (hne a b hab)
  · exact UInt32.toNat.inj hab
  · exact absurd h.symm (hne b a hab)

end words
end ClusterMesh.Rounding
