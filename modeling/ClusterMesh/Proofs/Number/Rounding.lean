import Mathlib
import ClusterMesh.Binary64

/-! Bounds that rounding keeps. A value of at most some units, as many as a double has room for, is
rounded to at most as many. So what is scaled by no more than one stays finite. -/
namespace ClusterMesh.Rounding
open Float.Model Float.Model.UnpackedFloat

/-! ## Mantissas -/

def AtMost (em : ExtendedMantissa) (k : Nat) : Prop :=
  em.mantissa < k ∨ em.mantissa = k ∧ em.roundBit = false ∧ em.stickyBit = false

section mantissas
variable {em : ExtendedMantissa} {m k j M : Nat} {e E : Int} {acc : Accuracy}

theorem AtMost.mantissa_le (h : AtMost em k) : em.mantissa ≤ k := by
  obtain h | ⟨h, -⟩ := h
  · exact h.le
  · exact h.le

theorem AtMost.shiftRightOne (h : AtMost em (k * 2)) : AtMost em.shiftRightOne k := by
  obtain h | ⟨h, hround, hsticky⟩ := h
  · exact .inl (Nat.div_lt_of_lt_mul (by omega))
  · refine .inr ⟨?_, ?_, ?_⟩
    · simp only [ExtendedMantissa.shiftRightOne]
      omega
    · simp [ExtendedMantissa.shiftRightOne, h]
    · simp [ExtendedMantissa.shiftRightOne, hround, hsticky]

theorem AtMost.shiftRight (h : AtMost em (k * 2 ^ j)) : AtMost (em >>> j) k := by
  induction j generalizing k with
  | zero =>
    rw [pow_zero, mul_one] at h
    exact h
  | succ j ih =>
    refine AtMost.shiftRightOne (ih ?_)
    rwa [mul_assoc, ← pow_succ']

/-- What falls short of a half is rounded off. -/
theorem roundedMantissa_le (h : em.mantissa < k ∨ em.mantissa = k ∧ em.roundBit = false) :
    em.roundedMantissa ≤ k := by
  obtain ⟨m, round, sticky⟩ := em
  have hodd : m % 2 ≤ 1 := by omega
  cases round <;> cases sticky <;> simp_all [ExtendedMantissa.roundedMantissa,
    ExtendedMantissa.accuracy, Accuracy.roundToNearestEven] <;> omega

theorem AtMost.rounded (h : AtMost em k) : em.roundedMantissa ≤ k :=
  roundedMantissa_le (h.imp_right fun h => ⟨h.1, h.2.1⟩)

/-- A half above an odd mantissa is rounded up. -/
theorem roundedMantissa_of_odd (hround : em.roundBit = true) (hodd : em.mantissa % 2 = 1) :
    em.roundedMantissa = em.mantissa + 1 := by
  obtain ⟨m, round, sticky⟩ := em
  cases hround
  cases sticky with
  | false => exact congrArg (m + ·) hodd
  | true => rfl

theorem mantissa_shiftRight (em : ExtendedMantissa) (j : Nat) :
    (em >>> j).mantissa = em.mantissa / 2 ^ j := by
  induction j with
  | zero => exact (Nat.div_one _).symm
  | succ j ih =>
    have hstep : (em >>> (j + 1)).mantissa = (em >>> j).mantissa / 2 := rfl
    rw [hstep, ih, Nat.div_div_eq_div_mul, ← pow_succ]

theorem roundBit_shiftRight_succ (em : ExtendedMantissa) (j : Nat) :
    (em >>> (j + 1)).roundBit = (em.mantissa / 2 ^ j % 2 != 0) := by
  have hstep : (em >>> (j + 1)).roundBit = ((em >>> j).mantissa % 2 != 0) := rfl
  rw [hstep, mantissa_shiftRight]

theorem atMost_exact : AtMost (.ofMantissaAndAccuracy m .exact) k ↔ m ≤ k := by
  simp [AtMost, ExtendedMantissa.ofMantissaAndAccuracy, Nat.le_iff_lt_or_eq]

theorem mantissa_ofMantissaAndAccuracy (m : Nat) (acc : Accuracy) :
    (ExtendedMantissa.ofMantissaAndAccuracy m acc).mantissa = m := by
  cases acc with
  | exact => rfl
  | inexact o => cases o <;> rfl

theorem atMost_div {a d : Nat} (hd : 0 < d) (h : a ≤ k * d) :
    AtMost (.ofMantissaAndAccuracy (a / d) (accuracyOfFraction (a % d) d)) k := by
  by_cases hlt : a / d < k
  · left
    rwa [mantissa_ofMantissaAndAccuracy]
  · have ha : a = k * d := by
      refine le_antisymm h ?_
      rw [← Nat.le_div_iff_mul_le hd]
      exact not_lt.1 hlt
    rw [ha, Nat.mul_mod_left, Nat.mul_div_cancel k hd]
    exact .inr ⟨rfl, rfl, rfl⟩

/-- The exponent for a value of at most `M` units is none larger than that of the unit. -/
theorem targetExponent_le (hM : M < 2 ^ 53) (hE : -1074 ≤ E) (hm : m ≠ 0 ∨ e ≤ E)
    (h : m * 2 ^ (e - E).toNat ≤ M * 2 ^ (E - e).toNat) :
    Format.binary64.targetExponent (totalExponent m e) ≤ E := by
  have hlog (hm : m ≠ 0) : m.log2 + (e - E).toNat < 53 + (E - e).toNat := by
    refine (Nat.pow_lt_pow_iff_right (by decide : 1 < 2)).1 ?_
    calc 2 ^ (m.log2 + (e - E).toNat) = 2 ^ m.log2 * 2 ^ (e - E).toNat := pow_add ..
      _ ≤ m * 2 ^ (e - E).toNat := Nat.mul_le_mul_right _ (Nat.log2_self_le hm)
      _ ≤ M * 2 ^ (E - e).toNat := h
      _ < 2 ^ 53 * 2 ^ (E - e).toNat := Nat.mul_lt_mul_of_pos_right hM (by positivity)
      _ = 2 ^ (53 + (E - e).toNat) := (pow_add ..).symm
  simp only [Format.targetExponent, totalExponent, Format.mantissaBits, Format.minExponent]
  norm_num
  by_cases hm₀ : m = 0
  · rw [hm₀, Nat.log2_zero]
    omega
  · have := hlog hm₀
    omega

/-- Shifts raise the exponent no further than that of the bound. -/
theorem AtMost.shiftToTargetExponent {em' : ExtendedMantissa} {e' : Int} (hM : M < 2 ^ 53)
    (hE : -1074 ≤ E) (he : e ≤ E)
    (h : AtMost (.ofMantissaAndAccuracy m acc) (M * 2 ^ (E - e).toNat))
    (hshift : UnpackedFloat.shiftToTargetExponent .binary64 m e acc = (em', e')) :
    -1074 ≤ e' ∧ e' ≤ E ∧ AtMost em' (M * 2 ^ (E - e').toNat) := by
  have htarget : Format.binary64.targetExponent (totalExponent m e) ≤ E := by
    have hle := h.mantissa_le
    rw [mantissa_ofMantissaAndAccuracy] at hle
    refine targetExponent_le hM hE (.inr he) ?_
    rwa [Int.toNat_of_nonpos (by omega : e - E ≤ 0), pow_zero, mul_one]
  have hmin : -1074 ≤ Format.binary64.targetExponent (totalExponent m e) := le_max_right _ _
  simp only [UnpackedFloat.shiftToTargetExponent, shiftToExponent, Prod.mk.injEq] at hshift
  obtain ⟨rfl, rfl⟩ := hshift
  generalize Format.binary64.targetExponent (totalExponent m e) = t at *
  refine ⟨by omega, by omega, AtMost.shiftRight ?_⟩
  have hexp : (E - (e + (t - e).toNat)).toNat + (t - e).toNat = (E - e).toNat := by omega
  rwa [mul_assoc, ← pow_add, hexp]

end mantissas

/-! ## Values -/

/-- A number of at most `M` units of `2 ^ E`. -/
def Within (M : Nat) (E : Int) : UnpackedFloat → Prop
  | .zero _ => True
  | .finite _ m e _ => -1074 ≤ e ∧ e ≤ E ∧ m ≤ M * 2 ^ (E - e).toNat
  | _ => False

theorem Within.isFinite {M : Nat} {E : Int} {u : UnpackedFloat} (h : Within M E u) :
    u.isFinite = true := by
  cases u with
  | notANumber => exact h.elim
  | infinity s => exact h.elim
  | zero s => rfl
  | finite s m e hm => rfl

section values
variable {s : Sign} {m M : Nat} {e k E : Int} {acc : Accuracy} {u v : UnpackedFloat}

/-- Only the first of the two rounds of shifting rounds anything off. -/
theorem within_of_roundedMantissa_le {em : ExtendedMantissa} (hM : M < 2 ^ 53) (hE : -1074 ≤ E)
    (hfirst : shiftToTargetExponent .binary64 m k acc = (em, e)) (he : e ≤ E)
    (h : em.roundedMantissa ≤ M * 2 ^ (E - e).toNat) :
    Within M E (roundWithAccuracy .binary64 s m k acc) := by
  rcases hsecond : shiftToTargetExponent .binary64 em.roundedMantissa e .exact with ⟨em', e'⟩
  obtain ⟨hmin, he', h'⟩ := AtMost.shiftToTargetExponent hM hE he (atMost_exact.2 h) hsecond
  simp only [roundWithAccuracy, hfirst, hsecond]
  split
  · trivial
  · exact ⟨hmin, he', h'.mantissa_le⟩

theorem within_roundWithAccuracy (hM : M < 2 ^ 53) (hE : -1074 ≤ E) (he : e ≤ E)
    (h : AtMost (.ofMantissaAndAccuracy m acc) (M * 2 ^ (E - e).toNat)) :
    Within M E (roundWithAccuracy .binary64 s m e acc) := by
  rcases hfirst : shiftToTargetExponent .binary64 m e acc with ⟨em, e'⟩
  obtain ⟨-, he', h'⟩ := h.shiftToTargetExponent hM hE he hfirst
  exact within_of_roundedMantissa_le hM hE hfirst he' h'.rounded

theorem within_round (hM : M < 2 ^ 53) (hE : -1074 ≤ E) (hm : m ≠ 0)
    (h : m * 2 ^ (e - E).toNat ≤ M * 2 ^ (E - e).toNat) :
    Within M E (UnpackedFloat.round .binary64 s m e) := by
  have ht := targetExponent_le hM hE (.inl hm) h
  simp only [UnpackedFloat.round, decreaseExponent]
  generalize Format.binary64.targetExponent (totalExponent m e) = t at *
  refine within_roundWithAccuracy hM hE (by omega) (atMost_exact.2 ?_)
  obtain ⟨k, hk₁, hk₂⟩ : ∃ k, (e - t).toNat = (e - E).toNat + k ∧
      (E - (e - (e - t).toNat)).toNat = (E - e).toNat + k :=
    ⟨(e - t).toNat - (e - E).toNat, by omega, by omega⟩
  rw [Nat.shiftLeft_eq, hk₂, hk₁, pow_add, pow_add, ← mul_assoc, ← mul_assoc]
  exact Nat.mul_le_mul_right _ h

/-- Whole numbers are exact enough. -/
theorem within_ofNat (hM : M < 2 ^ 53) (hE : -1074 ≤ E) {k : Nat}
    (h : k * 2 ^ (-E).toNat ≤ M * 2 ^ E.toNat) :
    Within M E (UnpackedFloat.ofNat .binary64 k) := by
  simp only [UnpackedFloat.ofNat, UnpackedFloat.ofInt, UnpackedFloat.normalize]
  split
  · next hk =>
    rw [Int.compare_eq_lt] at hk
    omega
  · trivial
  · next hk =>
    rw [Int.compare_eq_gt] at hk
    refine within_round hM hE (by omega) ?_
    rw [Int.toNat_natCast, zero_sub, sub_zero]
    exact h

/-- What is scaled by at most one keeps its bound. -/
theorem within_mul (hM : M < 2 ^ 53) (hE : -1074 ≤ E) (hu : Within 1 0 u) (hv : Within M E v) :
    Within M E (UnpackedFloat.mul .binary64 u v) := by
  cases u with
  | notANumber => exact hu.elim
  | infinity s => exact hu.elim
  | zero s =>
    cases v with
    | notANumber => exact hv.elim
    | infinity s => exact hv.elim
    | zero s' => trivial
    | finite s' m e hm => trivial
  | finite s m e hm =>
    cases v with
    | notANumber => exact hv.elim
    | infinity s => exact hv.elim
    | zero s' => trivial
    | finite s' m' e' hm' =>
      obtain ⟨-, he, hle⟩ := hu
      obtain ⟨-, he', hle'⟩ := hv
      refine within_roundWithAccuracy hM hE (by omega) (atMost_exact.2 ?_)
      have hexp : (E - (e + e')).toNat = (0 - e).toNat + (E - e').toNat := by omega
      calc m * m' ≤ 1 * 2 ^ (0 - e).toNat * (M * 2 ^ (E - e').toNat) := Nat.mul_le_mul hle hle'
        _ = M * 2 ^ (E - (e + e')).toNat := by
          rw [hexp, pow_add]
          ring

/-- A quotient is at most so many units of the quotient of two units if the dividend is at most
so many divisors. -/
theorem within_div_of_le {K : Nat} {F : Int} (hK : K < 2 ^ 53) (hF : -1074 ≤ F) {hm : 0 < m}
    (hu : Within M E u) (he : F + e ≤ E) (h : M * 2 ^ (E - e - F).toNat ≤ K * m) :
    Within K F (UnpackedFloat.div .binary64 u (.finite s m e hm)) := by
  cases u with
  | notANumber => exact hu.elim
  | infinity s => exact hu.elim
  | zero s => trivial
  | finite s' m' e' hm' =>
    obtain ⟨-, he', hle⟩ := hu
    simp only [UnpackedFloat.div, divCore]
    have hleft : min (e' - e) (Format.binary64.targetExponent
        (totalExponent m' e' - totalExponent m e)) ≤ e' - e := min_le_left _ _
    have ht : min (e' - e) (Format.binary64.targetExponent
        (totalExponent m' e' - totalExponent m e)) ≤ F := by
      by_cases hlow : e' - e ≤ F
      · exact hleft.trans hlow
      -- the quotient of the mantissas is below the one that a double has no room for
      · have hexp : (E - e').toNat + (e' - e - F).toNat = (E - e - F).toNat := by omega
        have hlog : m'.log2 + (e' - e - F).toNat < 53 + (m.log2 + 1) := by
          refine (Nat.pow_lt_pow_iff_right (by decide : 1 < 2)).1 ?_
          calc 2 ^ (m'.log2 + (e' - e - F).toNat)
              = 2 ^ m'.log2 * 2 ^ (e' - e - F).toNat := pow_add ..
            _ ≤ m' * 2 ^ (e' - e - F).toNat :=
              Nat.mul_le_mul_right _ (Nat.log2_self_le hm'.ne')
            _ ≤ M * 2 ^ (E - e').toNat * 2 ^ (e' - e - F).toNat := Nat.mul_le_mul_right _ hle
            _ = M * 2 ^ (E - e - F).toNat := by rw [mul_assoc, ← pow_add, hexp]
            _ ≤ K * m := h
            _ < 2 ^ 53 * 2 ^ (m.log2 + 1) := Nat.mul_lt_mul'' hK Nat.lt_log2_self
            _ = 2 ^ (53 + (m.log2 + 1)) := (pow_add ..).symm
        refine (min_le_right _ _).trans ?_
        simp only [Format.targetExponent, totalExponent, Format.mantissaBits, Format.minExponent]
        norm_num
        omega
    generalize min (e' - e) _ = t at *
    refine within_roundWithAccuracy hK hF ht (atMost_div hm ?_)
    have hexp : (E - e').toNat + (e' - e - t).toNat = (E - e - F).toNat + (F - t).toNat := by
      omega
    calc m' <<< (e' - e - t).toNat = m' * 2 ^ (e' - e - t).toNat := Nat.shiftLeft_eq ..
      _ ≤ M * 2 ^ (E - e').toNat * 2 ^ (e' - e - t).toNat := Nat.mul_le_mul_right _ hle
      _ = M * 2 ^ (E - e - F).toNat * 2 ^ (F - t).toNat := by
        rw [mul_assoc, ← pow_add, hexp, pow_add, mul_assoc]
      _ ≤ K * m * 2 ^ (F - t).toNat := Nat.mul_le_mul_right _ h
      _ = K * 2 ^ (F - t).toNat * m := by ring

/-- A quotient by what is no smaller is at most one. -/
theorem within_div {hm : 0 < m} (hu : Within m e u) :
    Within 1 0 (UnpackedFloat.div .binary64 u (.finite s m e hm)) :=
  within_div_of_le (by decide) (by decide) hu (by omega) (by simp)

end values

/-! ## Bits -/

def sign? : UnpackedFloat → Option Sign
  | .notANumber => none
  | .infinity s => some s
  | .zero s => some s
  | .finite s _ _ _ => some s

section bits
variable {s : Sign} {m M : Nat} {e E : Int} {u : UnpackedFloat}

theorem ofBitVec_unpackSign (s : Sign) (exponent : BitVec 11) (mantissa : BitVec 52) :
    Sign.ofBitVec (unpackSign (packComponents .binary64 s exponent mantissa)) = s := by
  simp only [unpackSign, packComponents, BitVec.extractLsb]
  rw [BitVec.extractLsb'_append_eq_of_le (by omega), BitVec.extractLsb'_append_eq_of_le (by omega)]
  cases s <;> rfl

theorem sign?_unpack_packComponents {exponent : BitVec 11} (mantissa : BitVec 52)
    (h : exponent ≠ -1#11) :
    sign? (UnpackedFloat.unpack .binary64 (packComponents .binary64 s exponent mantissa)) =
      some s := by
  simp only [UnpackedFloat.unpack, unpackMantissa_packComponents, unpackExponent_packComponents,
    ofBitVec_unpackSign, if_neg h]
  split
  · split <;> rfl
  · rfl

theorem ofNat_ne_neg_one {k : Nat} (h : k < 2047) : BitVec.ofNat 11 k ≠ -1#11 := by
  intro he
  have hk := congrArg BitVec.toNat he
  simp at hk
  omega

/-- Packing keeps the sign, and makes no number of what is none, nor the other way round. -/
theorem sign?_unpack_pack (u : UnpackedFloat) :
    sign? (UnpackedFloat.unpack .binary64 (UnpackedFloat.pack .binary64 u)) = sign? u := by
  cases u with
  | notANumber => rfl
  | infinity s => cases s <;> rfl
  | zero s => cases s <;> rfl
  | finite s m e h =>
    simp only [UnpackedFloat.pack]
    split
    · cases s <;> rfl
    · split
      · exact sign?_unpack_packComponents _ (ofNat_ne_neg_one (by omega))
      · exact sign?_unpack_packComponents _ (by decide)

theorem toNat_one_append (h : m.log2 = 52) : (1#1 ++ BitVec.ofNat 52 m).toNat = m := by
  have hm : m ≠ 0 := by
    rintro rfl
    simp at h
  have hlow := (Nat.le_log2 hm).1 h.ge
  have hhigh := (Nat.log2_lt hm).1 (h.trans_lt (by decide : 52 < 53))
  rw [BitVec.toNat_append, ← Nat.shiftLeft_add_eq_or_of_lt (BitVec.ofNat 52 m).isLt,
    BitVec.toNat_ofNat, Nat.shiftLeft_eq]
  simp only [BitVec.toNat_ofNat]
  omega

/-- Packing keeps a mantissa of full length. -/
theorem unpack_pack_of_log2 {hm : 0 < m} (h : m.log2 = 52) (hmin : -1074 ≤ e) (hmax : e ≤ 971) :
    UnpackedFloat.unpack .binary64 (UnpackedFloat.pack .binary64 (.finite s m e hm)) =
      .finite s m e hm := by
  have hbias : (Format.binary64.exponentBias : Int) = 1023 := rfl
  simp only [UnpackedFloat.pack]
  rw [if_neg (by simp; omega), if_pos (by simp [Format.mantissaBits, h])]
  generalize hk : (e + Format.binary64.exponentBias + (52 : Nat)).toNat = k
  have hk₁ : k < 2047 := by omega
  have hk₂ : BitVec.ofNat 11 k ≠ 0#11 := by
    intro hzero
    have hk := congrArg BitVec.toNat hzero
    simp only [BitVec.toNat_ofNat] at hk
    omega
  have he : ((BitVec.ofNat 11 k).toNat - (Format.binary64.exponentBias + (52 : Nat)) : Int) =
      e := by
    rw [BitVec.toNat_ofNat]
    omega
  simp only [UnpackedFloat.unpack, unpackMantissa_packComponents, unpackExponent_packComponents,
    ofBitVec_unpackSign, if_neg (ofNat_ne_neg_one hk₁), if_neg hk₂, toNat_one_append h, he]

/-- Packing keeps bounds that a double has room for. -/
theorem within_unpack_pack (h : Within M E u) (hE : E ≤ 971) :
    Within M E (UnpackedFloat.unpack .binary64 (UnpackedFloat.pack .binary64 u)) := by
  cases u with
  | notANumber => exact h
  | infinity s => exact h.elim
  | zero s => cases s <;> trivial
  | finite s m e hm =>
    obtain ⟨hmin, he, hle⟩ := h
    by_cases hfull : m.log2 = 52
    · rw [unpack_pack_of_log2 hfull hmin (he.trans hE)]
      exact ⟨hmin, he, hle⟩
    · -- the mantissa is that of the least exponent, whatever the exponent was
      have hbias : (Format.binary64.exponentBias : Int) = 1023 := rfl
      have he' : ((0#11).toNat - (Format.binary64.exponentBias + (52 : Nat)) + 1 : Int) =
          -1074 := by
        rw [hbias]
        rfl
      simp only [UnpackedFloat.pack]
      rw [if_neg (by simp; omega), if_neg (by simpa [Format.mantissaBits, add_comm] using hfull)]
      simp only [UnpackedFloat.unpack, unpackMantissa_packComponents, unpackExponent_packComponents,
        ofBitVec_unpackSign, he']
      rw [if_neg (by decide), if_pos trivial]
      split
      · trivial
      · refine ⟨le_refl _, hmin.trans he, ?_⟩
        rw [BitVec.toNat_ofNat]
        have hpow : 2 ^ (E - e).toNat ≤ 2 ^ (E - -1074).toNat :=
          Nat.pow_le_pow_right (by decide) (by omega)
        calc m % 2 ^ 52 ≤ m := Nat.mod_le _ _
          _ ≤ M * 2 ^ (E - e).toNat := hle
          _ ≤ M * 2 ^ (E - -1074).toNat := Nat.mul_le_mul_left M hpow

/-- Every finite double is so many units of some exponent that doubles have. -/
theorem exists_within_unpack {b : BitVec 64}
    (h : (UnpackedFloat.unpack .binary64 b).isFinite = true) : ∃ M E, M < 2 ^ 53 ∧ -1074 ≤ E ∧
      E ≤ 971 ∧ Within M E (UnpackedFloat.unpack .binary64 b) := by
  have hbias : (Format.binary64.exponentBias : Int) = 1023 := rfl
  have hmantissa : (@unpackMantissa .binary64 b).toNat < 2 ^ 52 := BitVec.isLt _
  have hexponent : (@unpackExponent .binary64 b).toNat < 2048 := BitVec.isLt _
  have hself (k : Nat) (e : Int) : k ≤ k * 2 ^ (e - e).toNat := by simp
  simp only [UnpackedFloat.unpack] at h ⊢
  by_cases hone : @unpackExponent .binary64 b = -1#11
  · rw [if_pos hone] at h
    split at h <;> cases h
  · rw [if_neg hone]
    by_cases hzero : @unpackExponent .binary64 b = 0#11
    · rw [if_pos hzero]
      split
      · exact ⟨0, 0, by decide, by decide, by decide, trivial⟩
      · simp only [hzero, hbias]
        exact ⟨_, _, by omega, by decide, by decide, by decide, le_refl _, hself _ _⟩
    · rw [if_neg hzero]
      have hone' : (@unpackExponent .binary64 b).toNat ≠ 2047 :=
        fun he => hone (BitVec.eq_of_toNat_eq he)
      have hzero' : (@unpackExponent .binary64 b).toNat ≠ 0 :=
        fun he => hzero (BitVec.eq_of_toNat_eq he)
      have hbits : (1#1 ++ @unpackMantissa .binary64 b).toNat < 2 ^ 53 := BitVec.isLt _
      refine ⟨_, _, hbits, ?_, ?_, ?_, le_refl _, hself _ _⟩ <;> omega

end bits
end ClusterMesh.Rounding
