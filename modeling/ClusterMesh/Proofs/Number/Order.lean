import ClusterMesh.Proofs.Number.Rounding

/-! How numbers compare, and which operations give numbers. All but a NaN are in one order, in which
the two zeros are in the same place. -/
namespace ClusterMesh.Rounding
open Float.Model Float.Model.UnpackedFloat

/-- The place of a number among the others: how far it is from zero, by class, exponent and
mantissa. -/
def ordinal : UnpackedFloat → Int ×ₗ Int ×ₗ Int
  | .infinity .negative => toLex (-2, toLex (0, 0))
  | .finite .negative m e _ => toLex (-1, toLex (-e, -m))
  | .finite .positive m e _ => toLex (1, toLex (e, m))
  | .infinity .positive => toLex (2, toLex (0, 0))
  | _ => toLex (0, toLex (0, 0))

section order
variable {u v : UnpackedFloat}

theorem compare_neg (a b : Int) : compare (-a) (-b) = (compare a b).swap := by
  rw [Int.compare_swap]
  simp only [Int.compare_eq_ite_lt, neg_lt_neg_iff]

theorem compare_natCast (a b : Nat) : compare (a : Int) (b : Int) = compare a b := by
  simp only [Int.compare_eq_ite_lt, Nat.compare_eq_ite_lt, Nat.cast_lt]

theorem compare_eq_some (hu : sign? u ≠ none) (hv : sign? v ≠ none) :
    u.compare v = some (compare (ordinal u) (ordinal v)) := by
  cases u with
  | notANumber => exact absurd rfl hu
  | infinity s =>
    cases v with
    | notANumber => exact absurd rfl hv
    | infinity s' => cases s <;> cases s' <;> rfl
    | zero s' => cases s <;> rfl
    | finite s' m' e' h' => cases s <;> cases s' <;> rfl
  | zero s =>
    cases v with
    | notANumber => exact absurd rfl hv
    | infinity s' => cases s' <;> rfl
    | zero s' => rfl
    | finite s' m' e' h' => cases s' <;> rfl
  | finite s m e h =>
    cases v with
    | notANumber => exact absurd rfl hv
    | infinity s' => cases s <;> cases s' <;> rfl
    | zero s' => cases s <;> rfl
    | finite s' m' e' h' =>
      cases s <;> cases s'
      · simp [UnpackedFloat.compare, ordinal, Prod.Lex.compare_def, compareLex, compareOn,
          compare_neg, compare_natCast, Ordering.swap_then]
      · rfl
      · rfl
      · simp [UnpackedFloat.compare, ordinal, Prod.Lex.compare_def, compareLex, compareOn,
          compare_natCast]

/-- Numbers compare by their places. -/
theorem lt_iff_ordinal {x y : Float} (hx : sign? x.toModel.unpack ≠ none)
    (hy : sign? y.toModel.unpack ≠ none) :
    x < y ↔ ordinal x.toModel.unpack < ordinal y.toModel.unpack := by
  have hlt : x < y ↔ (x.toModel.unpack.compare y.toModel.unpack == some .lt) = true :=
    decide_eq_true_iff
  rw [hlt, compare_eq_some hx hy]
  simp [compare_lt_iff_lt]

theorem le_iff_ordinal {x y : Float} (hx : sign? x.toModel.unpack ≠ none)
    (hy : sign? y.toModel.unpack ≠ none) :
    x ≤ y ↔ ordinal x.toModel.unpack ≤ ordinal y.toModel.unpack := by
  have hle : x ≤ y ↔ (x.toModel.unpack.compare y.toModel.unpack).any (·.isLE) = true :=
    decide_eq_true_iff
  rw [hle, compare_eq_some hx hy, Option.any_some]
  exact Ordering.isLE_iff_ne_gt.trans compare_le_iff_le

/-- What is bounded is a number. -/
theorem sign?_of_le {x y : Float} (h : x ≤ y) : sign? x.toModel.unpack ≠ none := by
  have hle : (x.toModel.unpack.compare y.toModel.unpack).any (·.isLE) = true :=
    of_decide_eq_true h
  generalize x.toModel.unpack = u at hle ⊢
  cases u with
  | notANumber => cases hle
  | infinity s => exact Option.some_ne_none s
  | zero s => exact Option.some_ne_none s
  | finite s m e hm => exact Option.some_ne_none s

theorem sign?_of_within {M : Nat} {E : Int} (h : Within M E u) : sign? u ≠ none := by
  cases u with
  | notANumber => exact h.elim
  | infinity s => exact h.elim
  | zero s => exact Option.some_ne_none s
  | finite s m e hm => exact Option.some_ne_none s

end order

/-! ## Signs of results -/

section signs
variable {s : Sign} {m : Nat} {e k : Int} {acc : Accuracy} {u v : UnpackedFloat}

theorem sign?_roundWithAccuracy : sign? (roundWithAccuracy .binary64 s m e acc) = some s := by
  simp only [roundWithAccuracy]
  split <;> rfl

theorem sign?_normalize_ne_none : sign? (UnpackedFloat.normalize .binary64 k e s) ≠ none := by
  simp only [UnpackedFloat.normalize, UnpackedFloat.round]
  split
  · simp [sign?_roundWithAccuracy]
  · simp [sign?]
  · simp [sign?_roundWithAccuracy]

theorem sign?_normalize (h : 0 ≤ k) :
    sign? (UnpackedFloat.normalize .binary64 k e .positive) = some .positive := by
  simp only [UnpackedFloat.normalize, UnpackedFloat.round]
  split
  · next hk =>
    rw [Int.compare_eq_lt] at hk
    omega
  · rfl
  · exact sign?_roundWithAccuracy

/-- The difference of finite numbers is a number. -/
theorem sign?_sub_ne_none (hu : u.isFinite = true) (hv : v.isFinite = true) :
    sign? (UnpackedFloat.sub .binary64 u v) ≠ none := by
  cases u with
  | notANumber => cases hu
  | infinity s => cases hu
  | zero s =>
    cases v with
    | notANumber => cases hv
    | infinity s' => cases hv
    | zero s' =>
      simp only [UnpackedFloat.sub]
      split <;> simp [sign?]
    | finite s' m' e' h' => simp [UnpackedFloat.sub, sign?]
  | finite s m e h =>
    cases v with
    | notANumber => cases hv
    | infinity s' => cases hv
    | zero s' => simp [UnpackedFloat.sub, sign?]
    | finite s' m' e' h' => exact sign?_normalize_ne_none

/-- The square of a number is a number that is not negative. -/
theorem sign?_mul_self (h : sign? u ≠ none) :
    sign? (UnpackedFloat.mul .binary64 u u) = some .positive := by
  cases u with
  | notANumber => exact absurd rfl h
  | infinity s => cases s <;> rfl
  | zero s => cases s <;> rfl
  | finite s m e hm =>
    simp only [UnpackedFloat.mul, sign?_roundWithAccuracy]
    cases s <;> rfl

/-- Numbers that are not negative add up. -/
theorem sign?_add (hu : sign? u = some .positive) (hv : sign? v = some .positive) :
    sign? (UnpackedFloat.add .binary64 u v) = some .positive := by
  cases u with
  | notANumber => cases hu
  | infinity s =>
    cases hu
    cases v with
    | notANumber => cases hv
    | infinity s' =>
      cases hv
      rfl
    | zero s' => rfl
    | finite s' m' e' h' => rfl
  | zero s =>
    cases hu
    cases v with
    | notANumber => cases hv
    | infinity s' => exact hv
    | zero s' =>
      cases hv
      rfl
    | finite s' m' e' h' => exact hv
  | finite s m e h =>
    cases hu
    cases v with
    | notANumber => cases hv
    | infinity s' => exact hv
    | zero s' => rfl
    | finite s' m' e' h' =>
      cases hv
      refine sign?_normalize ?_
      exact Int.add_nonneg (Int.natCast_nonneg _) (Int.natCast_nonneg _)

/-- And they have square roots. -/
theorem sign?_sqrt (h : sign? u = some .positive) :
    sign? (UnpackedFloat.sqrt .binary64 u) = some .positive := by
  cases u with
  | notANumber => cases h
  | infinity s =>
    cases h
    rfl
  | zero s => exact h
  | finite s m e hm =>
    cases h
    exact sign?_roundWithAccuracy

end signs
end ClusterMesh.Rounding
