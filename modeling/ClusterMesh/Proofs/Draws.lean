import ClusterMesh.Net.World
import ClusterMesh.Proofs.Airtime
import ClusterMesh.Proofs.Number.Order
import ClusterMesh.Relay.Policy

/-! Draws against certainty. A draw on the unit interval is a word over the largest word. So it is
below one but for the largest word, and what is certain fails there, and nowhere else. A word of
sixty-four bits is rounded to a double first, which makes the largest one of the last 1024. -/
namespace ClusterMesh
open Rounding Float.Model Float.Model.UnpackedFloat

/-! ## Quotients below one -/

section quotients
variable {x y : Float} {M m : Nat} {E e : Int} {s : Sign} {hm : 0 < m}

/-- What has no more than the units below one is below one. -/
theorem lt_one_of_within (h : Within (2 ^ 53 - 1) (-53) x.toModel.unpack) : x < 1.0 := by
  have hone : (1.0 : Float).toModel.unpack =
      .finite .positive (2 ^ 52) (-52) (by decide) := rfl
  rw [lt_iff_ordinal (sign?_of_within h) (by rw [hone]; exact Option.some_ne_none _), hone]
  generalize x.toModel.unpack = u at h
  cases u with
  | notANumber => exact h.elim
  | infinity s => exact h.elim
  | zero s => exact Prod.Lex.toLex_lt_toLex.2 (.inl (by decide))
  | finite s m e hm =>
    cases s with
    | negative => exact Prod.Lex.toLex_lt_toLex.2 (.inl (by decide : (-1 : Int) < 1))
    | positive =>
      have he : e < -52 := by
        have := h.2.1
        omega
      exact Prod.Lex.toLex_lt_toLex.2 (.inr ⟨rfl, Prod.Lex.toLex_lt_toLex.2 (.inl he)⟩)

theorem quotient_lt_one (hx : Within M E x.toModel.unpack) (hy : y.toModel.unpack = .finite s m e hm)
    (he : e ≤ E + 53) (h : M * 2 ^ (E - e + 53).toNat ≤ (2 ^ 53 - 1) * m) : x / y < 1.0 := by
  refine lt_one_of_within (within_unpack_pack ?_ (by decide))
  rw [hy]
  exact within_div_of_le (by decide) (by decide) hx (by omega) h

end quotients

/-! ## Draws below one -/

/-- The draw of a word of 32 bits is below one but for the largest word. -/
theorem word_div_lt_one_iff (w : UInt32) :
    w.toFloat / (0xffffffff : UInt32).toFloat < 1.0 ↔ w ≠ 0xffffffff := by
  constructor
  · rintro h rfl
    exact absurd h (by decide)
  · intro h
    have hlt : w.toNat ≤ 2 ^ 32 - 2 := by
      have hw := w.toNat_lt
      have hne : w.toNat ≠ 2 ^ 32 - 1 := fun he => h (UInt32.toNat_inj.1 he)
      omega
    have hlargest : (0xffffffff : UInt32).toFloat.toModel.unpack =
        .finite .positive ((2 ^ 32 - 1) * 2 ^ 21) (-21) (by decide) := rfl
    have hword : Within ((2 ^ 32 - 2) * 2 ^ 21) (-21) w.toFloat.toModel.unpack := by
      refine within_unpack_pack (within_ofNat (by decide) (by decide) ?_) (by decide)
      exact Nat.mul_le_mul_right (2 ^ 21) hlt
    exact quotient_lt_one hword hlargest (by decide) (by decide)

section words
variable {n : Nat}

/-- A word with its highest bit set keeps its upper 53 bits. -/
theorem shiftToTargetExponent_of_high (hlow : 2 ^ 63 ≤ n) (hhigh : n < 2 ^ 64) :
    shiftToTargetExponent .binary64 n 0 .exact =
      (ExtendedMantissa.ofMantissaAndAccuracy n .exact >>> 11, 11) := by
  have hlog : n.log2 = 63 := (Nat.log2_eq_iff (by omega)).2 ⟨hlow, hhigh⟩
  simp only [shiftToTargetExponent, totalExponent, hlog]
  rfl

theorem ofNat_of_high (hlow : 2 ^ 63 ≤ n) (hhigh : n < 2 ^ 64) :
    UnpackedFloat.ofNat .binary64 n =
      roundWithAccuracy .binary64 .positive n 0 .exact := by
  have hlog : n.log2 = 63 := (Nat.log2_eq_iff (by omega)).2 ⟨hlow, hhigh⟩
  have hpos : compare (n : Int) 0 = .gt := Int.compare_eq_gt.2 (by omega)
  simp only [UnpackedFloat.ofNat, UnpackedFloat.ofInt, UnpackedFloat.normalize, hpos,
    UnpackedFloat.round, Int.toNat_natCast, totalExponent, hlog]
  rfl

/-- A word is rounded down unless it is one of the last 1024. -/
theorem within_ofNat_of_lt (h : n < 2 ^ 64 - 1024) :
    Within (2 ^ 53 - 1) 11 (UnpackedFloat.ofNat .binary64 n) := by
  by_cases hexact : n ≤ (2 ^ 53 - 1) * 2 ^ 11
  · refine within_ofNat (by decide) (by decide) ?_
    exact (Nat.mul_one n).trans_le hexact
  · rw [ofNat_of_high (by omega) (by omega)]
    refine within_of_roundedMantissa_le (by decide) (by decide)
      (shiftToTargetExponent_of_high (by omega) (by omega)) (by decide) (roundedMantissa_le ?_)
    rw [mantissa_shiftRight, roundBit_shiftRight_succ, mantissa_ofMantissaAndAccuracy]
    have hupper : n / 2 ^ 11 = 2 ^ 53 - 1 := by omega
    have hhalf : n / 2 ^ 10 % 2 = 0 := by omega
    exact .inr ⟨hupper, by rw [hhalf]; rfl⟩

/-- And then it is rounded up. -/
theorem ofNat_of_last (h : 2 ^ 64 - 1024 ≤ n) (hn : n < 2 ^ 64) :
    UnpackedFloat.ofNat .binary64 n = .finite .positive (2 ^ 52) 12 (by decide) := by
  have hrounded : (ExtendedMantissa.ofMantissaAndAccuracy n .exact >>> 11).roundedMantissa =
      2 ^ 53 := by
    have hupper : (ExtendedMantissa.ofMantissaAndAccuracy n .exact >>> 11).mantissa =
        2 ^ 53 - 1 := by
      rw [mantissa_shiftRight, mantissa_ofMantissaAndAccuracy]
      omega
    have hhalf : (ExtendedMantissa.ofMantissaAndAccuracy n .exact >>> 11).roundBit = true := by
      rw [roundBit_shiftRight_succ, mantissa_ofMantissaAndAccuracy, bne_iff_ne]
      omega
    rw [roundedMantissa_of_odd hhalf (by rw [hupper]; rfl), hupper]
    rfl
  rw [ofNat_of_high (by omega) hn]
  simp only [roundWithAccuracy, shiftToTargetExponent_of_high (by omega : 2 ^ 63 ≤ n) hn, hrounded]
  rfl

/-- The draw of a word of 64 bits is below one but for the last 1024 words. -/
theorem long_div_lt_one_iff (w : UInt64) :
    w.toFloat / (0xffffffffffffffff : UInt64).toFloat < 1.0 ↔
      w.toNat < 18446744073709550592 := by
  have hlargest : (0xffffffffffffffff : UInt64).toFloat.toModel.unpack =
      .finite .positive (2 ^ 52) 12 (by decide) := rfl
  constructor
  · intro h
    by_contra hlast
    have hw : w.toFloat = (0xffffffffffffffff : UInt64).toFloat := by
      have hmodel : UnpackedFloat.ofNat .binary64 w.toNat =
          UnpackedFloat.ofNat .binary64 (0xffffffffffffffff : UInt64).toNat :=
        (ofNat_of_last (by omega) w.toNat_lt).trans rfl
      exact congrArg (fun u => Float.ofModel (Float.Model.pack u)) hmodel
    rw [hw] at h
    exact absurd h (by decide)
  · intro h
    have hword : Within (2 ^ 53 - 1) 11 w.toFloat.toModel.unpack :=
      within_unpack_pack (within_ofNat_of_lt h) (by decide)
    exact quotient_lt_one hword hlargest (by decide) (by decide)

end words

/-! ## What is certain -/

namespace Relay
variable {crowding : Float}

theorem clampUnit_le_quiet (h : crowding ≤ quietCrowding) : clampUnit crowding ≤ quietCrowding := by
  have hquiet : sign? quietCrowding.toModel.unpack ≠ none := by decide
  have hone : sign? (1.0 : Float).toModel.unpack ≠ none := by decide
  have hlow : ordinal quietCrowding.toModel.unpack < ordinal (1.0 : Float).toModel.unpack := by
    decide
  have hnot : ¬ 1.0 < crowding := by
    rw [lt_iff_ordinal hone (sign?_of_le h)]
    exact ((le_iff_ordinal (sign?_of_le h) hquiet).1 h).trans hlow.le |>.not_gt
  by_cases hneg : crowding < 0.0
  · simp only [clampUnit, if_pos hneg]
    decide
  · simp only [clampUnit, if_neg hneg, if_neg hnot]
    exact h

theorem probability_of_quiet (h : crowding ≤ quietCrowding) (direct : Nat) :
    probability crowding direct = 1.0 :=
  if_pos (clampUnit_le_quiet h)

/-- In quiet air a packet without a position is relayed unless the word drawn is the largest. -/
theorem accepts_of_quiet {p : Packet} (hlife : p.life ≠ 0) (hposition : p.position = none)
    (h : crowding ≤ quietCrowding) (here : Option Position) (proximity : Float) (direct : Nat)
    (g : Xorshift32) :
    (accepts p here crowding proximity direct g).1 = true ↔
      (Generator.next g).1 ≠ 0xffffffff := by
  have hcovers : addsCoverage here none proximity = true := by
    cases here <;> rfl
  simp only [accepts, if_neg hlife, winsDraw, probability_of_quiet h, hposition, hcovers,
    Bool.and_true, decide_eq_true_eq]
  exact word_div_lt_one_iff _

end Relay

namespace Airtime
variable {a : Airtime}

structure Silent (a : Airtime) : Prop where
  noisy : a.pattern = .noisy
  ratio : a.listenRatio = 1.0

/-- It listens in the next slot unless the word drawn there is the largest. -/
theorem Silent.advance (h : a.Silent) :
    a.advance.Silent ∧ a.advance.dice.state = Lcg32.step a.dice.state ∧
      (a.advance.broadcasting = true ↔ Lcg32.step a.dice.state = 0xffffffff) := by
  have hspent : a.turn.isSpent = false := by simp [isSpent, turn, h.noisy]
  have hratio : a.turn.listenRatio = 1.0 := h.ratio
  have hlistens : (Generator.nextUnit a.dice).1 < 1.0 ↔ Lcg32.step a.dice.state ≠ 0xffffffff :=
    word_div_lt_one_iff _
  have hdice : Generator.nextUnit a.turn.dice =
      ((Generator.nextUnit a.dice).1, (Generator.nextUnit a.dice).2) := rfl
  rw [advance_eq hdice, hspent, hratio]
  simp only [Bool.false_or, decide_eq_true_eq]
  split
  · next hdraw =>
    refine ⟨⟨h.noisy, h.ratio⟩, rfl, ?_⟩
    simpa [listen] using hlistens.1 hdraw
  · next hdraw =>
    refine ⟨⟨h.noisy, h.ratio⟩, rfl, ?_⟩
    simpa [broadcast] using not_not.1 (mt hlistens.2 hdraw)

theorem Silent.iterate (h : a.Silent) (n : Nat) :
    (Airtime.advance^[n] a).Silent ∧
      (Airtime.advance^[n] a).dice.state = Lcg32.step^[n] a.dice.state := by
  induction n with
  | zero => exact ⟨h, rfl⟩
  | succ n ih =>
    obtain ⟨hsilent, hdice⟩ := ih
    obtain ⟨hsilent', hdice', -⟩ := hsilent.advance
    rw [Function.iterate_succ_apply', Function.iterate_succ_apply', hdice', hdice]
    exact ⟨hsilent', rfl⟩

/-- So it listens in all slots but those for which the largest word is drawn. -/
theorem Silent.broadcasting_iterate (h : a.Silent) (n : Nat) :
    (Airtime.advance^[n + 1] a).broadcasting = true ↔
      Lcg32.step^[n + 1] a.dice.state = 0xffffffff := by
  obtain ⟨hsilent, hdice⟩ := h.iterate n
  rw [Function.iterate_succ_apply', Function.iterate_succ_apply', ← hdice]
  exact hsilent.advance.2.2

end Airtime

namespace Net.World

/-- A link that loses every frame delivers one when the word drawn is one of the last. -/
theorem survives_of_loss {l : Link} (h : l.loss = 1.0) (w : World) :
    (w.survives l).1 = true ↔ 2 ^ 64 - 1024 ≤ (lcg64Step w.lossState).toNat := by
  have hloss : 0.0 < (1.0 : Float) := by decide
  have hlost : w.draw.1 < 1.0 ↔ (lcg64Step w.lossState).toNat < 2 ^ 64 - 1024 :=
    long_div_lt_one_iff _
  simp only [survives, h, if_pos hloss]
  split
  · next hdraw =>
    simpa using hlost.1 hdraw
  · next hdraw =>
    simpa using mt hlost.2 hdraw

end Net.World

/-- Draws on the unit interval are below one but for the largest words. What is certain fails on
these words and on no others: that quiet air relays a packet without a position, that a schedule
listens in every slot, and that a link loses every frame. -/
theorem certainty_fails_iff (g : Xorshift32) (dice : Lcg32) (w : Net.World) :
    ((Generator.nextUnit g).1 < 1.0 ↔ (Generator.next g).1 ≠ 0xffffffff) ∧
    ((Generator.nextUnit dice).1 < 1.0 ↔ (Generator.next dice).1 ≠ 0xffffffff) ∧
    (w.draw.1 < 1.0 ↔ (lcg64Step w.lossState).toNat < 2 ^ 64 - 1024) ∧
    (∀ (p : Packet) (here : Option Position) (crowding proximity : Float) (direct : Nat),
      p.life ≠ 0 → p.position = none → crowding ≤ 0.1 →
        ((Relay.accepts p here crowding proximity direct g).1 = false ↔
          (Generator.next g).1 = 0xffffffff)) ∧
    (∀ (a : Airtime) (n : Nat), a.pattern = .noisy → a.listenRatio = 1.0 → a.dice = dice →
      ((Airtime.advance^[n + 1] a).broadcasting = true ↔
        Lcg32.step^[n + 1] dice.state = 0xffffffff)) ∧
    ∀ l : Net.Link, l.loss = 1.0 →
      ((w.survives l).1 = true ↔ 2 ^ 64 - 1024 ≤ (lcg64Step w.lossState).toNat) := by
  refine ⟨word_div_lt_one_iff _, word_div_lt_one_iff _, long_div_lt_one_iff _, ?_, ?_,
    fun l h => Net.World.survives_of_loss h w⟩
  · intro p here crowding proximity direct hlife hposition hquiet
    rw [← Bool.not_eq_true, Relay.accepts_of_quiet hlife hposition hquiet, not_not]
  · rintro a n hnoisy hratio rfl
    exact Airtime.Silent.broadcasting_iterate ⟨hnoisy, hratio⟩ n

/-- The default generators keep to what is certain at first. -/
theorem certainty_holds_at_default :
    let g := Xorshift32.ofSeed 0
    let a := Airtime.make .noisy none 10 (some 1.0)
    let w := Net.World.ofSeed 42
    ((10 : UInt8) ≠ 0 ∧ (0.0 : Float) ≤ 0.1 ∧ a.pattern = .noisy ∧ a.listenRatio = 1.0) ∧
      (Generator.nextUnit g).1 < 1.0 ∧
      (Relay.accepts { sender := 1 } none 0.0 10.0 0 g).1 = true ∧
      (Airtime.advance^[3] a).broadcasting = false ∧
      (w.survives { loss := 1.0 }).1 = false := by
  intro g a w
  obtain ⟨hdraw, -, -, hrelay, hlisten, hlose⟩ := certainty_fails_iff g a.dice w
  have hword : (Generator.next g).1 ≠ 0xffffffff := by decide
  have hquiet : (0.0 : Float) ≤ 0.1 := by decide
  refine ⟨⟨by decide, hquiet, rfl, rfl⟩, hdraw.2 hword, ?_, ?_, ?_⟩
  · rw [← Bool.not_eq_false, hrelay _ none 0.0 10.0 0 (by decide) rfl hquiet]
    exact hword
  · rw [← Bool.not_eq_true, hlisten a 2 rfl rfl rfl]
    decide
  · rw [← Bool.not_eq_true, hlose { loss := 1.0 } rfl]
    decide

/-- From these seeds the first word drawn is the largest. -/
theorem certainty_fails_at_seeds :
    let g := Xorshift32.ofSeed 1584200935
    let a := (Airtime.make .noisy none 10 (some 1.0)).reseed 653637408
    let w := Net.World.ofSeed 9137839865990459062
    ((Generator.nextUnit g).1 = 1.0 ∧ (0.0 : Float) ≤ 0.1 ∧
        (Relay.accepts { sender := 1 } none 0.0 10.0 0 g).1 = false) ∧
      ((Generator.nextUnit a.dice).1 = 1.0 ∧ a.pattern = .noisy ∧ a.listenRatio = 1.0 ∧
        a.advance.broadcasting = true) ∧
      w.draw.1 = 1.0 ∧ (w.survives { loss := 1.0 }).1 = true := by
  decide +kernel

end ClusterMesh
