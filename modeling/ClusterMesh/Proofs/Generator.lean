import ClusterMesh.Generator
import ClusterMesh.Proofs.Number.Quotient
import Mathlib.Data.FinEnum
import Mathlib.Dynamics.PeriodicPts.Lemmas

/-! Generators through any draws. A step of either generator on 32-bit words can be taken back. So
generators in different states never meet, however much is drawn from them, and the states of one
generator go round in a circle. The xorshift generator never comes to zero. -/
namespace ClusterMesh
open Function

namespace Generator

inductive Draw
  | word
  | unit

inductive Op
  | draw (d : Draw)
  | reseed (seed : UInt32)

section
variable {γ : Type} [Generator γ]

def draw (g : γ) : Draw → γ
  | .word => (next g).2
  | .unit => (nextUnit g).2

def step (g : γ) : Op → γ
  | .draw d => draw g d
  | .reseed seed => reseed seed g

def run (g : γ) (ops : List Op) : γ := ops.foldl step g

end

def drawing (ds : List Draw) : List Op := ds.map .draw

end Generator

/-! ## Steps that can be taken back -/

section words
variable {part : UInt32 → UInt32} {a b k : UInt32} {n : Nat}

/-- What two words with the same sum differ by is its own part. If the part of a part wears off in
the end, that is nothing. -/
theorem injective_xor_part (hpart : ∀ x y, part (x ^^^ y) = part x ^^^ part y)
    (hn : ∀ x, part^[n] x = 0) : Injective fun x => x ^^^ part x := by
  intro x y h
  have hsum : x ^^^ part x = y ^^^ part y := h
  have hfixed : part (x ^^^ y) = x ^^^ y := by
    rw [hpart, ← UInt32.xor_eq_zero_iff]
    calc part x ^^^ part y ^^^ (x ^^^ y) = (x ^^^ part x) ^^^ (y ^^^ part y) := by ac_rfl
      _ = 0 := UInt32.xor_eq_zero_iff.2 hsum
  rw [← UInt32.xor_eq_zero_iff, ← hn (x ^^^ y), iterate_fixed hfixed]

/-- A part that is shifted, whichever way, wears off. -/
theorem iterate_eq_zero {f : Nat → BitVec 32 → BitVec 32} {p : Nat} (hp : 0 < p)
    (hpart : ∀ x, (part x).toBitVec = f p x.toBitVec) (hzero : ∀ x, f 0 x = x)
    (hadd : ∀ m n x, f (m + n) x = f n (f m x)) (hout : ∀ n x, 32 ≤ n → f n x = 0)
    (x : UInt32) : part^[32] x = 0 := by
  have hiterate (n : Nat) : (part^[n] x).toBitVec = f (n * p) x.toBitVec := by
    induction n with
    | zero => rw [Nat.zero_mul, hzero, iterate_zero_apply]
    | succ n ih => rw [iterate_succ_apply', hpart, ih, Nat.succ_mul, hadd]
  rw [← UInt32.toBitVec_inj, hiterate]
  exact hout _ _ (by omega)

section shifts
variable (hk : 0 < k.toNat) (hk' : k.toNat < 32)
include hk hk'

theorem injective_xor_shiftLeft : Injective fun x : UInt32 => x ^^^ x <<< k := by
  have hshift (x : UInt32) : (x <<< k).toBitVec = x.toBitVec <<< k.toNat := by
    simp [UInt32.toBitVec_shiftLeft, Nat.mod_eq_of_lt hk']
  have hzero := iterate_eq_zero (f := fun n x => x <<< n) hk hshift BitVec.shiftLeft_zero
    (fun m n x => BitVec.shiftLeft_add x m n) fun n x => BitVec.shiftLeft_eq_zero
  exact injective_xor_part (fun _ _ => UInt32.shiftLeft_xor) hzero

theorem injective_xor_shiftRight : Injective fun x : UInt32 => x ^^^ x >>> k := by
  have hshift (x : UInt32) : (x >>> k).toBitVec = x.toBitVec >>> k.toNat := by
    simp [UInt32.toBitVec_shiftRight, Nat.mod_eq_of_lt hk']
  have hzero := iterate_eq_zero (f := fun n x => x >>> n) hk hshift BitVec.ushiftRight_zero
    (fun m n x => BitVec.shiftRight_add x m n) fun n x => BitVec.ushiftRight_eq_zero
  exact injective_xor_part (fun _ _ => UInt32.shiftRight_xor) hzero

end shifts

/-- A factor with an inverse can be divided out. -/
theorem injective_mul (h : b * a = 1) : Injective (a * ·) := by
  refine LeftInverse.injective (g := (b * ·)) fun x => ?_
  show b * (a * x) = x
  rw [← UInt32.mul_assoc, h, UInt32.one_mul]

end words

/-- What a step that can be taken back leads to comes round again, and meets nothing twice before
that. -/
theorem exists_period {α : Type} [Finite α] {f : α → α} (h : Injective f) (x : α) :
    ∃ p, 0 < p ∧ ∀ m n, f^[m] x = f^[n] x ↔ m ≡ n [MOD p] := by
  have hpos := minimalPeriod_pos_of_mem_periodicPts (h.mem_periodicPts x)
  refine ⟨minimalPeriod f x, hpos, fun m n => ?_⟩
  rw [← iterate_mod_minimalPeriod_eq (n := m), ← iterate_mod_minimalPeriod_eq (n := n),
    iterate_eq_iterate_iff_of_lt_minimalPeriod (Nat.mod_lt _ hpos) (Nat.mod_lt _ hpos)]
  rfl

namespace Lcg32

theorem bijective_step : Bijective step := by
  have hmul : Injective ((1664525 : UInt32) * ·) := injective_mul (b := 4276115653) (by decide)
  refine Finite.injective_iff_bijective.1 fun x y h => hmul ?_
  exact (UInt32.add_left_inj 1013904223).1 h

end Lcg32

namespace Xorshift32

theorem injective_step : Injective step := by
  have hfirst := injective_xor_shiftLeft (k := 13) (by decide) (by decide)
  have hsecond := injective_xor_shiftRight (k := 17) (by decide) (by decide)
  have hthird := injective_xor_shiftLeft (k := 5) (by decide) (by decide)
  exact hthird.comp (hsecond.comp hfirst)

theorem step_ne_zero {s : UInt32} (h : s ≠ 0) : step s ≠ 0 :=
  fun hstep => h (injective_step (hstep.trans (by decide : 0 = step 0)))

theorem ofSeed_ne_zero (seed : UInt32) : (ofSeed seed).state ≠ 0 := by
  unfold ofSeed
  dsimp only
  split
  · decide
  · assumption

theorem state_draw (g : Xorshift32) (d : Generator.Draw) :
    (Generator.draw g d).state = step g.state := by
  cases d <;> rfl

theorem state_run_ne_zero {g : Xorshift32} (h : g.state ≠ 0) (ops : List Generator.Op) :
    (Generator.run g ops).state ≠ 0 := by
  induction ops generalizing g with
  | nil => exact h
  | cons op ops ih =>
    refine ih ?_
    cases op with
    | draw d =>
      rw [Generator.step, state_draw]
      exact step_ne_zero h
    | reseed seed => exact ofSeed_ne_zero seed

theorem state_run_drawing (g : Xorshift32) (ds : List Generator.Draw) :
    (Generator.run g (Generator.drawing ds)).state = step^[ds.length] g.state := by
  induction ds generalizing g with
  | nil => rfl
  | cons d ds ih =>
    refine (ih (Generator.draw g d)).trans ?_
    rw [state_draw]
    rfl

/-- Whatever it is seeded with, and however often, the generator is never at zero and draws no
zero. Generators in different states are in different states after equally many draws, and the
states of each come round again after some number of draws, and none of them before that. -/
theorem never_gets_stuck :
    (∀ (seed : UInt32) (ops : List Generator.Op),
      let g := Generator.run (ofSeed seed) ops
      g.state ≠ 0 ∧ (Generator.next g).1 ≠ 0 ∧ 0.0 < (Generator.nextUnit g).1) ∧
    Injective step ∧
    (∀ g h : Xorshift32, g.state ≠ h.state →
      ∀ ds es : List Generator.Draw, ds.length = es.length →
        (Generator.run g (Generator.drawing ds)).state ≠
          (Generator.run h (Generator.drawing es)).state) ∧
    ∀ g : Xorshift32, ∃ p, 0 < p ∧ ∀ ds es : List Generator.Draw,
      (Generator.run g (Generator.drawing ds)).state =
        (Generator.run g (Generator.drawing es)).state ↔ ds.length ≡ es.length [MOD p] := by
  refine ⟨fun seed ops => ?_, injective_step, fun g h hne ds es hlength => ?_, fun g => ?_⟩
  · have hstate := state_run_ne_zero (ofSeed_ne_zero seed) ops
    generalize Generator.run (ofSeed seed) ops = g at hstate ⊢
    have hnext : (Generator.next g).1 ≠ 0 := step_ne_zero hstate
    exact ⟨hstate, hnext, Rounding.zero_lt_of_atLeast (Rounding.atLeast_word_div hnext)⟩
  · rw [state_run_drawing, state_run_drawing, hlength]
    exact (injective_step.iterate _).ne hne
  · obtain ⟨p, hpos, hperiod⟩ := exists_period injective_step g.state
    refine ⟨p, hpos, fun ds es => ?_⟩
    rw [state_run_drawing, state_run_drawing]
    exact hperiod _ _

/-- Zero as a seed is replaced at the start and when it comes again. -/
theorem never_gets_stuck_seed_zero :
    let again := Generator.run (ofSeed 0) [.draw .unit, .reseed 0, .draw .word]
    let g := ofSeed 0
    let h := ofSeed 1
    let ds := [.word, .unit]
    let es := [.unit, .word]
    again.state = step fallback ∧ again.state ≠ 0 ∧ 0.0 < (Generator.nextUnit again).1 ∧
      g.state ≠ h.state ∧ ds.length = es.length ∧
      (Generator.run g (Generator.drawing ds)).state ≠
        (Generator.run h (Generator.drawing es)).state := by
  intro again g h ds es
  have hne : g.state ≠ h.state := by decide
  obtain ⟨hnonzero, -, hapart, -⟩ := never_gets_stuck
  obtain ⟨hstate, -, hunit⟩ := hnonzero 0 [.draw .unit, .reseed 0, .draw .word]
  exact ⟨rfl, hstate, hunit, hne, rfl, hapart g h hne ds es rfl⟩

end Xorshift32
end ClusterMesh
