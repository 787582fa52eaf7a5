import ClusterMesh.Proofs.Airtime
import ClusterMesh.Proofs.Number.Whole

/-! The shares that a schedule tells of its past: of its transmissions those that succeeded, and of
its slots those that it listened in. Each counter stops at the largest word, but the sum of two of
them does not. So a share is right as long as no more was counted than a word holds, or all of it
was of one kind. -/
namespace ClusterMesh.Airtime
open Rounding

/-! ## A share and its sum -/

section share
variable {part other : UInt32}

/-- A part of the sum of two counts, with the sum taken in whole numbers. There is no result where
the sum leaves its word. -/
def checkedShare (part other : UInt32) : Option Float := do
  let total ← Checked.below Checked.word (part.toNat + other.toNat)
  pure (if total = 0 then 0.0 else part.toFloat / (UInt32.ofNat total).toFloat)

theorem checkedShare_eq_none (h : Checked.word ≤ part.toNat + other.toNat) :
    checkedShare part other = none := by
  rw [checkedShare, Checked.below, if_neg (Nat.not_lt.2 h)]
  rfl

theorem toNat_add_of_fits (h : part.toNat + other.toNat < Checked.word) :
    (part + other).toNat = part.toNat + other.toNat :=
  (UInt32.toNat_add ..).trans (Nat.mod_eq_of_lt h)

theorem checkedShare_eq (h : part.toNat + other.toNat < Checked.word) :
    checkedShare part other = some (share part other) := by
  have hsum : UInt32.ofNat (part.toNat + other.toNat) = part + other := by
    rw [UInt32.ofNat_add, UInt32.ofNat_toNat, UInt32.ofNat_toNat]
  have hzero : part.toNat + other.toNat = 0 ↔ part + other = 0 := by
    rw [← UInt32.toNat_inj, toNat_add_of_fits h]
    rfl
  rw [checkedShare, Checked.bind_eq (Checked.below_eq h), hsum]
  simp only [hzero]
  rfl

theorem checkedShare_isSome_iff :
    (checkedShare part other).isSome ↔ part.toNat + other.toNat < Checked.word := by
  constructor
  · intro h
    by_contra hword
    rw [checkedShare_eq_none (Nat.not_lt.1 hword)] at h
    cases h
  · intro h
    rw [checkedShare_eq h]
    rfl

/-- As long as the sum fits, a share is between nothing and one. -/
theorem share_mem_unit (h : part.toNat + other.toNat < Checked.word) :
    0.0 ≤ share part other ∧ share part other ≤ 1.0 := by
  simp only [share]
  split
  · decide
  · next hne =>
    refine part_div_whole ?_ hne
    rw [UInt32.le_iff_toNat_le, toNat_add_of_fits h]
    exact Nat.le_add_right ..

/-- The sum of two counters leaves its word with the first count that it has no room for, unless
one of them counted nothing. -/
theorem fits_iff {p o : Nat} (hp : Shows part p) (ho : Shows other o) :
    part.toNat + other.toNat < Checked.word ↔ p = 0 ∨ o = 0 ∨ p + o ≤ 0xffffffff := by
  unfold Shows at hp ho
  unfold Checked.word
  omega

theorem checkedShare_of_shows {p o : Nat} (hp : Shows part p) (ho : Shows other o) :
    ((checkedShare part other).isSome ↔ p = 0 ∨ o = 0 ∨ p + o ≤ 0xffffffff) ∧
    ∀ x, checkedShare part other = some x → x = share part other ∧ 0.0 ≤ x ∧ x ≤ 1.0 := by
  refine ⟨checkedShare_isSome_iff.trans (fits_iff hp ho), fun x hx => ?_⟩
  have hfits := checkedShare_isSome_iff.1 (Option.isSome_of_eq_some hx)
  obtain rfl := Option.some.inj ((checkedShare_eq hfits).symm.trans hx)
  exact ⟨rfl, share_mem_unit hfits⟩

end share

def checkedSuccessRate (a : Airtime) : Option Float := checkedShare a.successes a.failures

def checkedListenShare (a : Airtime) : Option Float := checkedShare a.listenSlots a.broadcastSlots

/-! ## Outcomes of transmissions -/

def Op.succeeds : Op → Bool
  | .recordSuccess => true
  | _ => false

def Op.fails : Op → Bool
  | .recordFailure => true
  | _ => false

structure Outcomes (a : Airtime) (successes failures : Nat) : Prop where
  successes : Shows a.successes successes
  failures : Shows a.failures failures

theorem outcomes_make (pattern : Pattern) (slots? : Option UInt32) (slotMs : UInt32)
    (ratio? : Option Float) : (make pattern slots? slotMs ratio?).Outcomes 0 0 := by
  cases pattern <;> exact ⟨rfl, rfl⟩

theorem Outcomes.step {a : Airtime} {s f : Nat} (h : a.Outcomes s f) (op : Op) :
    (a.step op).Outcomes (s + if op.succeeds then 1 else 0) (f + if op.fails then 1 else 0) := by
  cases op with
  | advance =>
    have hadvances := a.advances_advance
    unfold Airtime.step
    generalize a.advance = b at hadvances
    cases hadvances <;> exact ⟨h.successes, h.failures⟩
  | setCrowding crowding =>
    unfold Airtime.step Airtime.setCrowding fit
    cases a.pattern <;> exact ⟨h.successes, h.failures⟩
  | recordSuccess => exact ⟨h.successes.succSat, h.failures⟩
  | recordFailure =>
    unfold Airtime.step recordFailure
    dsimp only
    split <;> exact ⟨h.successes, h.failures.succSat⟩
  | _ => exact ⟨h.successes, h.failures⟩

theorem Outcomes.run {a : Airtime} {s f : Nat} (h : a.Outcomes s f) (ops : List Op) :
    (a.run ops).Outcomes (s + ops.countP Op.succeeds) (f + ops.countP Op.fails) := by
  induction ops generalizing a s f with
  | nil => exact h
  | cons op ops ih =>
    have hops := ih (h.step op)
    rw [Nat.add_assoc, Nat.add_assoc, Nat.add_comm _ (ops.countP _), Nat.add_comm _ (ops.countP _)]
      at hops
    rw [List.countP_cons, List.countP_cons]
    exact hops

/-! ## Shares of a run -/

/-- The shares that a schedule of any kind tells after any calls of its host. A share has a result
exactly if its counts fit into one word together, or one of them is zero. It is then the share that
is told, and between nothing and one. -/
theorem shares_hold_iff (pattern : Pattern) (slots? : Option UInt32) (slotMs : UInt32)
    (ratio? : Option Float) (ops : List Op) :
    let start := make pattern slots? slotMs ratio?
    let a := start.run ops
    let successes := ops.countP Op.succeeds
    let failures := ops.countP Op.fails
    let listens := total listensOf start ops
    let broadcasts := total broadcastsOf start ops
    (a.checkedSuccessRate.isSome ↔
      successes = 0 ∨ failures = 0 ∨ successes + failures ≤ 0xffffffff) ∧
    (∀ x, a.checkedSuccessRate = some x → x = a.successRate ∧ 0.0 ≤ x ∧ x ≤ 1.0) ∧
    (a.checkedListenShare.isSome ↔
      listens = 0 ∨ broadcasts = 0 ∨ listens + broadcasts ≤ 0xffffffff) ∧
    ∀ x, a.checkedListenShare = some x → x = a.listenShare ∧ 0.0 ≤ x ∧ x ≤ 1.0 := by
  intro start a successes failures listens broadcasts
  have houtcomes := (outcomes_make pattern slots? slotMs ratio?).run ops
  have htallies := (tallies_make pattern slots? slotMs ratio?).run ops
  rw [Nat.zero_add, Nat.zero_add] at houtcomes htallies
  obtain ⟨hrate, hrate'⟩ := checkedShare_of_shows houtcomes.successes houtcomes.failures
  obtain ⟨hlisten, hlisten'⟩ := checkedShare_of_shows htallies.listens htallies.broadcasts
  exact ⟨hrate, hrate', hlisten, hlisten'⟩

/-- Three successes and a failure are three quarters. -/
theorem shares_hold_iff_three_quarters :
    let ops : List Op := [.recordSuccess, .recordSuccess, .recordFailure, .recordSuccess, .advance]
    let a := (make .noisy none 10 none).run ops
    a.checkedSuccessRate = some 0.75 ∧ (0.0 ≤ (0.75 : Float) ∧ (0.75 : Float) ≤ 1.0) ∧
      a.checkedListenShare.isSome := by
  intro ops a
  obtain ⟨-, hrate, hlisten, -⟩ := shares_hold_iff .noisy none 10 none ops
  have hquarters : a.checkedSuccessRate = some 0.75 := by decide +kernel
  exact ⟨hquarters, (hrate 0.75 hquarters).2, hlisten.2 (by decide +kernel)⟩

theorem total_append (count : Airtime → Op → Nat) (a : Airtime) (ops more : List Op) :
    total count a (ops ++ more) = total count a ops + total count (a.run ops) more := by
  induction ops generalizing a with
  | nil => exact (Nat.zero_add _).symm
  | cons op ops ih =>
    rw [List.cons_append, total, ih, ← Nat.add_assoc]
    rfl

theorem total_slotsOf_replicate (a : Airtime) (n : Nat) :
    total slotsOf a (List.replicate n .advance) = n := by
  induction n generalizing a with
  | zero => rfl
  | succ n ih =>
    rw [List.replicate_succ, total, ih, Nat.add_comm]
    rfl

def oneOfEach : List Op := [.reseed 7, .advance, .advance]

/-- With one slot of each kind to begin with, the sum leaves its word as soon as all slots do. -/
theorem checkedListenShare_replicate {n : Nat} (h : 4294967294 ≤ n) :
    ((make .noisy none 10 none).run
      (oneOfEach ++ List.replicate n Op.advance)).checkedListenShare = none := by
  have htallies := (tallies_make .noisy none 10 none).run (oneOfEach ++ List.replicate n Op.advance)
  have hslots := total_eq_add slotsOf_eq (make .noisy none 10 none)
    (oneOfEach ++ List.replicate n Op.advance)
  have hlisten : total listensOf (make .noisy none 10 none) oneOfEach = 1 := by decide +kernel
  have hbroadcast : total broadcastsOf (make .noisy none 10 none) oneOfEach = 1 := by decide +kernel
  have htwo : total slotsOf (make .noisy none 10 none) oneOfEach = 2 := rfl
  have hword := fits_iff htallies.listens htallies.broadcasts
  rw [total_append, total_append, total_append, total_slotsOf_replicate, hlisten, hbroadcast,
    htwo] at hslots
  rw [total_append, total_append, hlisten, hbroadcast] at hword
  refine checkedShare_eq_none (Nat.not_lt.1 (mt hword.1 ?_))
  omega

/-- Once more was counted than a word holds, the sums leave it. Taken without a carry, the sum of
the transmissions is then one, and their success rate is not between nothing and one. -/
theorem shares_overflow :
    let start := make .noisy none 10 none
    let a := start.run (List.replicate 4294967295 Op.recordSuccess ++
      List.replicate 2 Op.recordFailure)
    let b := start.run (oneOfEach ++ List.replicate 4294967294 Op.advance)
    a.checkedSuccessRate = none ∧ 1.0 < a.successRate ∧ b.checkedListenShare = none := by
  intro start a b
  have houtcomes : a.Outcomes 4294967295 2 := by
    have hrun := (outcomes_make .noisy none 10 none).run
      (List.replicate 4294967295 Op.recordSuccess ++ List.replicate 2 Op.recordFailure)
    simp only [List.countP_append, List.countP_replicate] at hrun
    exact hrun
  have hsuccesses : a.successes = 0xffffffff := UInt32.toNat.inj houtcomes.successes
  have hfailures : a.failures = 2 := UInt32.toNat.inj houtcomes.failures
  refine ⟨?_, ?_, checkedListenShare_replicate (Nat.le_refl _)⟩
  · rw [checkedSuccessRate, hsuccesses, hfailures]
    exact checkedShare_eq_none (by decide)
  · rw [successRate, hsuccesses, hfailures]
    decide +kernel

end ClusterMesh.Airtime
