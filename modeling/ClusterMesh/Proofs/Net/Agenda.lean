import Mathlib
import ClusterMesh.Net.Agenda

/-! The order of events. Urgency is a total order whose equals are the simultaneous events, and
an agenda gives out a most urgent one of its events, keeping all others. -/
namespace ClusterMesh.Net

namespace Scheduled

theorem compare_eq_toNat (a b : UInt64) : compare a b = compare a.toNat b.toNat := by
  simp only [compare, compareOfLessAndEq, UInt64.lt_iff_toNat_lt, ← UInt64.toNat_inj]

theorem compareUrgency_eq (a b : Scheduled) :
    a.compareUrgency b = (compare b.time.ms.toNat a.time.ms.toNat).then
      (compare b.seq.toNat a.seq.toNat) := by
  rw [compareUrgency, compare_eq_toNat, compare_eq_toNat]

/-- The more urgent of two comes before the other one. -/
theorem compareUrgency_eq_gt_iff (a b : Scheduled) :
    a.compareUrgency b = .gt ↔ a.before b := by
  rw [compareUrgency_eq, before_iff, Ordering.then_eq_gt]
  simp only [Nat.compare_eq_gt, Nat.compare_eq_eq]
  omega

theorem compareUrgency_eq_eq_iff (a b : Scheduled) :
    a.compareUrgency b = .eq ↔ a.simultaneous b = true := by
  rw [compareUrgency_eq, Ordering.then_eq_eq, Nat.compare_eq_eq, Nat.compare_eq_eq,
    simultaneous, Bool.and_eq_true, decide_eq_true_eq, decide_eq_true_eq]
  constructor
  · intro h
    exact ⟨Instant.eq_of_toNat h.1.symm, UInt64.toNat.inj h.2.symm⟩
  · intro h
    rw [h.1, h.2]
    exact ⟨rfl, rfl⟩

theorem swap_compareUrgency (a b : Scheduled) :
    (a.compareUrgency b).swap = b.compareUrgency a := by
  rw [compareUrgency_eq, compareUrgency_eq, Ordering.swap_then, Nat.compare_swap,
    Nat.compare_swap]

theorem isLE_compareUrgency_iff (a b : Scheduled) :
    (a.compareUrgency b).isLE = true ↔ ¬ a.before b := by
  rw [← compareUrgency_eq_gt_iff]
  cases a.compareUrgency b <;> simp

instance : Std.TransCmp compareUrgency where
  eq_swap {a b} := (swap_compareUrgency b a).symm
  isLE_trans {a b c} h k := by
    rw [isLE_compareUrgency_iff] at *
    exact not_before_trans k h

end Scheduled

namespace Agenda

theorem mem_insert {a : Agenda} {e x : Scheduled} :
    x ∈ (a.insert e).entries ↔ x = e ∨ x ∈ a.entries :=
  Scheduled.mem_place

theorem perm_insert (a : Agenda) (e : Scheduled) :
    (a.insert e).entries.Perm (e :: a.entries) := by
  have hplace (ds : List Scheduled) : (e.place ds).Perm (e :: ds) := by
    induction ds with
    | nil => exact .refl _
    | cons d ds ih =>
      unfold Scheduled.place
      split
      · exact .refl _
      · exact (ih.cons d).trans (.swap e d ds)
  exact hplace a.entries

/-- What is due is the first entry, and the rest stays on the agenda. -/
theorem due?_eq_some_iff {a b : Agenda} {limit : Instant} {e : Scheduled} :
    a.due? limit = some (e, b) ↔ a.entries = e :: b.entries ∧ e.time ≤ limit := by
  unfold due?
  split
  · next h => simp [h]
  · next d ds h =>
    split
    · next hd =>
      constructor
      · intro he
        cases he
        exact ⟨h, hd⟩
      · intro he
        obtain ⟨rfl, rfl⟩ := List.cons.inj (h.symm.trans he.1)
        rfl
    · next hd =>
      constructor
      · nofun
      · intro he
        obtain ⟨rfl, -⟩ := List.cons.inj (h.symm.trans he.1)
        exact absurd he.2 hd

/-- Of the events that are pending none comes before the one that is due. -/
theorem not_before_of_due? {a b : Agenda} {limit : Instant} {e d : Scheduled}
    (h : a.due? limit = some (e, b)) (hd : d ∈ a.entries) : ¬ d.before e := by
  obtain ⟨ha, -⟩ := due?_eq_some_iff.1 h
  have hs := a.sorted
  rw [ha] at hd hs
  obtain rfl | hd := List.mem_cons.1 hd
  · intro hb
    rw [Scheduled.before_iff] at hb
    omega
  · exact (List.pairwise_cons.1 hs).1 d hd

theorem due?_eq_none_iff {a : Agenda} {limit : Instant} :
    a.due? limit = none ↔ ∀ e ∈ a.entries, limit < e.time := by
  constructor
  · intro h e he
    unfold due? at h
    split at h
    · next ha => simp [ha] at he
    · next d ds ha =>
      split at h
      · cases h
      · next hd =>
        -- the first entry is not due, and no other one is earlier
        have hs := a.sorted
        rw [ha] at hs he
        have hbefore : ¬ e.before d := by
          obtain rfl | he := List.mem_cons.1 he
          · intro hb
            rw [Scheduled.before_iff] at hb
            omega
          · exact (List.pairwise_cons.1 hs).1 e he
        rw [Scheduled.before_iff] at hbefore
        rw [Instant.le_iff_toNat] at hd
        rw [Instant.lt_iff_toNat]
        omega
  · intro h
    unfold due?
    split
    · rfl
    · next d ds ha =>
      have hd := h d (by rw [ha]; exact List.mem_cons_self)
      rw [Instant.lt_iff_toNat] at hd
      rw [if_neg]
      rw [Instant.le_iff_toNat]
      omega

end Agenda
end ClusterMesh.Net
