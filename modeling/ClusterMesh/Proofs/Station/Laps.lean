import ClusterMesh.Proofs.Station.Steps

/-! How far a station is in its cycles: how many it has completed, and whether it has run
slot zero of the present one. -/
namespace ClusterMesh.Station

/-- Cycles completed since the start or the last reset, `n` of them before the run. -/
def laps (s : Station) (n : Nat) : List Op → Nat
  | [] => n
  | op :: ops =>
    laps (s.step op) (if op.isReset then 0 else if s.completes op then n + 1 else n) ops

theorem laps_append (s : Station) (n : Nat) (ops more : List Op) :
    s.laps n (ops ++ more) = (s.run ops).laps (s.laps n ops) more := by
  induction ops generalizing s n with
  | nil => rfl
  | cons op ops ih => exact ih _ _

theorem laps_le (s : Station) (n : Nat) (ops : List Op) : s.laps n ops ≤ n + ops.length := by
  induction ops generalizing s n with
  | nil => exact Nat.le_refl n
  | cons op ops ih =>
    rw [laps, List.length_cons]
    refine Nat.le_trans (ih _ _) ?_
    split
    · omega
    · split <;> omega

/-- Slot zero of the present cycle has been run. -/
def passed (s : Station) : Bool := s.phase = .discovery && s.cycle.slot.val != 0

theorem runsSlot_of_runsSlot {s : Station} {op : Op} {a : Nat} (h : s.runsSlot a op = true)
    (b : Nat) : s.runsSlot b op = decide (b = a) := by
  cases op with
  | tick now =>
    simp only [runsSlot, Bool.and_eq_true, decide_eq_true_eq] at h
    obtain ⟨⟨he, hp⟩, rfl⟩ := h
    simp [runsSlot, he, hp, eq_comm]
  | _ => cases h

theorem isReset_of_runsSlot {s : Station} {op : Op} {a : Nat} (h : s.runsSlot a op = true) :
    op.isReset = false := by
  cases op with
  | reset => cases h
  | _ => rfl

theorem not_completes_of_runsSlot {s : Station} {op : Op} (h : s.runsSlot 0 op = true) :
    s.completes op = false :=
  runsSlot_of_runsSlot h 3

theorem not_runsSlot_of_completes {s : Station} {op : Op} (h : s.completes op = true) :
    s.runsSlot 0 op = false :=
  runsSlot_of_runsSlot h 0

theorem passed_of_runsSlot {s : Station} {op : Op} (h : s.runsSlot 0 op = true) :
    s.passed = false := by
  cases op with
  | tick now => simp_all [runsSlot, passed]
  | _ => cases h

theorem passed_of_completes {s : Station} {op : Op} (h : s.completes op = true) :
    s.passed = true := by
  cases op with
  | tick now =>
    simp only [completes, runsSlot, Bool.and_eq_true, decide_eq_true_eq] at h
    simp [passed, h.1.2, h.2]
  | _ => cases h

theorem passed_step {s : Station} (h : s.clockwork.InStep) (op : Op) :
    (s.step op).passed =
      if op.isReset then false
      else if s.runsSlot 0 op then true
      else if s.completes op then false
      else s.passed := by
  have hw := winds_step h op
  generalize hc : (s.step op).clockwork = c at hw
  have hp : (s.step op).passed = (decide (c.phase = .discovery) && c.cycle.slot.val != 0) := by
    rw [← hc]
    rfl
  have hoff (a : Nat) (hne : s.phase ≠ .discovery) : s.runsSlot a op = false := by
    cases op <;> simp [runsSlot, hne]
  rw [hp]
  cases hw with
  | idle enabled hs hr =>
    rw [hr, hs 0, completes, hs]
    rfl
  | noisy hph hr =>
    have hne : s.phase ≠ .discovery := by simp [hph]
    rw [hr, completes, hoff 0 hne, hoff _ hne]
    split <;> simp [clockwork, passed, hph]
  | neighbor hph hr =>
    have hne : s.phase ≠ .discovery := by simp [hph]
    rw [hr, completes, hoff 0 hne, hoff _ hne]
    split <;> simp [clockwork, passed, hph]
  | slot hph hs h3 =>
    have hr := isReset_of_runsSlot hs
    have h3' : 3 ≠ s.cycle.slot.val := fun hv => h3 (Fin.ext hv.symm)
    have hl : s.completes op = false := (runsSlot_of_runsSlot hs 3).trans (decide_eq_false h3')
    have hnext : ∀ a : Fin 4, a ≠ 3 → ((a + 1).val != 0) = true := by decide
    have hdone : (decide (s.phase = .discovery) && (s.cycle.slot + 1).val != 0) = true := by
      rw [hph, hnext _ h3]
      rfl
    refine hdone.trans ?_
    rw [hr, hl, runsSlot_of_runsSlot hs 0]
    by_cases h0 : 0 = s.cycle.slot.val
    · simp [h0]
    · have hp : s.passed = true := by simp [passed, hph, Ne.symm h0]
      simp [h0, hp]
  | last hph hs h3 =>
    rw [isReset_of_runsSlot hs, not_runsSlot_of_completes hs, hs]
    rfl
  | reset hr =>
    rw [hr]
    rfl

theorem cycle_step {s : Station} (h : s.clockwork.InStep) (op : Op) :
    (s.step op).node.cycle =
      if op.isReset then 0
      else if s.completes op then s.node.cycle.succSat
      else s.node.cycle := by
  have ht := turns_step h op
  generalize ho : (s.step op).office = o at ht
  have hc : (s.step op).node.cycle = o.cycle := congrArg Office.cycle ho
  rw [hc]
  cases ht with
  | kept h0 h3 hh hr =>
    rw [hr, h3]
    rfl
  | spoke h0 =>
    rw [isReset_of_runsSlot h0, not_completes_of_runsSlot h0]
    obtain ⟨campaign, -, he⟩ := s.office.spoken_eq
    rw [he]
    rfl
  | decided h3 hd =>
    rw [isReset_of_runsSlot h3, h3]
    cases hd <;> rfl
  | heeded hh hd =>
    obtain ⟨hp, -⟩ := packet?_of_handled? hh
    rw [isReset_of_packet? hp, completes, runsSlot_of_packet? s hp]
    cases hd <;> rfl
  | reset hr =>
    rw [hr]
    rfl

theorem toNat_succSat_of_min {c : UInt32} {n : Nat} (h : c.toNat = min n 0xffffffff) :
    c.succSat.toNat = min (n + 1) 0xffffffff := by
  rw [UInt32.toNat_succSat, h]
  omega

/-- The counter of a node shows the cycles completed, and stays at the largest word. -/
theorem cycle_run {s : Station} (h : s.clockwork.InStep) {n : Nat}
    (hn : s.node.cycle.toNat = min n 0xffffffff) (ops : List Op) :
    (s.run ops).node.cycle.toNat = min (s.laps n ops) 0xffffffff := by
  induction ops generalizing s n with
  | nil => exact hn
  | cons op ops ih =>
    refine ih (inStep_step h op) ?_
    rw [cycle_step h op]
    split
    · rfl
    · split
      · exact toNat_succSat_of_min hn
      · exact hn

section noReset
variable {ops : List Op} (hr : ∀ op ∈ ops, op.isReset = false)
include hr

theorem laps_eq_add (s : Station) (n : Nat) : s.laps n ops = n + s.laps 0 ops := by
  induction ops generalizing s n with
  | nil => rfl
  | cons op ops ih =>
    have hop := hr op (by simp)
    have hops : ∀ op' ∈ ops, op'.isReset = false := fun op' hm => hr op' (by simp [hm])
    simp only [laps, hop, Bool.false_eq_true, if_false]
    split
    · rw [ih hops _ (n + 1), ih hops _ (0 + 1)]
      omega
    · exact ih hops _ n

theorem cycle_le_run {s : Station} (h : s.clockwork.InStep) :
    s.node.cycle.toNat ≤ (s.run ops).node.cycle.toNat := by
  have hlt := s.node.cycle.toNat_lt
  have hn : s.node.cycle.toNat = min s.node.cycle.toNat 0xffffffff := by omega
  rw [cycle_run h hn ops, laps_eq_add hr]
  omega

end noReset

end ClusterMesh.Station
