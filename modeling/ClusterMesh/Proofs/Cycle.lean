import ClusterMesh.Proofs.Checked.Parts
import ClusterMesh.Proofs.History
import Mathlib.Data.List.Induction

/-! The cycle of slots through any calls of its owner, with what is handed back by each: the work
of the slot that is executed, and with every fourth slot that is left the completion. How far a
lap has come is told from the calls since the cycle was started. -/
namespace ClusterMesh.Cycle
variable {α β : Type}

inductive Op (α β : Type)
  | start
  | stop
  | execute
  | advance
  | setWork (slot : UInt8) (a : α)
  | setCompletion (b : β)
  | setSlotLength (length : Span)
  | resetCount
  deriving DecidableEq

inductive Call (α β : Type)
  | work (a : α) (slot : Fin 4)
  | completed (b : β) (count : UInt32)
  deriving DecidableEq

namespace Op

def workOn (s : Fin 4) : Op α β → Option α
  | setWork slot a => if slot.toNat = s.val then some a else none
  | _ => none

def completion? : Op α β → Option β
  | setCompletion b => some b
  | _ => none

def advances : Op α β → Bool
  | advance => true
  | _ => false

def settles : Op α β → Bool
  | start | stop | advance | resetCount => false
  | _ => true

theorem not_advances_of_settles {op : Op α β} (h : op.settles = true) : op.advances = false := by
  cases op <;> first | rfl | cases h

end Op

def Call.count? : Call α β → Option UInt32
  | completed _ count => some count
  | work .. => none

def step (c : Cycle α β) : Op α β → Cycle α β
  | .start => c.start.2
  | .stop => c.stop
  | .execute => c
  | .advance => c.advance.2
  | .setWork slot a => (c.setWork slot a).2
  | .setCompletion b => c.setCompletion b
  | .setSlotLength length => (c.setSlotLength length).2
  | .resetCount => c.resetCount

def calls (c : Cycle α β) : Op α β → List (Call α β)
  | .execute => (c.due?.map (Call.work · c.slot)).toList
  | .advance => (c.advance.1.completed.map fun p => Call.completed p.1 p.2).toList
  | _ => []

def run (c : Cycle α β) (ops : List (Op α β)) : Cycle α β := ops.foldl step c

def trace (c : Cycle α β) (ops : List (Op α β)) : List (Call α β) := along step calls c ops

def advances (ops : List (Op α β)) : Nat := ops.countP Op.advances

theorem run_append (c : Cycle α β) (ops more : List (Op α β)) :
    c.run (ops ++ more) = (c.run ops).run more := List.foldl_append

theorem run_concat (c : Cycle α β) (ops : List (Op α β)) (op : Op α β) :
    c.run (ops ++ [op]) = (c.run ops).step op := run_append c ops [op]

theorem trace_concat (c : Cycle α β) (ops : List (Op α β)) (op : Op α β) :
    c.trace (ops ++ [op]) = c.trace ops ++ (c.run ops).calls op := along_concat ..

theorem advances_concat (ops : List (Op α β)) (op : Op α β) :
    advances (ops ++ [op]) = advances ops + if op.advances then 1 else 0 := by
  simp [advances, List.countP_append, List.countP_singleton]

theorem advances_append (ops more : List (Op α β)) :
    advances (ops ++ more) = advances ops + advances more := List.countP_append

/-! ## What an operation can do -/

/-- What an operation makes of a cycle. Whatever is set or registered changes nothing but that, and
no slot length while the cycle is running. -/
inductive Steps (c : Cycle α β) : Op α β → Cycle α β → Prop
  | start : Steps c .start c.start.2
  | stop : Steps c .stop c.stop
  | advance : Steps c .advance c.advance.2
  | resetCount : Steps c .resetCount c.resetCount
  | settle {op : Op α β} (slotLength : Span) (work : Vector (Option α) 4) (completion : Option β)
      (hop : op.settles = true) (hlength : c.running = true → slotLength = c.slotLength) :
      Steps c op { c with slotLength, work, completion }

theorem steps_step (c : Cycle α β) (op : Op α β) : c.Steps op (c.step op) := by
  cases op with
  | start => exact .start
  | stop => exact .stop
  | advance => exact .advance
  | resetCount => exact .resetCount
  | execute => exact .settle c.slotLength c.work c.completion rfl fun _ => rfl
  | setCompletion b => exact .settle c.slotLength c.work (some b) rfl fun _ => rfl
  | setWork slot a =>
    simp only [step, setWork]
    split
    · exact .settle c.slotLength _ c.completion rfl fun _ => rfl
    · exact .settle c.slotLength c.work c.completion rfl fun _ => rfl
  | setSlotLength length =>
    simp only [step, setSlotLength]
    split
    · exact .settle c.slotLength c.work c.completion rfl fun _ => rfl
    · next hidle => exact .settle length c.work c.completion rfl fun h => absurd h hidle

section idle
variable {c : Cycle α β} (h : c.running = false)
include h

theorem advance_of_idle : c.advance = (⟨0, none⟩, c) := by
  simp only [advance, h]
  rfl

theorem due?_of_idle : c.due? = none := by
  simp [due?, h]

theorem start_of_idle : c.start = (true, { c with running := true, slot := 0 }) := by
  simp [start, h]

theorem count_step_of_idle {op : Op α β} (hop : op ≠ .resetCount) :
    (c.step op).count = c.count := by
  have hsteps := c.steps_step op
  generalize c.step op = d at hsteps
  cases hsteps with
  | start => rw [start_of_idle h]
  | advance => rw [advance_of_idle h]
  | resetCount => exact absurd rfl hop
  | stop | settle => rfl

end idle

section running
variable {c : Cycle α β} (h : c.running = true)
include h

theorem start_of_running : c.start = (false, c) := by
  simp [start, h]

theorem setSlotLength_of_running (length : Span) : c.setSlotLength length = (false, c) := by
  simp [setSlotLength, h]

/-- The last slot of a lap is left with the completion, and no other is. -/
theorem advance_of_running : c.advance =
    if c.slot = 3 then
      (⟨0, c.completion.map fun b => (b, c.count + 1)⟩, { c with slot := 0, count := c.count + 1 })
    else (⟨c.slot + 1, none⟩, { c with slot := c.slot + 1 }) := by
  simp only [advance, h]
  rfl

theorem due?_of_running : c.due? = c.work.get c.slot := by
  simp [due?, h, Vector.get]

end running

/-- An advance leaves what is registered, the slot length, and whether the cycle is running. -/
theorem advance_frame (c : Cycle α β) : c.advance.2.work = c.work ∧
    c.advance.2.completion = c.completion ∧ c.advance.2.slotLength = c.slotLength ∧
    c.advance.2.running = c.running := by
  simp only [advance]
  split
  · exact ⟨rfl, rfl, rfl, rfl⟩
  · split <;> exact ⟨rfl, rfl, rfl, rfl⟩

/-! ## What is registered -/

theorem work_step (c : Cycle α β) (op : Op α β) (s : Fin 4) :
    (c.step op).work.get s = (op.workOn s).or (c.work.get s) := by
  cases op with
  | setWork slot a =>
    simp only [step, setWork, Op.workOn]
    split
    · next hlt =>
      have hset : (c.work.set slot.toNat (some a) hlt)[s.val] =
          if slot.toNat = s.val then some a else c.work[s.val] := Vector.getElem_set ..
      refine hset.trans ?_
      split <;> rfl
    · next hlt =>
      rw [if_neg fun hs : slot.toNat = s.val => hlt (hs ▸ s.isLt)]
      rfl
  | advance =>
    simp only [step, c.advance_frame.1]
    rfl
  | start =>
    simp only [step, start]
    split <;> rfl
  | setSlotLength length =>
    simp only [step, setSlotLength]
    split <;> rfl
  | _ => rfl

theorem completion_step (c : Cycle α β) (op : Op α β) :
    (c.step op).completion = op.completion?.or c.completion := by
  cases op with
  | setWork slot a =>
    simp only [step, setWork]
    split <;> rfl
  | advance =>
    simp only [step, c.advance_frame.2.1]
    rfl
  | start =>
    simp only [step, start]
    split <;> rfl
  | setSlotLength length =>
    simp only [step, setSlotLength]
    split <;> rfl
  | _ => rfl

theorem work_run (ops : List (Op α β)) (s : Fin 4) :
    (run {} ops).work.get s = latest? (Op.workOn s) ops := by
  induction ops using List.reverseRecOn with
  | nil => simp [run, Vector.get]
  | append_singleton ops op ih => rw [run_concat, work_step, ih, latest?_concat]

theorem completion_run (ops : List (Op α β)) :
    (run {} ops).completion = latest? Op.completion? ops := by
  induction ops using List.reverseRecOn with
  | nil => rfl
  | append_singleton ops op ih => rw [run_concat, completion_step, ih, latest?_concat]

theorem isSome_completion_run {c : Cycle α β} (h : c.completion.isSome) (ops : List (Op α β)) :
    (c.run ops).completion.isSome := by
  induction ops using List.reverseRecOn with
  | nil => exact h
  | append_singleton ops op ih =>
    rw [run_concat, completion_step]
    cases op.completion? with
    | none => exact ih
    | some b => rfl

/-! ## Laps -/

def lapsBetween (k n : Nat) : Nat := n / 4 - k / 4

theorem lapsBetween_self (k : Nat) : lapsBetween k k = 0 := Nat.sub_self _

theorem lapsBetween_succ {k n : Nat} (h : k ≤ n) :
    lapsBetween k (n + 1) = lapsBetween k n + if (n + 1) % 4 = 0 then 1 else 0 := by
  unfold lapsBetween
  split <;> omega

/-! ## Running -/

theorem running_step {c : Cycle α β} {op : Op α β} (h : (c.step op).running = true) :
    op ≠ .stop ∧ (c.running = true ∨ op = .start) := by
  refine ⟨fun hstop => ?_, ?_⟩
  · subst hstop
    cases h
  · have hsteps := c.steps_step op
    generalize c.step op = d at hsteps h
    cases hsteps with
    | start => exact .inr rfl
    | stop => cases h
    | advance => exact .inl (c.advance_frame.2.2.2.symm.trans h)
    | resetCount | settle => exact .inl h

structure Started (ops pre more : List (Op α β)) : Prop where
  eq : ops = pre ++ .start :: more
  idle : (run {} pre).running = false
  stays : .stop ∉ more

theorem Started.concat {ops pre more : List (Op α β)} (h : Started ops pre more) {op : Op α β}
    (hop : op ≠ .stop) : Started (ops ++ [op]) pre (more ++ [op]) := by
  refine ⟨by simp [h.eq], h.idle, fun hmem => ?_⟩
  obtain hmem | hmem := List.mem_append.1 hmem
  · exact h.stays hmem
  · exact hop (List.mem_singleton.1 hmem).symm

theorem started_of_running {ops : List (Op α β)} (h : (run {} ops).running = true) :
    ∃ pre more, Started ops pre more := by
  induction ops using List.reverseRecOn with
  | nil => cases h
  | append_singleton ops op ih =>
    rw [run_concat] at h
    obtain ⟨hstop, hstart⟩ := running_step h
    cases hrunning : (run {} ops).running with
    | true =>
      obtain ⟨pre, more, hstarted⟩ := ih hrunning
      exact ⟨pre, more ++ [op], hstarted.concat hstop⟩
    | false =>
      obtain hc | rfl := hstart
      · exact absurd hc (Bool.eq_false_iff.1 hrunning)
      · exact ⟨ops, [], rfl, hrunning, List.not_mem_nil⟩

/-- The cycle has been running since it was `b`, and went on `k` slots in the meantime. -/
structure Runs (b : Cycle α β) (k : Nat) (c : Cycle α β) : Prop where
  running : c.running = true
  slot : c.slot.val = k % 4
  slotLength : c.slotLength = b.slotLength

theorem runs_start {b : Cycle α β} (h : b.running = false) : Runs b 0 (b.step .start) := by
  simp only [step, start_of_idle h]
  exact ⟨rfl, rfl, rfl⟩

section runs
variable {b c : Cycle α β} {k : Nat} (h : Runs b k c)
include h

/-- A lap ends with every fourth slot that is left. -/
theorem Runs.slot_eq_iff : c.slot = 3 ↔ (k + 1) % 4 = 0 := by
  have hslot := h.slot
  rw [Fin.ext_iff]
  show c.slot.val = 3 ↔ _
  omega

theorem Runs.advance : Runs b (k + 1) c.advance.2 := by
  have hslot := h.slot
  have hlast := h.slot_eq_iff
  rw [advance_of_running h.running]
  split
  · next h3 => exact ⟨h.running, (hlast.1 h3).symm, h.slotLength⟩
  · next h3 =>
    have hnext : (c.slot + 1).val = (k + 1) % 4 := by
      rw [Fin.val_add]
      show (c.slot.val + 1) % 4 = _
      omega
    exact ⟨h.running, hnext, h.slotLength⟩

theorem Runs.step {op : Op α β} (hop : op ≠ .stop) :
    Runs b (k + if op.advances then 1 else 0) (c.step op) := by
  have hsteps := c.steps_step op
  generalize c.step op = d at hsteps
  cases hsteps with
  | start =>
    rw [start_of_running h.running]
    exact h
  | stop => exact absurd rfl hop
  | advance => exact h.advance
  | resetCount => exact ⟨h.running, h.slot, h.slotLength⟩
  | settle _ _ _ hsettles hlength =>
    rw [Op.not_advances_of_settles hsettles]
    exact ⟨h.running, h.slot, (hlength h.running).trans h.slotLength⟩

theorem Runs.run {ops : List (Op α β)} (hops : .stop ∉ ops) :
    Runs b (k + advances ops) (c.run ops) := by
  induction ops using List.reverseRecOn with
  | nil => exact h
  | append_singleton ops op ih =>
    rw [List.mem_append, not_or, List.mem_singleton] at hops
    rw [run_concat, advances_concat, ← Nat.add_assoc]
    exact (ih hops.1).step (Ne.symm hops.2)

/-- An advance that ends a lap hands the completion back with the next count. -/
theorem Runs.calls_advance : c.calls .advance =
    if (k + 1) % 4 = 0 then (c.completion.map (Call.completed · (c.count + 1))).toList else [] := by
  simp only [calls, advance_of_running h.running, h.slot_eq_iff]
  split
  · cases c.completion <;> rfl
  · rfl

theorem Runs.count_step {op : Op α β} (hop : op ≠ .resetCount) : (c.step op).count =
    c.count + if op.advances ∧ (k + 1) % 4 = 0 then 1 else 0 := by
  have hsteps := c.steps_step op
  generalize c.step op = d at hsteps
  cases hsteps with
  | start =>
    rw [start_of_running h.running]
    exact (UInt32.add_zero _).symm
  | stop => exact (UInt32.add_zero _).symm
  | advance =>
    rw [advance_of_running h.running]
    simp only [h.slot_eq_iff]
    by_cases hlap : (k + 1) % 4 = 0 <;> simp [hlap, Op.advances]
  | resetCount => exact absurd rfl hop
  | settle _ _ _ hsettles _ => simp [Op.not_advances_of_settles hsettles]

theorem Runs.filterMap_calls (op : Op α β) : (c.calls op).filterMap Call.count? =
    if op.advances ∧ (k + 1) % 4 = 0 then (c.completion.map fun _ => c.count + 1).toList
    else [] := by
  cases op with
  | advance =>
    rw [h.calls_advance]
    by_cases hlap : (k + 1) % 4 = 0 <;> cases c.completion <;>
      simp [hlap, Op.advances, Call.count?]
  | execute => cases hdue : c.due? <;> simp [calls, hdue, Op.advances, Call.count?]
  | _ => simp [calls, Op.advances]

/-- As long as nothing is reset, the count goes up by the laps that end, and a completion that is
registered is handed back once for each of them. -/
theorem Runs.count_run {ops : List (Op α β)} (hstop : .stop ∉ ops) (hreset : .resetCount ∉ ops) :
    (c.run ops).count = c.count + .ofNat (lapsBetween k (k + advances ops)) ∧
    (c.completion.isSome → (c.trace ops).filterMap Call.count? =
      (List.range (lapsBetween k (k + advances ops))).map fun i => c.count + .ofNat (i + 1)) := by
  induction ops using List.reverseRecOn with
  | nil =>
    rw [show advances ([] : List (Op α β)) = 0 from rfl, Nat.add_zero, lapsBetween_self]
    exact ⟨(UInt32.add_zero _).symm, fun _ => rfl⟩
  | append_singleton ops op ih =>
    rw [List.mem_append, not_or, List.mem_singleton] at hstop hreset
    obtain ⟨hcount, htrace⟩ := ih hstop.1 hreset.1
    have hrun := h.run hstop.1
    have hstep := hrun.count_step (Ne.symm hreset.2)
    have hcalls := hrun.filterMap_calls op
    rw [run_concat, trace_concat, List.filterMap_append, advances_concat, ← Nat.add_assoc]
    -- either a lap ends with the operation, or neither the count nor the laps change
    by_cases hlap : op.advances ∧ (k + advances ops + 1) % 4 = 0
    · rw [if_pos hlap] at hstep hcalls
      rw [if_pos hlap.1, lapsBetween_succ (Nat.le_add_right ..), if_pos hlap.2, List.range_succ,
        List.map_append]
      have hnext : c.count + .ofNat (lapsBetween k (k + advances ops)) + 1 =
          c.count + .ofNat (lapsBetween k (k + advances ops) + 1) := by
        rw [UInt32.add_assoc, UInt32.ofNat_add]
        rfl
      refine ⟨by rw [hstep, hcount, hnext], fun hsome => ?_⟩
      obtain ⟨b, hb⟩ := Option.isSome_iff_exists.1 (isSome_completion_run hsome ops)
      rw [hcalls, hb, htrace hsome, hcount, hnext]
      rfl
    · rw [if_neg hlap] at hstep hcalls
      have hsame : lapsBetween k (k + advances ops + if op.advances then 1 else 0) =
          lapsBetween k (k + advances ops) := by
        split
        · next hop =>
          rw [lapsBetween_succ (Nat.le_add_right ..), if_neg fun hl => hlap ⟨hop, hl⟩,
            Nat.add_zero]
        · rfl
      rw [hsame, hstep, hcalls, hcount, UInt32.add_zero, List.append_nil]
      exact ⟨rfl, htrace⟩

end runs

theorem Started.runs {ops pre more : List (Op α β)} (h : Started ops pre more) :
    Runs (run {} pre) (advances more) (run {} ops) := by
  have hruns := (runs_start h.idle).run h.stays
  rw [Nat.zero_add] at hruns
  rw [h.eq, run_append]
  exact hruns

/-- The cycle through any calls of its owner. No slot that it looks up is out of place. At rest it
hands nothing back and stands still, and a lap that was broken off leaves nothing behind. It runs
exactly since it was started last without being stopped, and then the slots that were left since
that start alone tell which one is current. What is executed is the work that was registered last
for the current slot. Every fourth slot hands back the completion that was registered last as it is
left, so before any work of the next lap, and with consecutive counts unless they are reset. -/
theorem keeps_schedule (ops : List (Op α β)) :
    let c := run {} ops
    (c.slot.val < 4 ∧ c.checkedDue = some c.due? ∧ c.checkedAdvance = some c.advance) ∧
    (c.running = false → c.advance.1 = ⟨0, none⟩ ∧ c.run [.execute, .advance] = c ∧
      c.trace [.execute, .advance] = [] ∧ ∀ op, op ≠ .resetCount → (c.step op).count = c.count) ∧
    (c.trace [.stop, .start] = [] ∧ c.run [.stop, .start] = { c with running := true, slot := 0 } ∧
      c.run [.resetCount] = { c with count := 0 }) ∧
    (c.running = true ↔ ∃ pre more, Started ops pre more) ∧
    ∀ pre more, Started ops pre more →
      (c.slot.val = advances more % 4 ∧ c.start = (false, c)) ∧
      (c.slotLength = (run {} pre).slotLength ∧
        ∀ length, c.setSlotLength length = (false, c)) ∧
      c.trace [.execute] = ((latest? (Op.workOn c.slot) ops).map (Call.work · c.slot)).toList ∧
      c.trace [.advance] = (if (advances more + 1) % 4 = 0 then
        ((latest? Op.completion? ops).map (Call.completed · (c.count + 1))).toList else []) ∧
      ∀ before after, more = before ++ after → .resetCount ∉ after →
        let d := run {} (pre ++ .start :: before)
        let laps := lapsBetween (advances before) (advances more)
        c.count = d.count + .ofNat laps ∧
        (d.completion.isSome → (d.trace after).filterMap Call.count? =
          (List.range laps).map fun i => d.count + .ofNat (i + 1)) := by
  intro c
  refine ⟨⟨c.slot.isLt, c.checkedDue_eq, c.checkedAdvance_eq⟩, fun hidle => ?_, ?_, ?_, ?_⟩
  · have hadvance := advance_of_idle hidle
    refine ⟨by rw [hadvance], ?_, ?_, fun op => count_step_of_idle hidle⟩
    · show c.advance.2 = c
      rw [hadvance]
    · simp [trace, along, calls, step, hadvance, due?_of_idle hidle]
  · refine ⟨rfl, ?_, rfl⟩
    show c.stop.start.2 = _
    rw [start_of_idle rfl]
    rfl
  · refine ⟨started_of_running, ?_⟩
    rintro ⟨pre, more, hstarted⟩
    exact hstarted.runs.running
  · intro pre more hstarted
    have hruns : Runs (run {} pre) (advances more) c := hstarted.runs
    refine ⟨⟨hruns.slot, start_of_running hruns.running⟩,
      ⟨hruns.slotLength, setSlotLength_of_running hruns.running⟩, ?_, ?_, ?_⟩
    · rw [← work_run, ← due?_of_running hruns.running]
      exact List.append_nil _
    · rw [← completion_run, ← hruns.calls_advance]
      exact List.append_nil _
    · rintro before after rfl hreset
      have hstays := hstarted.stays
      rw [List.mem_append, not_or] at hstays
      have hbefore : Started (pre ++ .start :: before) pre before := ⟨rfl, hstarted.idle, hstays.1⟩
      have hcount := hbefore.runs.count_run hstays.2 hreset
      rw [← run_append, ← advances_append, List.append_assoc, List.cons_append, ← hstarted.eq]
        at hcount
      exact hcount

/-- After a lap that was broken off in its third slot a new one takes four slots again. The
completion is then handed back for the second time in all, and the first slot has its work from the
later of two registrations. -/
theorem keeps_schedule_restarted :
    let pre : List (Op Char String) := [.setWork 0 'a', .setWork 0 'b', .setCompletion "lap",
      .start, .advance, .advance, .advance, .advance, .advance, .advance, .stop]
    let more : List (Op Char String) := [.advance, .advance, .advance]
    let c := run {} (pre ++ .start :: more)
    let d := run {} (pre ++ .start :: (more ++ [.advance]))
    c.running = true ∧ c.slot.val = 3 ∧ c.trace [.advance] = [.completed "lap" 2] ∧
      d.slot.val = 0 ∧ d.trace [.execute] = [.work 'b' 0] := by
  intro pre more c d
  have hlast : Started (pre ++ .start :: more) pre more := ⟨rfl, rfl, by decide +kernel⟩
  have hfirst : Started (pre ++ .start :: (more ++ [.advance])) pre (more ++ [.advance]) :=
    hlast.concat fun h => by cases h
  obtain ⟨-, -, -, hrunning, hc⟩ := keeps_schedule (pre ++ .start :: more)
  obtain ⟨-, -, -, -, hd⟩ := keeps_schedule (pre ++ .start :: (more ++ [.advance]))
  obtain ⟨⟨hslot, -⟩, -, -, hadvance, -⟩ := hc pre more hlast
  obtain ⟨⟨hslot', -⟩, -, hexecute, -, -⟩ := hd pre (more ++ [.advance]) hfirst
  exact ⟨hrunning.2 ⟨pre, more, hlast⟩, hslot, hadvance.trans (by decide +kernel),
    hslot'.trans (by decide +kernel), hexecute.trans (by decide +kernel)⟩

end ClusterMesh.Cycle
