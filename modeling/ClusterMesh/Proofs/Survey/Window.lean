import Mathlib
import ClusterMesh.Proofs.Checked.Basic
import ClusterMesh.Proofs.Survey.Ring

/-! What lies in the window for samples. A full ring drops its oldest value for each new one, so
that in order it holds the end of all that was put in since it was cleared. Its cells show the same
values turned around, which no mean takes notice of. -/
namespace ClusterMesh

namespace Ring
variable {α : Type} {cap : Nat} {r : Ring α cap}

theorem length_held (h : r.size ≤ cap) : r.held.length = r.size := by
  simp [held, h]

structure Follows (r : Ring α cap) (xs : List α) : Prop where
  inBounds : r.InBounds
  begins : r.size < cap → r.first = 0
  inOrder : r.inOrder = xs.rtake cap

theorem follows_clear (r : Ring α cap) (h : 0 < cap) : r.clear.Follows [] where
  inBounds := ⟨h, Nat.zero_le _⟩
  begins _ := rfl
  inOrder := by simp [Ring.inOrder, held, clear]

theorem toList_cells_push (r : Ring α cap) (a : α) :
    (r.push a).cells.toList = r.cells.toList.set ((r.first + r.size) % cap) a := by
  unfold push
  dsimp only
  split <;> exact Vector.toList_setIfInBounds

theorem held_of_full (h : r.size = cap) : r.held = r.cells.toList :=
  List.take_of_length_le (by rw [Vector.length_toList, h])

theorem inOrder_push_of_room (hs : r.size < cap) (hf : r.first = 0) (a : α) :
    (r.push a).inOrder = r.inOrder ++ [a] := by
  have hcells := r.toList_cells_push a
  rw [hf, Nat.zero_add, Nat.mod_eq_of_lt hs, List.set_eq_take_append_cons_drop,
    if_pos (hs.trans_eq r.cells.length_toList.symm)] at hcells
  have hpush : (r.push a).size = r.size + 1 ∧ (r.push a).first = 0 := by
    simp only [push, if_pos hs, hf, and_self]
  have hheld : (r.push a).held = r.held ++ [a] := by
    have hlen : (r.held ++ [a]).length = r.size + 1 := by
      rw [List.length_append, length_held hs.le, List.length_singleton]
    rw [held, hpush.1, hcells, List.append_cons]
    exact List.take_left' hlen
  rw [inOrder, inOrder, hheld, hpush.2, hf]
  simp only [List.drop_zero, List.take_zero, List.append_nil]

/-- The newest value takes the cell of the oldest, behind which the ring then begins. -/
theorem inOrder_push_of_full (hs : r.size = cap) (hf : r.first < cap) (a : α) :
    (r.push a).inOrder = r.inOrder.tail ++ [a] := by
  have hlen := r.cells.length_toList
  have hcells := r.toList_cells_push a
  rw [hs, Nat.add_mod_right, Nat.mod_eq_of_lt hf, List.set_eq_take_append_cons_drop,
    if_pos (hf.trans_eq hlen.symm)] at hcells
  have hpush : (r.push a).size = cap ∧ (r.push a).first = (r.first + 1) % cap := by
    simp only [push, hs, Nat.lt_irrefl, if_false, and_self]
  have hfront : (r.cells.toList.take r.first ++ [a]).length = r.first + 1 := by
    rw [List.length_append, List.length_singleton, List.length_take_of_le (by omega)]
  have hback : r.cells.toList.drop r.first ≠ [] := by
    rw [Ne, List.drop_eq_nil_iff]
    omega
  rw [inOrder, inOrder, held_of_full hs, held_of_full hpush.1, hcells, hpush.2, List.append_cons,
    List.tail_append_of_ne_nil hback, List.tail_drop]
  obtain hnext | hlast := Nat.lt_or_ge (r.first + 1) cap
  · rw [Nat.mod_eq_of_lt hnext, List.drop_left' hfront, List.take_left' hfront,
      List.append_assoc]
  · have hend : r.first + 1 = cap := by omega
    rw [hend, Nat.mod_self, List.drop_of_length_le hlen.le]
    simp

theorem length_inOrder (h : r.size ≤ cap) : r.inOrder.length = r.size := by
  rw [inOrder, List.length_append, Nat.add_comm, ← List.length_append, List.take_append_drop,
    length_held h]

theorem Follows.push {xs : List α} (h : r.Follows xs) (a : α) : (r.push a).Follows (xs ++ [a]) := by
  have hlen := length_inOrder h.inBounds.size_le
  rw [h.inOrder, List.rtake, List.length_drop] at hlen
  refine ⟨h.inBounds.push a, fun hs => ?_, ?_⟩
  · unfold Ring.push at hs ⊢
    dsimp only at hs ⊢
    split at hs
    · next hroom => rw [if_pos hroom, h.begins hroom]
    · next hfull => exact absurd hs hfull
  · obtain hroom | hfull := h.inBounds.size_le.lt_or_eq
    · have hshort : xs.length - cap = 0 ∧ xs.length + 1 - cap = 0 := by omega
      rw [inOrder_push_of_room hroom (h.begins hroom), h.inOrder, List.rtake, List.rtake,
        List.length_append, List.length_singleton, hshort.1, hshort.2]
      rfl
    · have hpos := h.inBounds.first_lt
      have hlong : xs.length - cap + 1 = xs.length + 1 - cap := by omega
      rw [inOrder_push_of_full hfull hpos, h.inOrder, List.rtake, List.rtake, List.tail_drop,
        List.length_append, List.length_singleton, hlong, List.drop_append_of_le_length (by omega)]

theorem Follows.rotate {xs : List α} (h : r.Follows xs) : r.inOrder = r.held.rotate r.first := by
  have hle : r.first ≤ r.held.length := by
    rw [length_held h.inBounds.size_le]
    obtain hroom | hfull := h.inBounds.size_le.lt_or_eq
    · rw [h.begins hroom]
      exact Nat.zero_le _
    · rw [hfull]
      exact h.inBounds.first_lt.le
  exact (List.rotate_eq_drop_append_take hle).symm

end Ring

/-- The crowding goes by the mean, for which the order of the samples does not matter. -/
theorem Relay.crowdingOf_perm {xs ys : List Int8} (h : xs.Perm ys) :
    crowdingOf xs = crowdingOf ys := by
  have hsum : xs.foldl (fun total s => total + s.toInt) 0 =
      ys.foldl (fun total s => total + s.toInt) 0 :=
    h.foldl_eq' (fun x _ y _ total => by omega) 0
  have hempty : xs.isEmpty = ys.isEmpty := by
    rw [Bool.eq_iff_iff, List.isEmpty_iff, List.isEmpty_iff, ← List.length_eq_zero_iff,
      ← List.length_eq_zero_iff, h.length_eq]
  simp only [crowdingOf, hsum, hempty, h.length_eq]

namespace Survey

inductive Op
  | note (id : NodeId) (position : Option Position) (rssi : Int8) (now : Instant)
  | forget (now : Instant) (maxAge : Span)
  | setDirectSignal (rssi : Int8)
  | beginMeasuring
  | sample (rssi : Int8)
  | endMeasuring
  | measure
  | noteRelayed
  | noteReceived
  | setThresholds (thresholds : Thresholds)
  | reset

def step (s : Survey) : Op → Survey
  | .note id position rssi now => s.note id position rssi now
  | .forget now maxAge => (s.forget now maxAge).1
  | .setDirectSignal directSignal => { s with directSignal }
  | .beginMeasuring => s.beginMeasuring
  | .sample rssi => s.sample rssi
  | .endMeasuring => s.endMeasuring
  | .measure => s.measure
  | .noteRelayed => s.noteRelayed
  | .noteReceived => s.noteReceived
  | .setThresholds thresholds => { s with thresholds }
  | .reset => s.reset

def run (s : Survey) (ops : List Op) : Survey := ops.foldl step s

namespace Op

def sample? : Op → Option Int8
  | .sample rssi => some rssi
  | _ => none

def opens : Op → Bool
  | .beginMeasuring => true
  | _ => false

def clears : Op → Bool
  | .beginMeasuring | .endMeasuring | .reset => true
  | _ => false

def settles : Op → Bool
  | .endMeasuring | .reset => true
  | _ => false

end Op

def recent (ops : List Op) : List Op := ops.rtakeWhile fun op => !op.clears

def opened (ops : List Op) : Bool :=
  (ops.rdropWhile fun op => !op.clears).getLast?.any Op.opens

def sampled (ops : List Op) : List Int8 :=
  if opened ops then (recent ops).filterMap Op.sample? else []

theorem opened_concat (ops : List Op) (op : Op) :
    opened (ops ++ [op]) = if op.clears then op.opens else opened ops := by
  unfold opened
  rw [List.rdropWhile_concat]
  cases h : op.clears <;> simp

theorem sampled_concat (ops : List Op) (op : Op) :
    sampled (ops ++ [op]) =
      if op.clears then [] else if opened ops then sampled ops ++ op.sample?.toList else [] := by
  unfold sampled recent
  rw [opened_concat, List.rtakeWhile_concat]
  cases op.clears with
  | true => simp
  | false =>
    cases opened ops with
    | true => cases h : op.sample? <;> simp [h]
    | false => rfl

/-- The window of a survey is as a history of operations says. -/
structure Recalls (s : Survey) (ops : List Op) : Prop where
  measuring : s.measuring = opened ops
  window : s.window.Follows (sampled ops)

theorem recalls_nil : ({} : Survey).Recalls [] where
  measuring := rfl
  window := Ring.follows_clear (.blank 0) (by decide)

/-- An operation that neither clears the window nor brings a sample leaves it alone. -/
theorem step_keeps (s : Survey) {op : Op} (hc : op.clears = false) (hs : op.sample? = none) :
    (s.step op).measuring = s.measuring ∧ (s.step op).window = s.window := by
  cases op with
  | note id position rssi now =>
    obtain ⟨hm, hw, -⟩ := s.note_keeps id position rssi now
    exact ⟨hm, hw⟩
  | beginMeasuring | endMeasuring | reset => cases hc
  | sample => cases hs
  | _ => exact ⟨rfl, rfl⟩

theorem step_clears (s : Survey) {op : Op} (hc : op.clears = true) :
    (s.step op).measuring = op.opens ∧ (s.step op).window = s.window.clear := by
  cases op with
  | beginMeasuring | endMeasuring | reset => exact ⟨rfl, rfl⟩
  | _ => cases hc

theorem eq_sample_of_sample? {op : Op} {rssi : Int8} (h : op.sample? = some rssi) :
    op = .sample rssi := by
  cases op with
  | sample => cases h; rfl
  | _ => cases h

theorem sampled_of_closed {ops : List Op} (h : opened ops = false) : sampled ops = [] := by
  rw [sampled, h]
  rfl

theorem Recalls.step {s : Survey} {ops : List Op} (h : s.Recalls ops) (op : Op) :
    (s.step op).Recalls (ops ++ [op]) := by
  have hopened := opened_concat ops op
  have hsampled := sampled_concat ops op
  cases hc : op.clears with
  | true =>
    obtain ⟨hm, hw⟩ := s.step_clears hc
    rw [hc, if_pos rfl] at hopened hsampled
    refine ⟨hm.trans hopened.symm, ?_⟩
    rw [hw, hsampled]
    exact s.window.follows_clear (by decide)
  | false =>
    rw [hc, if_neg Bool.false_ne_true] at hopened hsampled
    cases hs : op.sample? with
    | none =>
      obtain ⟨hm, hw⟩ := s.step_keeps hc hs
      have hsame : sampled (ops ++ [op]) = sampled ops := by
        rw [hsampled, hs]
        split
        · exact List.append_nil _
        · next hclosed => exact (sampled_of_closed (Bool.eq_false_iff.2 hclosed)).symm
      refine ⟨(hm.trans h.measuring).trans hopened.symm, ?_⟩
      rw [hw, hsame]
      exact h.window
    | some rssi =>
      obtain rfl := eq_sample_of_sample? hs
      have hm := (s.sample_keeps rssi).1
      refine ⟨(hm.trans h.measuring).trans hopened.symm, ?_⟩
      have hw : (s.step (.sample rssi)).window =
          if opened ops then s.window.push rssi else s.window := by
        rw [← h.measuring]
        exact apply_ite Survey.window ..
      rw [hw, hsampled]
      split
      · exact h.window.push rssi
      · next hclosed =>
        exact sampled_of_closed (Bool.eq_false_iff.2 hclosed) ▸ h.window

theorem recalls_run (ops : List Op) : (({} : Survey).run ops).Recalls ops := by
  induction ops using List.reverseRecOn with
  | nil => exact recalls_nil
  | append_singleton ops op ih =>
    rw [run, List.foldl_concat]
    exact ih.step op

/-! ## The crowding -/

theorem lastCrowding_step (s : Survey) {op : Op} (h : op.settles = false) :
    (s.step op).lastCrowding = s.lastCrowding := by
  cases op with
  | note id position rssi now => exact (s.note_keeps id position rssi now).2.2
  | sample rssi => exact (s.sample_keeps rssi).2
  | endMeasuring | reset => cases h
  | _ => rfl

theorem lastCrowding_run (s : Survey) {ops : List Op} (h : ∀ op ∈ ops, op.settles = false) :
    (s.run ops).lastCrowding = s.lastCrowding := by
  induction ops generalizing s with
  | nil => rfl
  | cons op ops ih =>
    obtain ⟨hop, hops⟩ := List.forall_mem_cons.1 h
    exact (ih (s.step op) hops).trans (s.lastCrowding_step hop)

theorem run_append (s : Survey) (before after : List Op) :
    s.run (before ++ after) = (s.run before).run after :=
  List.foldl_append

section follows
variable {s : Survey} {xs : List Int8} (h : s.window.Follows xs)
include h

theorem crowdingOf_held : Relay.crowdingOf s.window.held = Relay.crowdingOf (xs.rtake 100) := by
  rw [← h.inOrder, h.rotate]
  exact (Relay.crowdingOf_perm (List.rotate_perm _ _)).symm

theorem crowding_of_follows :
    s.crowding = if xs = [] then s.lastCrowding else Relay.crowdingOf (xs.rtake 100) := by
  have hlen := Ring.length_inOrder h.inBounds.size_le
  rw [h.inOrder, List.rtake, List.length_drop] at hlen
  have hempty : s.window.isEmpty = decide (xs = []) := by
    rw [Ring.isEmpty, decide_eq_decide, ← List.length_eq_zero_iff]
    omega
  rw [crowding, hempty, crowdingOf_held h]
  simp only [decide_eq_true_eq]

end follows

/-- After any history the window holds the last hundred samples taken since it was opened, the
oldest of them in its first cell, and what comes through a closed window is not seen. The crowding
is that of the samples held. Without any it is what the last end of a measurement found, or zero if
there was none since the start or the last reset. -/
theorem window_holds_latest (ops : List Op) :
    let s := ({} : Survey).run ops
    s.measuring = opened ops ∧
      s.window.checkedHeld = some s.window.held ∧
      s.window.held.rotate s.window.first = (sampled ops).rtake 100 ∧
      (s.measuring = false → ∀ rssi, s.step (.sample rssi) = s) ∧
      (sampled ops ≠ [] → s.crowding = Relay.crowdingOf s.window.held ∧
        s.crowding = Relay.crowdingOf ((sampled ops).rtake 100)) ∧
      (sampled ops = [] → s.crowding = s.lastCrowding) ∧
      (∀ before after, ops = before ++ .endMeasuring :: after →
        (∀ op ∈ after, op.settles = false) →
          s.lastCrowding = (({} : Survey).run before).crowding) ∧
      (∀ before after, ops = before ++ .reset :: after →
        (∀ op ∈ after, op.settles = false) → s.lastCrowding = 0.0) ∧
      ((∀ op ∈ ops, op.settles = false) → s.lastCrowding = 0.0) := by
  intro s
  obtain ⟨hmeasuring, hwindow⟩ := recalls_run ops
  have hcrowding := crowding_of_follows hwindow
  refine ⟨hmeasuring, hwindow.inBounds.checkedHeld_eq, hwindow.rotate.symm.trans hwindow.inOrder,
    fun hclosed rssi => ?_, fun hsome => ?_, fun hnone => ?_, ?_, ?_,
    fun hafter => lastCrowding_run {} hafter⟩
  · exact if_neg (Bool.eq_false_iff.1 hclosed)
  · rw [if_neg hsome] at hcrowding
    exact ⟨hcrowding.trans (crowdingOf_held hwindow).symm, hcrowding⟩
  · rw [if_pos hnone] at hcrowding
    exact hcrowding
  · rintro before after rfl hafter
    have hrun : s = ((({} : Survey).run before).step .endMeasuring).run after := run_append ..
    rw [hrun, lastCrowding_run _ hafter]
    rfl
  · rintro before after rfl hafter
    have hrun : s = ((({} : Survey).run before).step .reset).run after := run_append ..
    rw [hrun, lastCrowding_run _ hafter]
    rfl

/-- Two samples more than the window has room for, one before it was opened, and one after it was
closed. -/
theorem window_holds_latest_once_full :
    let ops : List Op := .sample 0 :: .beginMeasuring :: (List.replicate 100 (.sample (-90)) ++
      [.sample (-40), .sample (-41)])
    let later : List Op := [.sample 0, .beginMeasuring]
    (sampled ops ≠ [] ∧ sampled (ops ++ .endMeasuring :: later) = [] ∧
        ∀ op ∈ later, op.settles = false) ∧
      (({} : Survey).run ops).window.held.rotate (({} : Survey).run ops).window.first =
        List.replicate 98 (-90) ++ [-40, -41] ∧
      (({} : Survey).run ops).crowding =
        Relay.crowdingOf (({} : Survey).run ops).window.held ∧
      (({} : Survey).run (ops ++ .endMeasuring :: later)).crowding =
        (({} : Survey).run ops).crowding := by
  intro ops later
  have hsome : sampled ops ≠ [] := by decide
  have hnone : sampled (ops ++ .endMeasuring :: later) = [] := by decide
  have hlater : ∀ op ∈ later, op.settles = false := by
    intro op hop
    obtain rfl | rfl : op = .sample 0 ∨ op = .beginMeasuring := by simpa [later] using hop
    · rfl
    · rfl
  have hlatest : (sampled ops).rtake 100 = List.replicate 98 (-90) ++ [-40, -41] := by
    decide +kernel
  obtain ⟨-, -, hheld, -, hcrowding, -⟩ := window_holds_latest ops
  obtain ⟨-, -, -, -, -, hlast, hfound, -⟩ :=
    window_holds_latest (ops ++ .endMeasuring :: later)
  exact ⟨⟨hsome, hnone, hlater⟩, hheld.trans hlatest, (hcrowding hsome).1,
    (hlast hnone).trans (hfound ops later rfl hlater)⟩

end Survey
end ClusterMesh
