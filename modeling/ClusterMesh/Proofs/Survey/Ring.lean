import ClusterMesh.Survey.Basic

/-! Rings that hold the same values. What lies in the cells that a ring does not use has no
part in anything that is read from it, nor in what later values do to it. -/
namespace ClusterMesh.Ring
variable {α : Type} {cap : Nat}

/-- Two rings hold the same values in the same cells. -/
structure Alike (r r' : Ring α cap) : Prop where
  first : r'.first = r.first
  size : r'.size = r.size
  cells : ∀ i (h : i < cap), i < r.size → r'.cells[i] = r.cells[i]
  begins : r.size < cap → r.first = 0

theorem alike_clear (r r' : Ring α cap) : r.clear.Alike r'.clear :=
  ⟨rfl, rfl, fun _ _ hi => absurd hi (Nat.not_lt_zero _), fun _ => rfl⟩

theorem Alike.held {r r' : Ring α cap} (h : r.Alike r') : r'.held = r.held := by
  unfold Ring.held
  rw [h.size]
  apply List.ext_getElem
  · simp
  · intro i hi _
    simp only [List.length_take, Vector.length_toList] at hi
    simp only [List.getElem_take, Vector.getElem_toList]
    exact h.cells i (by omega) (by omega)

theorem Alike.inOrder {r r' : Ring α cap} (h : r.Alike r') : r'.inOrder = r.inOrder := by
  unfold Ring.inOrder
  rw [h.held, h.first]

theorem Alike.push {r r' : Ring α cap} (h : r.Alike r') (a : α) : (r.push a).Alike (r'.push a) := by
  unfold Ring.push
  rw [h.first, h.size]
  by_cases hs : r.size < cap
  · -- the next free cell is the one behind those in use
    have hnext : (r.first + r.size) % cap = r.size := by
      rw [h.begins hs, Nat.zero_add, Nat.mod_eq_of_lt hs]
    rw [if_pos hs, if_pos hs, hnext]
    refine ⟨rfl, rfl, fun i hi hlt => ?_, fun _ => h.begins hs⟩
    simp only [Vector.getElem_setIfInBounds]
    split
    · rfl
    · exact h.cells i hi (by simp only at hlt; omega)
  · rw [if_neg hs, if_neg hs]
    refine ⟨rfl, rfl, fun i hi hlt => ?_, fun hlt => absurd hlt hs⟩
    simp only [Vector.getElem_setIfInBounds]
    split
    · rfl
    · exact h.cells i hi hlt

end ClusterMesh.Ring

namespace ClusterMesh.Survey
variable {v : Survey} {w : Ring Int8 100}

theorem crowding_of_alike (h : v.window.Alike w) :
    { v with window := w }.crowding = v.crowding := by
  unfold crowding Ring.isEmpty
  rw [h.held, h.size]

/-- A message has nothing to do with the samples. -/
theorem note_keeps (v : Survey) (id : NodeId) (position : Option Position) (rssi : Int8)
    (now : Instant) :
    (v.note id position rssi now).measuring = v.measuring ∧
      (v.note id position rssi now).window = v.window ∧
      (v.note id position rssi now).lastCrowding = v.lastCrowding := by
  unfold note
  dsimp only
  split
  · exact ⟨rfl, rfl, rfl⟩
  · split <;> exact ⟨rfl, rfl, rfl⟩

theorem sample_keeps (v : Survey) (rssi : Int8) :
    (v.sample rssi).measuring = v.measuring ∧ (v.sample rssi).lastCrowding = v.lastCrowding := by
  unfold sample
  split <;> exact ⟨rfl, rfl⟩

theorem note_window (v : Survey) (w : Ring Int8 100) (id : NodeId) (position : Option Position)
    (rssi : Int8) (now : Instant) :
    { v with window := w }.note id position rssi now =
      { v.note id position rssi now with window := w } := by
  unfold note
  dsimp only
  split
  · rfl
  · split <;> rfl

theorem sample_window (h : v.window.Alike w) (rssi : Int8) :
    ∃ w', (v.sample rssi).window.Alike w' ∧
      { v with window := w }.sample rssi = { v.sample rssi with window := w' } := by
  unfold sample
  by_cases hm : v.measuring = true
  · rw [if_pos hm, if_pos hm]
    exact ⟨w.push rssi, h.push rssi, rfl⟩
  · rw [if_neg hm, if_neg hm]
    exact ⟨w, h, rfl⟩

theorem measure_window (h : v.window.Alike w) :
    { v with window := w }.measure = { v.measure with window := w } := by
  unfold measure
  dsimp only
  rw [crowding_of_alike h]
  rfl

end ClusterMesh.Survey
