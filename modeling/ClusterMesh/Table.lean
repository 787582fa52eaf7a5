/-! Finite maps as lists of entries in order of insertion, each key once. A table has no
limit of its own: who keeps one within a capacity asks `isFull` before adding a key. -/
namespace ClusterMesh

structure Table (κ ν : Type) where
  entries : List (κ × ν)
  nodup_keys : (entries.map Prod.fst).Nodup

namespace Table
variable {κ ν : Type}

def empty : Table κ ν := ⟨[], List.nodup_nil⟩

instance : Inhabited (Table κ ν) := ⟨empty⟩

def size (t : Table κ ν) : Nat := t.entries.length
def keys (t : Table κ ν) : List κ := t.entries.map Prod.fst
def values (t : Table κ ν) : List ν := t.entries.map Prod.snd
def isFull (t : Table κ ν) (cap : Nat) : Bool := cap ≤ t.size

def filter (t : Table κ ν) (p : κ → ν → Bool) : Table κ ν :=
  ⟨t.entries.filter fun e => p e.1 e.2,
    t.nodup_keys.sublist ((List.filter_sublist).map _)⟩

def mapValues {μ : Type} (t : Table κ ν) (f : κ → ν → μ) : Table κ μ :=
  ⟨t.entries.map fun e => (e.1, f e.1 e.2), by
    simpa [List.map_map, Function.comp_def] using t.nodup_keys⟩

variable [DecidableEq κ]

def get? (t : Table κ ν) (k : κ) : Option ν :=
  (t.entries.find? fun e => e.1 = k).map Prod.snd

def contains (t : Table κ ν) (k : κ) : Bool := (t.get? k).isSome

def place (k : κ) (v : ν) : List (κ × ν) → List (κ × ν)
  | [] => [(k, v)]
  | e :: es => if e.1 = k then (k, v) :: es else e :: place k v es

theorem keys_place (k : κ) (v : ν) (es : List (κ × ν)) :
    (place k v es).map Prod.fst =
      if k ∈ es.map Prod.fst then es.map Prod.fst else es.map Prod.fst ++ [k] := by
  induction es with
  | nil => simp [place]
  | cons e es ih =>
    unfold place
    split
    · next h => simp [← h]
    · next h =>
      have : k ≠ e.1 := fun c => h c.symm
      simp only [List.map_cons, ih, List.mem_cons, this, false_or]
      split <;> simp

/-- The table with `k` bound to `v`. A known key keeps its place in the order. -/
def insert (t : Table κ ν) (k : κ) (v : ν) : Table κ ν :=
  ⟨place k v t.entries, by
    rw [keys_place]
    split
    · exact t.nodup_keys
    · next h =>
      rw [List.nodup_append]
      refine ⟨t.nodup_keys, by simp, ?_⟩
      intro a ha b hb
      rw [List.mem_singleton] at hb
      exact fun c => h (hb ▸ c ▸ ha)⟩

def modify (t : Table κ ν) (k : κ) (f : ν → ν) : Table κ ν :=
  t.mapValues fun k' v => if k' = k then f v else v

def retain (t : Table κ ν) (p : κ → ν → Bool) : Table κ ν × Nat :=
  let kept := t.filter p
  (kept, t.size - kept.size)

def ofList (es : List (κ × ν)) : Table κ ν :=
  es.foldl (fun t e => t.insert e.1 e.2) empty

/-! ## Size -/

omit [DecidableEq κ] in
theorem size_eq_keys (t : Table κ ν) : t.size = t.keys.length := by simp [size, keys]

omit [DecidableEq κ] in
theorem size_filter_le (t : Table κ ν) (p : κ → ν → Bool) : (t.filter p).size ≤ t.size :=
  List.length_filter_le _ _

omit [DecidableEq κ] in
/-- What is not retained is counted. -/
theorem retain_snd (t : Table κ ν) (p : κ → ν → Bool) :
    (t.retain p).2 = t.entries.countP fun e => !p e.1 e.2 := by
  have hall := t.entries.length_eq_countP_add_countP fun e => p e.1 e.2
  have hkept : (t.filter p).size = t.entries.countP fun e => p e.1 e.2 :=
    List.countP_eq_length_filter.symm
  have hgone : (t.retain p).2 = t.entries.length - (t.filter p).size := rfl
  simp only [Bool.not_eq_true, Bool.decide_eq_false] at hall
  omega

omit [DecidableEq κ] in
theorem size_mapValues {μ : Type} (t : Table κ ν) (f : κ → ν → μ) :
    (t.mapValues f).size = t.size :=
  List.length_map _

/-- A known key adds nothing to the size, a new one adds one. -/
theorem size_insert (t : Table κ ν) (k : κ) (v : ν) :
    (t.insert k v).size = if (t.get? k).isSome then t.size else t.size + 1 := by
  have hmem : (t.get? k).isSome = true ↔ k ∈ t.entries.map Prod.fst := by
    simp [get?, List.find?_isSome]
  rw [size_eq_keys, size_eq_keys]
  unfold keys insert
  rw [keys_place]
  split
  · next h => rw [if_pos (hmem.2 h)]
  · next h => rw [if_neg (mt hmem.1 h), List.length_append, List.length_singleton]

/-! ## Look-up -/

@[simp] theorem get?_empty (k : κ) : (empty : Table κ ν).get? k = none := rfl

theorem find?_place (k k' : κ) (v : ν) (es : List (κ × ν)) :
    (place k v es).find? (fun e => e.1 = k') =
      if k = k' then some (k, v) else es.find? fun e => e.1 = k' := by
  induction es with
  | nil => by_cases h : k = k' <;> simp [place, h]
  | cons e es ih =>
    unfold place
    by_cases he : e.1 = k
    · rw [if_pos he]
      by_cases h : k = k' <;> simp [he, h]
    · rw [if_neg he, List.find?_cons, List.find?_cons]
      by_cases h' : e.1 = k'
      · have hne : k ≠ k' := fun h => he (h'.trans h.symm)
        simp [h', hne]
      · simp only [h', decide_false]
        exact ih

theorem get?_insert (t : Table κ ν) (k k' : κ) (v : ν) :
    (t.insert k v).get? k' = if k = k' then some v else t.get? k' := by
  unfold get? insert
  rw [find?_place]
  split <;> rfl

theorem place_place (k : κ) (v v' : ν) (es : List (κ × ν)) :
    place k v' (place k v es) = place k v' es := by
  induction es with
  | nil => simp [place]
  | cons e es ih =>
    by_cases h : e.1 = k
    · simp [place, h]
    · simp [place, h, ih]

/-- The later of two values for a key replaces the earlier one. -/
theorem insert_insert (t : Table κ ν) (k : κ) (v v' : ν) :
    (t.insert k v).insert k v' = t.insert k v' := by
  unfold insert
  simp only [place_place]

theorem find?_of_mem {es : List (κ × ν)} (h : (es.map Prod.fst).Nodup) {k : κ} {v : ν}
    (hm : (k, v) ∈ es) : es.find? (fun e => e.1 = k) = some (k, v) := by
  induction es with
  | nil => cases hm
  | cons e es ih =>
    rw [List.map_cons, List.nodup_cons] at h
    rw [List.find?_cons]
    obtain rfl | hm := List.mem_cons.1 hm
    · simp
    · have hne : e.1 ≠ k := fun he => h.1 (he ▸ List.mem_map_of_mem hm)
      simp only [hne, decide_false]
      exact ih h.2 hm

theorem get?_eq_some_iff {t : Table κ ν} {k : κ} {v : ν} :
    t.get? k = some v ↔ (k, v) ∈ t.entries := by
  constructor
  · intro h
    obtain ⟨⟨k', v'⟩, hf, rfl⟩ := Option.map_eq_some_iff.1 h
    have hk : k' = k := by simpa using List.find?_some hf
    exact hk ▸ List.mem_of_find?_eq_some hf
  · intro h
    rw [get?, find?_of_mem t.nodup_keys h]
    rfl

theorem get?_mapValues {μ : Type} (t : Table κ ν) (f : κ → ν → μ) (k : κ) :
    (t.mapValues f).get? k = (t.get? k).map (f k) := by
  have hfind (es : List (κ × ν)) :
      ((es.map fun e => (e.1, f e.1 e.2)).find? fun e => e.1 = k).map Prod.snd =
        ((es.find? fun e => e.1 = k).map Prod.snd).map (f k) := by
    induction es with
    | nil => rfl
    | cons e es ih =>
      by_cases h : e.1 = k
      · simp [h]
      · simpa [h] using ih
  exact hfind t.entries

theorem get?_modify (t : Table κ ν) (k k' : κ) (f : ν → ν) :
    (t.modify k f).get? k' = if k' = k then (t.get? k').map f else t.get? k' := by
  rw [modify, get?_mapValues]
  split
  · rfl
  · cases t.get? k' <;> rfl

theorem get?_filter_eq_some_iff {t : Table κ ν} {p : κ → ν → Bool} {k : κ} {v : ν} :
    (t.filter p).get? k = some v ↔ t.get? k = some v ∧ p k v = true := by
  rw [get?_eq_some_iff, get?_eq_some_iff]
  exact List.mem_filter

theorem get?_filter (t : Table κ ν) (p : κ → ν → Bool) (k : κ) :
    (t.filter p).get? k = (t.get? k).filter (p k) := by
  ext v
  rw [get?_filter_eq_some_iff, Option.filter_eq_some_iff]

end Table
end ClusterMesh
