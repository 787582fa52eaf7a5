/-! A forest over the numbers below `n` that tells which of them have been joined. Every
node points to its parent and a root to itself; ranks grow along the way up, so that every
way ends at a root. -/
namespace ClusterMesh.Net

structure Forest (n : Nat) where
  parent : Vector (Fin n) n
  rank : Vector Nat n
  height : Nat
  rank_lt : ∀ x : Fin n, parent[x] ≠ x → rank[x] < rank[parent[x]]
  rank_le : ∀ x : Fin n, rank[x] ≤ height

namespace Forest
variable {n : Nat}

theorem getElem_set_fin {α : Type} (v : Vector α n) (x y : Fin n) (a : α) :
    (v.set x a)[y] = if y = x then a else v[y] := by
  by_cases e : y = x
  · subst e
    simp
  · have : x.val ≠ y.val := fun c => e (Fin.ext c.symm)
    simp [Vector.getElem_set_ne, this, e]

def singletons (n : Nat) : Forest n where
  parent := Vector.ofFn id
  rank := Vector.replicate n 0
  height := 0
  rank_lt x h := absurd (by simp) h
  rank_le x := by simp

def isRoot (f : Forest n) (x : Fin n) : Prop := f.parent[x] = x

instance (f : Forest n) (x : Fin n) : Decidable (f.isRoot x) :=
  inferInstanceAs (Decidable (f.parent[x] = x))

def root (f : Forest n) (x : Fin n) : Fin n :=
  if f.isRoot x then x else root f f.parent[x]
termination_by f.height - f.rank[x]
decreasing_by
  next h =>
    have := f.rank_lt x h
    have := f.rank_le f.parent[x]
    omega

theorem root_of_isRoot {f : Forest n} {x : Fin n} (h : f.isRoot x) : f.root x = x := by
  rw [root.eq_def, if_pos h]

theorem root_of_not_isRoot {f : Forest n} {x : Fin n} (h : ¬ f.isRoot x) :
    f.root x = f.root f.parent[x] := by
  rw [root.eq_def, if_neg h]

theorem isRoot_root (f : Forest n) (x : Fin n) : f.isRoot (f.root x) := by
  fun_induction root f x with
  | case1 x h => exact h
  | case2 x h ih => exact ih

theorem rank_le_rank_root (f : Forest n) (x : Fin n) : f.rank[x] ≤ f.rank[f.root x] := by
  fun_induction root f x with
  | case1 x h =>
    simp only [root_of_isRoot h]
    exact Nat.le_refl _
  | case2 x h ih =>
    simp only [root_of_not_isRoot h]
    exact Nat.le_trans (Nat.le_of_lt (f.rank_lt x h)) ih

theorem rank_lt_rank_root (f : Forest n) {x : Fin n} (h : ¬ f.isRoot x) :
    f.rank[x] < f.rank[f.root x] := by
  simp only [root_of_not_isRoot h]
  exact Nat.lt_of_lt_of_le (f.rank_lt x h) (f.rank_le_rank_root _)

def repoint (f : Forest n) (x r : Fin n) (h : f.rank[x] < f.rank[r]) : Forest n where
  parent := f.parent.set x r
  rank := f.rank
  height := f.height
  rank_lt y hy := by
    rw [getElem_set_fin] at hy
    simp only [getElem_set_fin]
    split
    · next e => exact e ▸ h
    · next e =>
      rw [if_neg e] at hy
      exact f.rank_lt y hy
  rank_le := f.rank_le

theorem parent_repoint (f : Forest n) (x r : Fin n) (h : f.rank[x] < f.rank[r]) (y : Fin n) :
    (f.repoint x r h).parent[y] = if y = x then r else f.parent[y] :=
  getElem_set_fin ..

structure Flattened (f : Forest n) where
  forest : Forest n
  rank_eq : forest.rank = f.rank
  isRoot_of : ∀ r, f.isRoot r → forest.isRoot r

def compress (f : Forest n) (x : Fin n) : Flattened f :=
  if h : f.isRoot x then ⟨f, rfl, fun _ h => h⟩
  else
    let g := f.compress f.parent[x]
    have lt : g.forest.rank[x] < g.forest.rank[f.root x] := by
      rw [g.rank_eq]
      exact f.rank_lt_rank_root h
    ⟨g.forest.repoint x (f.root x) lt, g.rank_eq, by
      intro r hr
      have hne : r ≠ x := fun c => h (c ▸ hr)
      unfold isRoot
      rw [parent_repoint, if_neg hne]
      exact g.isRoot_of r hr⟩
termination_by f.height - f.rank[x]
decreasing_by
  have := f.rank_lt x h
  have := f.rank_le f.parent[x]
  omega

def link (f : Forest n) (top low : Fin n) (root : f.isRoot top) (same : f.rank[low] = f.rank[top])
    (ne : low ≠ top) : Forest n where
  parent := f.parent.set low top
  rank := f.rank.set top (f.rank[top] + 1)
  height := max f.height (f.rank[top] + 1)
  rank_lt y hy := by
    rw [getElem_set_fin] at hy
    simp only [getElem_set_fin]
    by_cases e : y = low
    · subst e
      simp [ne, same]
    · rw [if_neg e] at hy
      have lt := f.rank_lt y hy
      have hyt : y ≠ top := fun c => hy (c ▸ root)
      simp only [if_neg e, if_neg hyt]
      split
      · next c => simp only [c] at lt; omega
      · exact lt
  rank_le y := by
    rw [getElem_set_fin]
    split
    · exact Nat.le_max_right _ _
    · exact Nat.le_trans (f.rank_le y) (Nat.le_max_left _ _)

/-- Joins what two numbers belong to, the root of lower rank under the other. Tells whether
they were apart. -/
def union (f : Forest n) (x y : Fin n) : Bool × Forest n :=
  let rx := f.root x
  let fx := f.compress x
  let ry := fx.forest.root y
  let fy := fx.forest.compress y
  if ne : rx = ry then (false, fy.forest)
  else
    if lt : fy.forest.rank[rx] < fy.forest.rank[ry] then (true, fy.forest.repoint rx ry lt)
    else if gt : fy.forest.rank[ry] < fy.forest.rank[rx] then
      (true, fy.forest.repoint ry rx gt)
    else
      (true, fy.forest.link rx ry (fy.isRoot_of _ (fx.isRoot_of _ (f.isRoot_root x)))
        (Nat.le_antisymm (Nat.not_lt.1 lt) (Nat.not_lt.1 gt)) (fun c => ne c.symm))

end Forest
end ClusterMesh.Net
