import Mathlib.Data.List.Induction

/-! Histories of operations, listed oldest first: what the latest of the operations in question
says and which one it was, what all of them lead to, and since when something has been so. -/
namespace ClusterMesh
variable {σ ι κ : Type}

def latest? (f : ι → Option κ) (ops : List ι) : Option κ := (ops.filterMap f).getLast?

@[simp] theorem latest?_nil (f : ι → Option κ) : latest? f [] = none := rfl

theorem latest?_concat (f : ι → Option κ) (ops : List ι) (op : ι) :
    latest? f (ops ++ [op]) = (f op).or (latest? f ops) := by
  rw [latest?, List.filterMap_append, List.getLast?_append]
  cases h : f op <;> simp [h, latest?]

/-- What the operations of a run lead to one after the other, each in the state that it finds. -/
def along (step : σ → ι → σ) (out : σ → ι → List κ) : σ → List ι → List κ
  | _, [] => []
  | s, op :: ops => out s op ++ along step out (step s op) ops

theorem along_concat (step : σ → ι → σ) (out : σ → ι → List κ) (s : σ) (ops : List ι) (op : ι) :
    along step out s (ops ++ [op]) = along step out s ops ++ out (ops.foldl step s) op := by
  induction ops generalizing s with
  | nil => exact List.append_nil _
  | cons first ops ih => exact (congrArg _ (ih _)).trans (List.append_assoc ..).symm

structure Latest (kind : List ι → ι → Prop) (ops before : List ι) (op : ι) (after : List ι) :
    Prop where
  eq : ops = before ++ op :: after
  isOf : kind before op
  last : ∀ part next rest, after = part ++ next :: rest → ¬ kind (before ++ op :: part) next

section latest
variable {kind : List ι → ι → Prop} {ops before after : List ι} {op next : ι}

theorem latest_concat (h : kind ops op) : Latest kind (ops ++ [op]) ops op [] :=
  ⟨rfl, h, fun _ _ _ heq => absurd heq.symm (List.append_ne_nil_of_right_ne_nil _ (by simp))⟩

theorem Latest.concat (h : Latest kind ops before op after) (hn : ¬ kind ops next) :
    Latest kind (ops ++ [next]) before op (after ++ [next]) := by
  refine ⟨by simp [h.eq], h.isOf, fun part next' rest heq => ?_⟩
  obtain rfl | ⟨rest, x, rfl⟩ := List.eq_nil_or_concat rest
  · obtain ⟨rfl, hnext⟩ := List.append_inj' heq rfl
    rw [← List.singleton_inj.1 hnext, ← h.eq]
    exact hn
  · rw [List.concat_eq_append, ← List.cons_append, ← List.append_assoc] at heq
    exact h.last part next' rest (List.append_inj' heq rfl).1

end latest

/-- Something is so since the operation `op`: not yet after `before`, and always from there on. -/
structure Since (P : List ι → Prop) (ops before : List ι) (op : ι) (after : List ι) : Prop where
  eq : ops = before ++ op :: after
  unmet : ¬ P before
  lasts : ∀ part, part <+: after → P (before ++ op :: part)

section since
variable {P : List ι → Prop} {ops before after : List ι} {op last : ι}

theorem Since.holds (h : Since P ops before op after) : P ops :=
  h.eq ▸ h.lasts after (List.prefix_refl _)

theorem since_concat (h : ¬ P ops) (h' : P (ops ++ [last])) :
    Since P (ops ++ [last]) ops last [] :=
  ⟨rfl, h, fun _ hpart => List.prefix_nil.1 hpart ▸ h'⟩

theorem Since.concat (h : Since P ops before op after) (h' : P (ops ++ [last])) :
    Since P (ops ++ [last]) before op (after ++ [last]) := by
  have heq : ops ++ [last] = before ++ op :: (after ++ [last]) := by simp [h.eq]
  refine ⟨heq, h.unmet, fun part hpart => ?_⟩
  obtain rfl | hpart := List.prefix_concat_iff.1 hpart
  · exact heq ▸ h'
  · exact h.lasts part hpart

/-- What is so in the end either came with the last operation or was so before it. -/
theorem Since.of_concat (h : Since P (ops ++ [last]) before op after) :
    before = ops ∧ op = last ∧ after = [] ∨
      ∃ rest, after = rest ++ [last] ∧ Since P ops before op rest := by
  obtain ⟨heq, hunmet, hlasts⟩ := h
  obtain rfl | ⟨rest, x, rfl⟩ := List.eq_nil_or_concat after
  · obtain ⟨rfl, hop⟩ := List.append_inj' heq rfl
    exact .inl ⟨rfl, (List.singleton_inj.1 hop).symm, rfl⟩
  · rw [List.concat_eq_append, ← List.cons_append, ← List.append_assoc] at heq
    obtain ⟨rfl, hx⟩ := List.append_inj' heq rfl
    obtain rfl := List.singleton_inj.1 hx
    refine .inr ⟨rest, by simp, rfl, hunmet, fun part hpart => ?_⟩
    exact hlasts part (hpart.trans (by simp))

theorem exists_since (h₀ : ¬ P []) (h : P ops) :
    ∃ before op after, Since P ops before op after := by
  induction ops using List.reverseRecOn with
  | nil => exact absurd h h₀
  | append_singleton ops last ih =>
    by_cases hbefore : P ops
    · obtain ⟨before, op, after, hsince⟩ := ih hbefore
      exact ⟨before, op, after ++ [last], hsince.concat h⟩
    · exact ⟨ops, last, [], since_concat hbefore h⟩

end since

end ClusterMesh
