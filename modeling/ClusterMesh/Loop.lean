/-! Loops that nothing stops but their own condition. A loop has a result exactly if finitely many
rounds lead to it. -/
namespace ClusterMesh.Loop
variable {σ ρ : Type}

section
variable (round : σ → σ ⊕ ρ)

/-- Finitely many rounds lead from a state to a result. -/
inductive Ends : σ → ρ → Prop
  | done {s : σ} {r : ρ} (h : round s = .inr r) : Ends s r
  | next {s t : σ} {r : ρ} (h : round s = .inl t) (ht : Ends t r) : Ends s r

structure Reached (s : σ) where
  state : σ
  leads : ∀ r, Ends round state r → Ends round s r

structure Result (s : σ) where
  value : ρ
  ends : Ends round s value

def step (s : σ) (t : Reached round s) : Reached round s ⊕ Option (Result round s) :=
  match h : round t.state with
  | .inl u => .inl ⟨u, fun r hr => t.leads r (.next h hr)⟩
  | .inr r => .inr (some ⟨r, t.leads r (.done h)⟩)

def runFrom (s : σ) (t : Reached round s) : Option (Result round s) :=
  (repeatM (m := Id) (step round s) t).run

def result? (s : σ) : Option ρ := (runFrom round s ⟨s, fun _ => id⟩).map (·.value)

end

variable {round : σ → σ ⊕ ρ} {s t : σ} {r : ρ}

theorem runFrom_of_inl {t u : Reached round s} (h : step round s t = .inl u) :
    runFrom round s t = runFrom round s u := by
  unfold runFrom
  rw [repeatM_eq_of_monadTail, repeatM.body, h]
  rfl

theorem runFrom_of_inr {t : Reached round s} {r? : Option (Result round s)}
    (h : step round s t = .inr r?) : runFrom round s t = r? := by
  unfold runFrom
  rw [repeatM_eq_of_monadTail, repeatM.body, h]
  rfl

theorem runFrom_of_ends (h : Ends round t r) (ht : ∀ r, Ends round t r → Ends round s r) :
    runFrom round s ⟨t, ht⟩ = some ⟨r, ht r h⟩ := by
  induction h with
  | done hr =>
    refine runFrom_of_inr ?_
    unfold step
    split
    · next hl => cases hl.symm.trans hr
    · next hr' =>
      cases hr'.symm.trans hr
      rfl
  | next hl h ih =>
    refine (runFrom_of_inl ?_).trans (ih fun r hr => ht r (.next hl hr))
    unfold step
    split
    · next hl' =>
      cases hl'.symm.trans hl
      rfl
    · next hr => cases hr.symm.trans hl

theorem result?_eq_some_iff : result? round s = some r ↔ Ends round s r := by
  unfold result?
  constructor
  · intro h
    obtain ⟨⟨r, hr⟩, -, rfl⟩ := Option.map_eq_some_iff.1 h
    exact hr
  · intro h
    rw [runFrom_of_ends h]
    rfl

theorem ends_of_inl (h : round s = .inl t) : Ends round s r ↔ Ends round t r := by
  constructor
  · intro hs
    cases hs with
    | done hr => cases h.symm.trans hr
    | next hl ht =>
      cases h.symm.trans hl
      exact ht
  · exact .next h

theorem result?_of_inl (h : round s = .inl t) : result? round s = result? round t := by
  ext r
  rw [result?_eq_some_iff, result?_eq_some_iff, ends_of_inl h]

theorem result?_of_inr (h : round s = .inr r) : result? round s = some r :=
  result?_eq_some_iff.2 (.done h)

end ClusterMesh.Loop
