import ClusterMesh.Loop
import ClusterMesh.Proofs.Checked.Basic
import ClusterMesh.Proofs.History
import ClusterMesh.Proofs.Net.Patchwork

/-! Forests as they lie in memory, moved by loops that nothing stops but their own conditions. A
place outside of the memory has no value, and a loop that goes on for ever has no end, so what has
a result ended within bounds. From single numbers on every search and every union has one: it is
that of the forest that the memory holds. -/
namespace ClusterMesh

namespace Checked
variable {σ ρ : Type} {round : σ → Option (σ ⊕ ρ)} {s t : σ} {r : ρ}

def loop? (round : σ → Option (σ ⊕ ρ)) (s : σ) : Option ρ :=
  (Loop.result? (fun s => (round s).elim (.inr none) (Sum.map id some)) s).join

theorem loop?_of_inr (h : round s = some (.inr r)) : loop? round s = some r := by
  have hround : (round s).elim (.inr none) (Sum.map id some) = .inr (some r) := by
    rw [h]
    rfl
  rw [loop?, Loop.result?_of_inr hround]
  rfl

theorem loop?_of_inl (h : round s = some (.inl t)) : loop? round s = loop? round t := by
  have hround : (round s).elim (.inr none) (Sum.map id some) = .inl t := by
    rw [h]
    rfl
  rw [loop?, Loop.result?_of_inl hround, loop?]

end Checked

namespace Net
variable {n : Nat}

inductive Forest.Op (n : Nat)
  | find (x : Fin n)
  | union (x y : Fin n)

/-- A number for the parent of every number, which may lie anywhere, and the ranks. -/
structure Pointers (n : Nat) where
  parent : Vector Nat n
  rank : Vector Nat n

namespace Pointers

def start (n : Nat) : Pointers n := ⟨Vector.ofFn fun i => i.val, Vector.replicate n 0⟩

def climbRound (parent : Vector Nat n) (x : Nat) : Option (Nat ⊕ Nat) := do
  let up ← Checked.look parent x
  pure (if up = x then .inr x else .inl up)

def shortenRound (root : Nat) (s : Vector Nat n × Nat) :
    Option (Vector Nat n × Nat ⊕ Vector Nat n) := do
  let up ← Checked.look s.1 s.2
  if up = root then pure (.inr s.1)
  else
    let parent ← Checked.put s.1 s.2 root
    pure (.inl (parent, up))

def find? (p : Pointers n) (x : Nat) : Option (Nat × Pointers n) := do
  let root ← Checked.loop? (climbRound p.parent) x
  let parent ← Checked.loop? (shortenRound root) (p.parent, x)
  pure (root, { p with parent })

def union? (p : Pointers n) (x y : Nat) : Option (Bool × Pointers n) := do
  let (rx, p) ← p.find? x
  let (ry, p) ← p.find? y
  if rx = ry then pure (false, p)
  else
    let kx ← Checked.look p.rank rx
    let ky ← Checked.look p.rank ry
    if kx < ky then
      let parent ← Checked.put p.parent rx ry
      pure (true, { p with parent })
    else if ky < kx then
      let parent ← Checked.put p.parent ry rx
      pure (true, { p with parent })
    else
      let parent ← Checked.put p.parent ry rx
      let rank ← Checked.put p.rank rx (kx + 1)
      pure (true, ⟨parent, rank⟩)

def step? (p : Pointers n) : Forest.Op n → Option (List Bool × Pointers n)
  | .find x => do
    let (_, p) ← p.find? x
    pure ([], p)
  | .union x y => do
    let (apart, p) ← p.union? x y
    pure ([apart], p)

def run? (p : Pointers n) : List (Forest.Op n) → Option (List Bool × Pointers n)
  | [] => some ([], p)
  | op :: ops => do
    let (first, p) ← p.step? op
    let (rest, p) ← p.run? ops
    pure (first ++ rest, p)

end Pointers

namespace Forest
variable {f : Forest n} {x y : Fin n}

def pointers (f : Forest n) : Pointers n := ⟨f.parent.map Fin.val, f.rank⟩

theorem look_parent (f : Forest n) (x : Fin n) :
    Checked.look f.pointers.parent x = some (f.parent.get x).val := by
  rw [Checked.look_eq]
  exact congrArg some (Vector.getElem_map ..)

theorem climb_eq (f : Forest n) (x : Fin n) :
    Checked.loop? (Pointers.climbRound f.pointers.parent) x = some (f.root x).val := by
  have hround (x : Fin n) : Pointers.climbRound f.pointers.parent x =
      some (if (f.parent.get x).val = x then .inr x.val else .inl (f.parent.get x).val) := by
    rw [Pointers.climbRound, look_parent]
    rfl
  fun_induction root f x with
  | case1 x h =>
    have hup : (f.parent.get x).val = x := congrArg Fin.val h
    refine Checked.loop?_of_inr ((hround x).trans ?_)
    rw [if_pos hup]
  | case2 x h ih =>
    have hup : ¬ (f.parent.get x).val = x := fun he => h (Fin.ext he)
    rw [← ih]
    refine Checked.loop?_of_inl ((hround x).trans ?_)
    rw [if_neg hup]
    rfl

/-! ## Shortening -/

theorem compress_of_isRoot (h : f.isRoot x) : (f.compress x).forest = f := by
  rw [compress.eq_def, dif_pos h]

theorem parent_compress (h : ¬ f.isRoot x) (z : Fin n) :
    (f.compress x).forest.parent.get z =
      if z = x then f.root x else (f.compress (f.parent.get x)).forest.parent.get z := by
  have hlt : (f.compress (f.parent.get x)).forest.rank.get x <
      (f.compress (f.parent.get x)).forest.rank.get (f.root x) := by
    rw [(f.compress (f.parent.get x)).rank_eq]
    exact f.rank_lt_rank_root h
  rw [compress.eq_def, dif_neg h]
  exact parent_repoint _ x (f.root x) hlt z

/-- Where a number was pointed to the root beforehand, the way above it is shortened as ever. -/
theorem parent_compress_repoint (h : f.rank.get x < f.rank.get (f.root x)) (y z : Fin n)
    (hy : f.rank.get x < f.rank.get y) (hroot : f.root y = f.root x) :
    ((f.repoint x (f.root x) h).compress y).forest.parent.get z =
      if z = x then f.root x else (f.compress y).forest.parent.get z := by
  have hparent (z : Fin n) : (f.repoint x (f.root x) h).parent.get z =
      if z = x then f.root x else f.parent.get z := parent_repoint ..
  have hne {y : Fin n} (hy : f.rank.get x < f.rank.get y) : y ≠ x := by
    rintro rfl
    exact Nat.lt_irrefl _ hy
  induction y using compress.induct f generalizing z with
  | case1 y hy' =>
    have hstill : (f.repoint x (f.root x) h).isRoot y :=
      (hparent y).trans ((if_neg (hne hy)).trans hy')
    rw [compress_of_isRoot hstill, compress_of_isRoot hy', hparent]
  | case2 y hy' _ _ ih =>
    have hup : (f.repoint x (f.root x) h).parent.get y = f.parent.get y :=
      (hparent y).trans (if_neg (hne hy))
    have hstill : ¬ (f.repoint x (f.root x) h).isRoot y := fun hr => hy' (hup.symm.trans hr)
    have htop : (f.repoint x (f.root x) h).root y = f.root x := by
      rw [root_repoint h (f.isRoot_root x) (.inr rfl), hroot, if_neg (hne h)]
    have habove : ((f.repoint x (f.root x) h).compress (f.parent.get y)).forest.parent.get z =
        if z = x then f.root x else (f.compress (f.parent.get y)).forest.parent.get z :=
      ih z (Nat.lt_trans hy (f.rank_lt y hy')) ((root_of_not_isRoot hy').symm.trans hroot)
    rw [parent_compress hstill, parent_compress hy', hup, htop, hroot, habove]
    by_cases hzy : z = y
    · rw [if_pos hzy, if_neg (hzy ▸ hne hy), if_pos hzy]
    · rw [if_neg hzy, if_neg hzy]

theorem parent_congr {f g : Forest n} (h : ∀ z, f.parent.get z = g.parent.get z) :
    f.pointers.parent = g.pointers.parent := by
  have hparent : f.parent = g.parent := by
    ext i hi
    exact congrArg Fin.val (h ⟨i, hi⟩)
  rw [pointers, hparent, pointers]

theorem put_parent (h : f.rank.get x < f.rank.get y) :
    Checked.put f.pointers.parent x y = some (f.repoint x y h).pointers.parent := by
  rw [Checked.put_eq _ x.isLt]
  exact congrArg some (Vector.map_set ..).symm

theorem shorten_eq (f : Forest n) (x : Fin n) :
    Checked.loop? (Pointers.shortenRound (f.root x)) (f.pointers.parent, x.val) =
      some (f.compress x).forest.pointers.parent := by
  have hround : Pointers.shortenRound (f.root x) (f.pointers.parent, x.val) =
      if (f.parent.get x).val = f.root x then some (.inr f.pointers.parent)
      else Checked.put f.pointers.parent x (f.root x) >>= fun parent =>
        some (.inl (parent, (f.parent.get x).val)) := by
    rw [Pointers.shortenRound, look_parent]
    rfl
  by_cases hr : f.isRoot x
  · have hup : (f.parent.get x).val = f.root x :=
      congrArg Fin.val (hr.trans (root_of_isRoot hr).symm)
    rw [if_pos hup] at hround
    rw [Checked.loop?_of_inr hround, compress_of_isRoot hr]
  · by_cases hup : f.parent.get x = f.root x
    · have hsame : f.pointers.parent = (f.compress x).forest.pointers.parent := by
        refine parent_congr fun z => ?_
        have htop : f.isRoot (f.parent.get x) := hup ▸ f.isRoot_root x
        rw [parent_compress hr, compress_of_isRoot htop]
        split
        · next hz => rw [hz, hup]
        · rfl
      rw [if_pos (congrArg Fin.val hup)] at hround
      rw [Checked.loop?_of_inr hround, hsame]
    · have hlt : f.rank.get x < f.rank.get (f.root x) := f.rank_lt_rank_root hr
      have hroot : f.root (f.parent.get x) = f.root x := (root_of_not_isRoot hr).symm
      have htop : (f.repoint x (f.root x) hlt).root (f.parent.get x) = f.root x := by
        rw [root_repoint hlt (f.isRoot_root x) (.inr rfl), hroot, if_neg]
        exact fun he => hr (he ▸ f.isRoot_root x)
      rw [if_neg fun he => hup (Fin.ext he), put_parent hlt] at hround
      have hnext := shorten_eq (f.repoint x (f.root x) hlt) (f.parent.get x)
      rw [htop] at hnext
      rw [Checked.loop?_of_inl hround, hnext]
      refine congrArg some (parent_congr fun z => ?_)
      have hlt' : f.rank.get x < f.rank.get (f.parent.get x) := f.rank_lt x hr
      rw [parent_compress_repoint hlt (f.parent.get x) z hlt' hroot, parent_compress hr]
termination_by f.height - f.rank.get x
decreasing_by
  have hlt : f.rank.get x < f.rank.get (f.parent.get x) := f.rank_lt x hr
  have hle : f.rank.get (f.parent.get x) ≤ f.height := f.rank_le _
  show f.height - f.rank.get (f.parent.get x) < f.height - f.rank.get x
  omega

/-! ## Searches and unions -/

theorem find?_eq (f : Forest n) (x : Fin n) :
    f.pointers.find? x = some ((f.root x).val, (f.compress x).forest.pointers) := by
  have hrank : f.pointers.rank = (f.compress x).forest.pointers.rank := (f.compress x).rank_eq.symm
  rw [Pointers.find?, Checked.bind_eq (climb_eq f x), Checked.bind_eq (shorten_eq f x), hrank]
  rfl

theorem put_parent_link (h : f.isRoot x) (hrank : f.rank.get y = f.rank.get x) (hne : y ≠ x) :
    Checked.put f.pointers.parent y x = some (f.link x y h hrank hne).pointers.parent := by
  rw [Checked.put_eq _ y.isLt]
  exact congrArg some (Vector.map_set ..).symm

theorem union?_eq (f : Forest n) (x y : Fin n) :
    f.pointers.union? x y = some ((f.union x y).1, (f.union x y).2.pointers) := by
  let fx := f.compress x
  let fy := fx.forest.compress y
  have hlook (z : Fin n) : Checked.look fy.forest.pointers.rank z = some (fy.forest.rank.get z) :=
    Checked.look_eq ..
  rw [Pointers.union?, Checked.bind_eq (find?_eq f x)]
  dsimp only
  rw [Checked.bind_eq (find?_eq fx.forest y)]
  dsimp only
  by_cases hne : f.root x = fx.forest.root y
  · have hunion : f.union x y = (false, fy.forest) := dif_pos hne
    rw [if_pos (congrArg Fin.val hne), hunion]
    rfl
  · rw [if_neg fun he => hne (Fin.ext he), Checked.bind_eq (hlook _), Checked.bind_eq (hlook _)]
    by_cases hlt : fy.forest.rank.get (f.root x) < fy.forest.rank.get (fx.forest.root y)
    · have hunion : f.union x y = (true, fy.forest.repoint _ _ hlt) :=
        (dif_neg hne).trans (dif_pos hlt)
      rw [if_pos hlt, Checked.bind_eq (put_parent hlt), hunion]
      rfl
    · by_cases hgt : fy.forest.rank.get (fx.forest.root y) < fy.forest.rank.get (f.root x)
      · have hunion : f.union x y = (true, fy.forest.repoint _ _ hgt) :=
          (dif_neg hne).trans ((dif_neg hlt).trans (dif_pos hgt))
        rw [if_neg hlt, if_pos hgt, Checked.bind_eq (put_parent hgt), hunion]
        rfl
      · have hroot : fy.forest.isRoot (f.root x) :=
          fy.isRoot_of _ (fx.isRoot_of _ (f.isRoot_root x))
        have hrank : fy.forest.rank.get (fx.forest.root y) = fy.forest.rank.get (f.root x) :=
          Nat.le_antisymm (Nat.not_lt.1 hlt) (Nat.not_lt.1 hgt)
        have hne' : fx.forest.root y ≠ f.root x := fun he => hne he.symm
        have hunion : f.union x y = (true, fy.forest.link _ _ hroot hrank hne') :=
          (dif_neg hne).trans ((dif_neg hlt).trans (dif_neg hgt))
        rw [if_neg hlt, if_neg hgt, Checked.bind_eq (put_parent_link hroot hrank hne'),
          Checked.bind_eq (Checked.put_eq _ (f.root x).isLt _), hunion]
        rfl

/-! ## Runs -/

def step (f : Forest n) : Op n → Forest n
  | .find x => (f.compress x).forest
  | .union x y => (f.union x y).2

def run (n : Nat) (ops : List (Op n)) : Forest n := ops.foldl step (singletons n)

def told (f : Forest n) : Op n → List Bool
  | .find _ => []
  | .union x y => [(f.union x y).1]

def answers (n : Nat) (ops : List (Op n)) : List Bool := along step told (singletons n) ops

def joins (ops : List (Op n)) : SimpleGraph (Fin n) :=
  SimpleGraph.fromRel fun x y => .union x y ∈ ops

theorem run_concat (ops : List (Op n)) (op : Op n) : run n (ops ++ [op]) = (run n ops).step op :=
  List.foldl_concat ..

theorem answers_concat (ops : List (Op n)) (op : Op n) :
    answers n (ops ++ [op]) = answers n ops ++ (run n ops).told op := along_concat ..

theorem joins_nil : joins ([] : List (Op n)) = ⊥ := by
  ext x y
  simp [joins]

theorem joins_concat_find (ops : List (Op n)) (x : Fin n) :
    joins (ops ++ [.find x]) = joins ops := by
  ext y z
  simp [joins]

theorem joins_concat_union (ops : List (Op n)) (x y : Fin n) :
    joins (ops ++ [.union x y]) = joins ops ⊔ SimpleGraph.edge x y := by
  ext z w
  simp only [joins, SimpleGraph.sup_adj, SimpleGraph.fromRel_adj, SimpleGraph.edge_adj,
    List.mem_append, List.mem_singleton, Op.union.injEq]
  tauto

theorem root_run (ops : List (Op n)) (x y : Fin n) :
    (run n ops).root x = (run n ops).root y ↔ (joins ops).Reachable x y := by
  induction ops using List.reverseRecOn generalizing x y with
  | nil => 
    rw [joins_nil, SimpleGraph.reachable_bot]
    show (singletons n).root x = (singletons n).root y ↔ _
    rw [root_singletons, root_singletons]
  | append_singleton ops op ih =>
    rw [run_concat]
    cases op with
    | find z =>
      rw [joins_concat_find, ← ih]
      simp only [step, root_compress]
    | union z w =>
      rw [joins_concat_union, reachable_sup_edge]
      simp only [step, ← ih]
      exact (unites_union ..).joined x y

/-- Every union that told that its numbers were apart left one root less. -/
theorem card_roots_run (ops : List (Op n)) :
    (run n ops).roots.card + (answers n ops).count true = n := by
  induction ops using List.reverseRecOn with
  | nil => exact card_roots_singletons n
  | append_singleton ops op ih =>
    rw [run_concat, answers_concat, List.count_append]
    cases op with
    | find z =>
      have hroots : ((run n ops).step (.find z)).roots = (run n ops).roots := by
        ext x
        rw [mem_roots, mem_roots, step, root_compress]
      rw [hroots]
      exact ih
    | union z w =>
      have hcard := (unites_union (run n ops) z w).card_roots
      have hpos : 0 < (run n ops).roots.card := Finset.card_pos.2 ⟨_, root_mem_roots _ z⟩
      rw [step, told, hcard]
      cases ((run n ops).union z w).1 with
      | false => exact ih
      | true =>
        simp only [if_true, List.count_singleton_self]
        omega

/-- The representatives are the roots. -/
theorem image_root (f : Forest n) : Finset.univ.image f.root = f.roots := by
  ext x
  rw [Finset.mem_image, mem_roots]
  constructor
  · rintro ⟨y, -, rfl⟩
    exact root_of_isRoot (f.isRoot_root y)
  · intro h
    exact ⟨x, Finset.mem_univ x, h⟩

/-! ## Runs in memory -/

theorem pointers_singletons (n : Nat) : (singletons n).pointers = Pointers.start n := by
  have hparent : (singletons n).pointers.parent = (Pointers.start n).parent := by
    ext i hi
    simp [Pointers.start, pointers, singletons]
  exact congrArg (fun parent => Pointers.mk parent (Vector.replicate n 0)) hparent

theorem step?_eq (f : Forest n) (op : Op n) :
    f.pointers.step? op = some (f.told op, (f.step op).pointers) := by
  cases op with
  | find x =>
    rw [Pointers.step?, Checked.bind_eq (find?_eq f x)]
    rfl
  | union x y =>
    rw [Pointers.step?, Checked.bind_eq (union?_eq f x y)]
    rfl

theorem run?_eq (f : Forest n) (ops : List (Op n)) :
    f.pointers.run? ops = some (along step told f ops, (ops.foldl step f).pointers) := by
  induction ops generalizing f with
  | nil => rfl
  | cons op ops ih =>
    rw [Pointers.run?, Checked.bind_eq (step?_eq f op)]
    dsimp only
    rw [Checked.bind_eq (ih (f.step op))]
    rfl

/-- Whatever is searched for and joined, from single numbers on every request ends within bounds.
A search gives the root above its number and leaves the roots of all numbers as they were. Two
numbers have one root exactly if the unions so far have joined them, a union tells whether the roots
of its numbers differ, and every union that told so left one root less. -/
theorem unions_tell_what_is_joined (ops : List (Op n)) :
    let f := run n ops
    (Pointers.start n).run? ops = some (answers n ops, f.pointers) ∧
      (∀ x : Fin n, f.pointers.find? x = some ((f.root x).val, (f.step (.find x)).pointers) ∧
        ∀ y : Fin n, (f.step (.find x)).root y = f.root y) ∧
      (∀ x y : Fin n, f.root x = f.root y ↔ (joins ops).Reachable x y) ∧
      (∀ x y : Fin n, ∃ apart,
        f.pointers.union? x y = some (apart, (f.step (.union x y)).pointers) ∧
          (apart = true ↔ f.root x ≠ f.root y)) ∧
      (Finset.univ.image f.root).card + (answers n ops).count true = n := by
  intro f
  refine ⟨?_, fun x => ⟨find?_eq f x, root_compress f x⟩, root_run ops, fun x y => ?_, ?_⟩
  · rw [← pointers_singletons]
    exact run?_eq (singletons n) ops
  · exact ⟨(f.union x y).1, union?_eq f x y, (unites_union f x y).apart⟩
  · rw [image_root]
    exact card_roots_run ops

end Forest
end Net
end ClusterMesh
