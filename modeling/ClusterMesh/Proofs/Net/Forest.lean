import Mathlib
import ClusterMesh.Net.Forest

/-! What a forest tells. Pointing numbers straight to their roots changes no root, and a union hangs
one root under another one. So two numbers come to have one root exactly if unions have joined
them, and every union that tells that its numbers were apart leaves one root less. -/
namespace ClusterMesh.Net.Forest
variable {n : Nat} {f g : Forest n} {x y z w low top : Fin n}

theorem isRoot_iff : f.isRoot x ↔ f.root x = x := by
  constructor
  · exact root_of_isRoot
  · intro h
    have hroot := f.isRoot_root x
    rw [h] at hroot
    exact hroot

/-- Where one number is hung under a root, its own way up must have led there or ended with it.
Then only what it was the root of gets another root. -/
theorem root_of_parent
    (hparent : ∀ y, g.parent.get y = if y = low then top else f.parent.get y)
    (htop : f.isRoot top) (hne : low ≠ top) (hlow : f.isRoot low ∨ f.root low = top) (y : Fin n) :
    g.root y = if f.root y = low then top else f.root y := by
  have hkeeps {y : Fin n} (h : y ≠ low) : g.parent[y] = f.parent[y] := (hparent y).trans (if_neg h)
  have hhung : g.root low = top := by
    have htop' : g.root top = top := root_of_isRoot ((hkeeps hne.symm).trans htop)
    have hparent' : g.parent[low] = top := (hparent low).trans (if_pos rfl)
    have hnot : ¬ g.isRoot low := fun h => hne (h.symm.trans hparent')
    rw [root_of_not_isRoot hnot, hparent', htop']
  fun_induction root f y with
  | case1 y h =>
    by_cases he : y = low
    · rw [if_pos he, he, hhung]
    · rw [if_neg he]
      exact root_of_isRoot ((hkeeps he).trans h)
  | case2 y h ih =>
    by_cases he : y = low
    · subst he
      have hroot := hlow.resolve_left h
      rw [root_of_not_isRoot h] at hroot
      rw [hhung, hroot, if_neg hne.symm]
    · have hnot : ¬ g.isRoot y := fun hg => h ((hkeeps he).symm.trans hg)
      rw [root_of_not_isRoot hnot, hkeeps he, ih]

theorem root_repoint (h : f.rank.get low < f.rank.get top) (htop : f.isRoot top)
    (hlow : f.isRoot low ∨ f.root low = top) (y : Fin n) :
    (f.repoint low top h).root y = if f.root y = low then top else f.root y := by
  have hne : low ≠ top := fun he => by simp [he] at h
  exact root_of_parent (f.parent_repoint low top h) htop hne hlow y

theorem root_link (htop : f.isRoot top) (h : f.rank.get low = f.rank.get top) (hne : low ≠ top)
    (hlow : f.isRoot low) (y : Fin n) :
    (f.link top low htop h hne).root y = if f.root y = low then top else f.root y :=
  root_of_parent (fun _ => getElem_set_fin ..) htop hne (.inl hlow) y

/-- Shortening ways changes no root. -/
theorem root_compress (f : Forest n) (x y : Fin n) : (f.compress x).forest.root y = f.root y := by
  induction x using compress.induct f generalizing y with
  | case1 x h =>
    rw [compress.eq_def, dif_pos h]
  | case2 x h _ _ ih =>
    have hroot : f.root f.parent[x] = f.root x := (root_of_not_isRoot h).symm
    have htop : (f.compress f.parent[x]).forest.isRoot (f.root x) :=
      (f.compress f.parent[x]).isRoot_of _ (f.isRoot_root x)
    have hne : f.root y ≠ x := fun he => h (he ▸ f.isRoot_root y)
    rw [compress.eq_def, dif_neg h]
    dsimp only
    rw [root_repoint _ htop (.inr (ih x)), ih y, if_neg hne]

inductive Unites (f : Forest n) (x y : Fin n) : Bool → Forest n → Prop
  | same {g : Forest n} (h : f.root x = f.root y) (hg : ∀ z, g.root z = f.root z) :
      Unites f x y false g
  | under {g : Forest n} {low top : Fin n} (hne : low ≠ top)
      (h : low = f.root x ∧ top = f.root y ∨ low = f.root y ∧ top = f.root x)
      (hg : ∀ z, g.root z = if f.root z = low then top else f.root z) : Unites f x y true g

theorem unites_union (f : Forest n) (x y : Fin n) :
    Unites f x y (f.union x y).1 (f.union x y).2 := by
  let fx := f.compress x
  let fy := fx.forest.compress y
  have hy : fx.forest.root y = f.root y := root_compress f x y
  have hroots (z : Fin n) : fy.forest.root z = f.root z := by
    rw [root_compress, root_compress]
  have hroot (z : Fin n) : fy.forest.isRoot (f.root z) :=
    fy.isRoot_of _ (fx.isRoot_of _ (f.isRoot_root z))
  have hy' : fy.forest.isRoot (fx.forest.root y) := hy ▸ hroot y
  simp only [union]
  split
  · next he => exact .same (he.trans hy) hroots
  · next hne =>
    have hne' := Ne.symm hne
    split
    · next lt =>
      refine .under hne (.inl ⟨rfl, hy⟩) fun z => ?_
      rw [root_repoint lt hy' (.inl (hroot x)), hroots]
    · split
      · next gt =>
        refine .under hne' (.inr ⟨hy, rfl⟩) fun z => ?_
        rw [root_repoint gt (hroot x) (.inl hy'), hroots]
      · refine .under hne' (.inr ⟨hy, rfl⟩) fun z => ?_
        rw [root_link _ _ _ hy', hroots]

variable {b : Bool}

theorem Unites.apart (h : Unites f x y b g) : b = true ↔ f.root x ≠ f.root y := by
  cases h with
  | same h => simp [h]
  | under hne h =>
    obtain ⟨rfl, rfl⟩ | ⟨rfl, rfl⟩ := h
    · simpa using hne
    · simpa using hne.symm

/-- A union joins what belonged to the one number with what belonged to the other. -/
theorem Unites.joined (h : Unites f x y b g) (z w : Fin n) : g.root z = g.root w ↔
    f.root z = f.root w ∨ f.root z = f.root x ∧ f.root y = f.root w ∨
      f.root z = f.root y ∧ f.root x = f.root w := by
  cases h with
  | same h hg =>
    rw [hg, hg, h]
    constructor
    · exact .inl
    · rintro (hz | ⟨hz, hw⟩ | ⟨hz, hw⟩)
      · exact hz
      · exact hz.trans hw
      · exact hz.trans hw
  | under hne h hg =>
    rw [hg, hg]
    obtain ⟨rfl, rfl⟩ | ⟨rfl, rfl⟩ := h <;> split <;> split <;> grind

def roots (f : Forest n) : Finset (Fin n) := Finset.univ.filter fun x => f.isRoot x

theorem mem_roots : x ∈ f.roots ↔ f.root x = x := by
  rw [roots, Finset.mem_filter, isRoot_iff]
  exact and_iff_right (Finset.mem_univ x)

theorem root_mem_roots (f : Forest n) (x : Fin n) : f.root x ∈ f.roots :=
  mem_roots.2 (root_of_isRoot (f.isRoot_root x))

theorem card_roots_singletons (n : Nat) : (singletons n).roots.card = n := by
  have hall : (singletons n).roots = Finset.univ := by
    refine Finset.filter_true_of_mem fun x _ => ?_
    simp [isRoot, singletons]
  rw [hall, Finset.card_univ, Fintype.card_fin]

theorem root_singletons (x : Fin n) : (singletons n).root x = x :=
  root_of_isRoot (by simp [isRoot, singletons])

/-- There is one root less exactly if the numbers were apart. -/
theorem Unites.card_roots (h : Unites f x y b g) :
    g.roots.card = if b then f.roots.card - 1 else f.roots.card := by
  cases h with
  | same _ hg =>
    have hroots : g.roots = f.roots := by
      ext z
      rw [mem_roots, mem_roots, hg]
    rw [hroots]
    rfl
  | @under g low top hne h hg =>
    have hlow : low ∈ f.roots := by
      obtain ⟨rfl, -⟩ | ⟨rfl, -⟩ := h
      · exact f.root_mem_roots x
      · exact f.root_mem_roots y
    have htop : f.root top = top := by
      obtain ⟨-, rfl⟩ | ⟨-, rfl⟩ := h
      · exact mem_roots.1 (f.root_mem_roots y)
      · exact mem_roots.1 (f.root_mem_roots x)
    have hroots : g.roots = f.roots.erase low := by
      ext z
      rw [Finset.mem_erase, mem_roots, mem_roots, hg]
      split
      · next hz =>
        constructor
        · rintro rfl
          exact absurd (htop.symm.trans hz) hne.symm
        · rintro ⟨hzl, hzz⟩
          exact absurd (hzz.symm.trans hz) hzl
      · next hz =>
        constructor
        · intro hzz
          exact ⟨fun he => hz (hzz.trans he), hzz⟩
        · exact fun hzz => hzz.2
    rw [hroots, Finset.card_erase_of_mem hlow]
    rfl

end ClusterMesh.Net.Forest
