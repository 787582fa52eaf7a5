import Mathlib
import ClusterMesh.Net.Scenario

/-! How links are kept. A link is found by its ends in either order, since it is kept under them in
the order of their names, and all ways to lay out and change a topology leave it so. The neighbors
of a node are then exactly the nodes that an active link joins it with. -/
namespace ClusterMesh

theorem Table.mem_keys_iff {κ ν : Type} [DecidableEq κ] {t : Table κ ν} {k : κ} :
    k ∈ t.keys ↔ (t.get? k).isSome = true := by
  simp [keys, get?, List.find?_isSome]

theorem Table.mem_keys_insert {κ ν : Type} [DecidableEq κ] {t : Table κ ν} {k k' : κ} {v : ν} :
    k' ∈ (t.insert k v).keys ↔ k' = k ∨ k' ∈ t.keys := by
  rw [mem_keys_iff, mem_keys_iff, get?_insert]
  split
  · next h => simp [h]
  · next h => simp [Ne.symm h]

theorem Table.keys_mapValues {κ ν μ : Type} (t : Table κ ν) (f : κ → ν → μ) :
    (t.mapValues f).keys = t.keys := by
  simp [keys, mapValues, Function.comp_def]

namespace Net

theorem ends_comm (a b : NodeId) : ends a b = ends b a := by
  simp only [ends, UInt32.lt_iff_toNat_lt]
  split <;> split
  · omega
  · rfl
  · rfl
  · have h : a = b := UInt32.toNat.inj (by omega)
    rw [h]

theorem ends_ends (a b : NodeId) : ends (ends a b).1 (ends a b).2 = ends a b := by
  by_cases h : a < b
  · simp only [ends, if_pos h]
  · have hends : ends a b = (b, a) := if_neg h
    rw [hends, ends_comm, hends]

theorem ends_eq_ends_iff {a b c d : NodeId} :
    ends a b = ends c d ↔ a = c ∧ b = d ∨ a = d ∧ b = c := by
  constructor
  · intro h
    simp only [ends] at h
    split at h <;> split at h <;> simp_all
  · rintro (⟨rfl, rfl⟩ | ⟨rfl, rfl⟩)
    · rfl
    · exact ends_comm a b

/-- The other end of a link together with the one it is seen from. -/
theorem ends_of_opposite? {n m : NodeId} {e : NodeId × NodeId} (he : ends e.1 e.2 = e)
    (h : opposite? n e = some m) : ends n m = e := by
  simp only [opposite?] at h
  split at h
  · next hn =>
    cases h
    rw [← hn, he]
  · split at h
    · next hn =>
      cases h
      rw [← hn, ends_comm, he]
    · cases h

theorem isSome_opposite? (n : NodeId) (e : NodeId × NodeId) :
    (opposite? n e).isSome = (decide (e.1 = n) || decide (e.2 = n)) := by
  simp only [opposite?]
  split
  · next h => simp [h]
  · next h => split <;> simp [*]

theorem opposite?_ends (n m : NodeId) : opposite? n (ends n m) = some m := by
  by_cases h : n < m
  · simp [opposite?, ends, h]
  · by_cases hm : m = n
    · simp [opposite?, ends, hm]
    · simp [opposite?, ends, h, hm]

namespace Topology

/-- Every link is kept under its ends in the order of their names. -/
def Canonical (t : Topology) : Prop := ∀ e ∈ t.links.keys, ends e.1 e.2 = e

def degree (t : Topology) (n : NodeId) : Nat :=
  t.links.entries.countP fun e => e.2.active && (e.1.1 = n || e.1.2 = n)

/-! ## Layouts and changes -/

section layouts
variable {t : Topology}

theorem canonical_empty : ({} : Topology).Canonical := nofun

theorem Canonical.of_keys {u : Topology} (h : t.Canonical) (hk : u.links.keys = t.links.keys) :
    u.Canonical := by
  intro e he
  exact h e (hk ▸ he)

theorem Canonical.mapValues (h : t.Canonical) (f : NodeId × NodeId → Link → Link) :
    ({ t with links := t.links.mapValues f } : Topology).Canonical :=
  h.of_keys (t.links.keys_mapValues f)

theorem Canonical.join (h : t.Canonical) (a b : NodeId) (l : Link) : (t.join a b l).Canonical := by
  intro e he
  obtain rfl | hold := Table.mem_keys_insert.1 he
  · exact ends_ends a b
  · exact h e hold

theorem Canonical.place (h : t.Canonical) (n : NodeId) (x y : Float) : (t.place n x y).Canonical :=
  h

theorem Canonical.adjust (h : t.Canonical) (a b : NodeId) (f : Link → Link) :
    (t.adjust a b f).Canonical :=
  h.mapValues _

theorem Canonical.adjustAll (h : t.Canonical) (f : Link → Link) : (t.adjustAll f).Canonical :=
  h.mapValues _

theorem Canonical.partition (h : t.Canonical) (groups : List (List NodeId)) :
    (t.partition groups).Canonical :=
  h.mapValues _

theorem Canonical.foldl {α : Type} {f : Topology → α → Topology}
    (hf : ∀ t a, t.Canonical → (f t a).Canonical) (h : t.Canonical) (as : List α) :
    (as.foldl f t).Canonical := by
  induction as generalizing t with
  | nil => exact h
  | cons a as ih => exact ih (hf t a h)

theorem canonical_ofPairs (pairs : List (NodeId × NodeId)) : (ofPairs pairs).Canonical :=
  canonical_empty.foldl (fun _ p ht => ht.join p.1 p.2 {}) pairs

theorem canonical_star (nodes : List NodeId) : (star nodes).Canonical := by
  cases nodes with
  | nil => exact canonical_empty
  | cons hub others => exact canonical_ofPairs _

theorem Canonical.patch {n : Nat} (h : t.Canonical) (nodes : Vector NodeId n)
    (edges : List (Edge n)) : (t.patch nodes edges).Canonical := by
  have hsurvey (es : List (Edge n)) (p : Patchwork n) :
      (es.foldl Patchwork.survey p).topology = p.topology := by
    induction es generalizing p with
    | nil => rfl
    | cons e es ih =>
      have hone : (p.survey e).topology = p.topology := by
        simp only [Patchwork.survey]
        split <;> rfl
      exact (ih (p.survey e)).trans hone
  have hmend (p : Patchwork n) (e : Edge n) (hp : p.topology.Canonical) :
      (p.mend e).topology.Canonical := by
    simp only [Patchwork.mend, Patchwork.unite]
    cases (p.forest.union e.a e.b).1 with
    | true => exact hp.join _ _ _
    | false => exact hp
  have hmendAll (es : List (Edge n)) (p : Patchwork n) (hp : p.topology.Canonical) :
      (p.mendAll es).topology.Canonical := by
    induction es generalizing p with
    | nil => exact hp
    | cons e es ih =>
      simp only [Patchwork.mendAll]
      split
      · exact hp
      · split
        · exact ih p hp
        · exact ih _ (hmend p e hp)
  apply hmendAll
  rw [hsurvey]
  exact h

theorem canonical_scattered (nodes : List NodeId) (seed : UInt64) (side range : Float) :
    (scattered nodes seed side range).Canonical := by
  have hplaced : ((nodes.zip (scatter side nodes.length seed)).foldl
      (fun t p => t.place p.1 p.2.1 p.2.2) ({} : Topology)).Canonical :=
    canonical_empty.foldl
      (fun _ (p : NodeId × Float × Float) ht => ht.place p.1 p.2.1 p.2.2) _
  simp only [scattered]
  split
  · exact hplaced
  · refine Canonical.patch (hplaced.foldl (fun t e ht => ?_) _) _ _
    split
    · exact ht.join _ _ _
    · exact ht

/-- The topology of a scenario, unless it is given with links that cannot be found. -/
theorem canonical_topology (s : Scenario) (h : ∀ t, s.arrangement = .given t → t.Canonical) :
    s.topology.Canonical := by
  have hset {t : Topology} (ht : t.Canonical) :
      ((if 0.0 < s.loss then t.setLoss s.loss else t).setDelay s.delay).Canonical := by
    apply Canonical.adjustAll
    split
    · exact ht.adjustAll _
    · exact ht
  simp only [Scenario.topology]
  cases ha : s.arrangement with
  | full | line => exact hset (canonical_ofPairs _)
  | star => exact hset (canonical_star _)
  | field side range => exact hset (canonical_scattered _ _ _ _)
  | given t => exact hset (h t ha)

end layouts

theorem connected_join (t : Topology) (a b : NodeId) (l : Link) (c d : NodeId) :
    (t.join a b l).connected c d = if ends a b = ends c d then l.active else t.connected c d := by
  simp only [connected, link?, Topology.join, Table.get?_insert]
  by_cases h : ends a b = ends c d
  · simp only [if_pos h]
  · simp only [if_neg h]

theorem connected_comm (t : Topology) (a b : NodeId) : t.connected a b = t.connected b a := by
  simp only [connected, link?, ends_comm a b]

def graph (t : Topology) : SimpleGraph NodeId :=
  SimpleGraph.fromRel fun a b => t.connected a b = true

/-! ## Neighbors -/

section neighbors
variable {t : Topology} {n m : NodeId}

theorem mem_neighbors :
    m ∈ t.neighbors n ↔ ∃ e l, (e, l) ∈ t.links.entries ∧ l.active = true ∧
      opposite? n e = some m := by
  simp [neighbors, List.mem_mergeSort, List.mem_filterMap]

theorem link?_of_mem_neighbors (h : t.Canonical) (hm : m ∈ t.neighbors n) :
    ∃ l, t.link? n m = some l ∧ l.active = true := by
  obtain ⟨e, l, hl, hactive, he⟩ := mem_neighbors.1 hm
  have hcanonical : ends e.1 e.2 = e := h e (List.mem_map_of_mem hl)
  refine ⟨l, ?_, hactive⟩
  rw [link?, ends_of_opposite? hcanonical he]
  exact Table.get?_eq_some_iff.2 hl

theorem mem_neighbors_iff (h : t.Canonical) :
    m ∈ t.neighbors n ↔ ∃ l, t.link? n m = some l ∧ l.active = true := by
  constructor
  · exact link?_of_mem_neighbors h
  · rintro ⟨l, hl, hactive⟩
    exact mem_neighbors.2 ⟨_, l, Table.get?_eq_some_iff.1 hl, hactive, opposite?_ends n m⟩

theorem length_neighbors (t : Topology) (n : NodeId) : (t.neighbors n).length = t.degree n := by
  simp only [neighbors, degree, List.length_mergeSort, List.length_filterMap_eq_countP]
  congr 1
  funext e
  cases h : e.2.active <;> simp [isSome_opposite?]

end neighbors
end Topology
end Net
end ClusterMesh
