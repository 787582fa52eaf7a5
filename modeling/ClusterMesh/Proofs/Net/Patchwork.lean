import ClusterMesh.Proofs.Net.Forest
import ClusterMesh.Proofs.Net.Topology

/-! How a scattered network is mended. A patchwork tells, at any moment, which nodes the links known
so far join, and in how many parts that leaves them. What is mended is therefore always the first
edge whose ends are apart, every one leaves one part less, and in the end there is one part. -/
namespace ClusterMesh.Net
variable {n : Nat}

/-! ## Graphs -/

section graphs
variable {V : Type} {G : SimpleGraph V} {a b u v : V}

theorem reachable_sup_edge_ends (G : SimpleGraph V) (a b : V) :
    (G ⊔ SimpleGraph.edge a b).Reachable a b := by
  by_cases hne : a = b
  · rw [hne]
  · apply SimpleGraph.Adj.reachable
    simp [SimpleGraph.edge_adj, hne]

/-- A way with one more edge leads to one end of it, and on from the other one. -/
theorem reachable_sup_edge : (G ⊔ SimpleGraph.edge a b).Reachable u v ↔
    G.Reachable u v ∨ G.Reachable u a ∧ G.Reachable b v ∨ G.Reachable u b ∧ G.Reachable a v := by
  have hab := reachable_sup_edge_ends G a b
  have hmono {x y : V} (h : G.Reachable x y) : (G ⊔ SimpleGraph.edge a b).Reachable x y :=
    h.mono le_sup_left
  constructor
  · intro h
    rw [SimpleGraph.reachable_iff_reflTransGen] at h
    induction h with
    | refl => exact .inl (.refl u)
    | @tail x y _ hxy ih =>
      rw [SimpleGraph.sup_adj, SimpleGraph.edge_adj] at hxy
      obtain hxy | ⟨⟨rfl, rfl⟩ | ⟨rfl, rfl⟩, -⟩ := hxy
      · obtain h | ⟨hu, h⟩ | ⟨hu, h⟩ := ih
        · exact .inl (h.trans hxy.reachable)
        · exact .inr (.inl ⟨hu, h.trans hxy.reachable⟩)
        · exact .inr (.inr ⟨hu, h.trans hxy.reachable⟩)
      · obtain h | ⟨hu, -⟩ | ⟨hu, -⟩ := ih
        · exact .inr (.inl ⟨h, .refl _⟩)
        · exact .inr (.inl ⟨hu, .refl _⟩)
        · exact .inl hu
      · obtain h | ⟨hu, -⟩ | ⟨hu, -⟩ := ih
        · exact .inr (.inr ⟨h, .refl _⟩)
        · exact .inl hu
        · exact .inr (.inr ⟨hu, .refl _⟩)
  · rintro (h | ⟨hu, hv⟩ | ⟨hu, hv⟩)
    · exact hmono h
    · exact (hmono hu).trans (hab.trans (hmono hv))
    · exact (hmono hu).trans (hab.symm.trans (hmono hv))

theorem reachable_sup_edge_of_reachable (h : G.Reachable a b) :
    (G ⊔ SimpleGraph.edge a b).Reachable u v ↔ G.Reachable u v := by
  rw [reachable_sup_edge]
  constructor
  · rintro (huv | ⟨hu, hv⟩ | ⟨hu, hv⟩)
    · exact huv
    · exact hu.trans (h.trans hv)
    · exact hu.trans (h.symm.trans hv)
  · exact .inl

theorem preconnected_of_lt {G : SimpleGraph (Fin n)} (h : ∀ i j, i < j → G.Reachable i j) :
    G.Preconnected := by
  intro i j
  obtain hij | rfl | hij := lt_trichotomy i j
  · exact h i j hij
  · exact .refl i
  · exact (h j i hij).symm

theorem Forest.card_connectedComponent {f : Forest n} {G : SimpleGraph (Fin n)}
    (h : ∀ i j, f.root i = f.root j ↔ G.Reachable i j) :
    Nat.card G.ConnectedComponent = f.roots.card := by
  have hbij : Function.Bijective fun r : f.roots => G.connectedComponentMk r := by
    constructor
    · intro r s hrs
      have hroots := (h r s).2 (SimpleGraph.ConnectedComponent.eq.1 hrs)
      rw [mem_roots.1 r.2, mem_roots.1 s.2] at hroots
      exact Subtype.ext hroots
    · intro c
      induction c using SimpleGraph.ConnectedComponent.ind with
      | _ i =>
        refine ⟨⟨f.root i, f.root_mem_roots i⟩, SimpleGraph.ConnectedComponent.eq.2 ?_⟩
        exact (h (f.root i) i).1 (root_of_isRoot (f.isRoot_root i))
  rw [← Nat.card_eq_of_bijective _ hbij, Nat.card_eq_fintype_card, Fintype.card_coe]

end graphs

/-! ## Links among the nodes -/

namespace Topology
variable {t : Topology} {nodes : Vector NodeId n}

def among (t : Topology) (nodes : Vector NodeId n) : SimpleGraph (Fin n) :=
  SimpleGraph.fromRel fun i j => t.connected (nodes.get i) (nodes.get j) = true

theorem among_adj {i j : Fin n} :
    (t.among nodes).Adj i j ↔ i ≠ j ∧ t.connected (nodes.get i) (nodes.get j) = true := by
  rw [among, SimpleGraph.fromRel_adj, t.connected_comm (nodes.get j) (nodes.get i), or_self]

def joinAlong (t : Topology) (nodes : Vector NodeId n) (e : Edge n) : Topology :=
  t.join (nodes.get e.a) (nodes.get e.b) e.link

theorem connected_joinAlong (hinj : Function.Injective nodes.get) (e : Edge n)
    (i j : Fin n) : (t.joinAlong nodes e).connected (nodes.get i) (nodes.get j) = true ↔
      (e.a = i ∧ e.b = j ∨ e.a = j ∧ e.b = i) ∨ t.connected (nodes.get i) (nodes.get j) = true := by
  rw [joinAlong, connected_join]
  simp only [ends_eq_ends_iff, hinj.eq_iff]
  split
  · next h => simp [h, Edge.link]
  · next h => simp [h]

theorem among_joinAlong (hinj : Function.Injective nodes.get) (e : Edge n) :
    (t.joinAlong nodes e).among nodes = t.among nodes ⊔ SimpleGraph.edge e.a e.b := by
  ext i j
  rw [among_adj, connected_joinAlong hinj, SimpleGraph.sup_adj, among_adj, SimpleGraph.edge_adj]
  grind

def FirstApart (t : Topology) (nodes : Vector NodeId n) (order : List (Edge n)) (e : Edge n) :
    Prop :=
  ∃ earlier later, order = earlier ++ e :: later ∧ ¬ (t.among nodes).Reachable e.a e.b ∧
    ∀ d ∈ earlier, (t.among nodes).Reachable d.a d.b

/-- From the one topology to the other one by links along some edges. Each of them, when it is
added, is the first one in the given order whose ends are apart. -/
inductive Mends (nodes : Vector NodeId n) (order : List (Edge n)) :
    Topology → List (Edge n) → Topology → Prop
  | done {t : Topology} : Mends nodes order t [] t
  | join {t u : Topology} {e : Edge n} {added : List (Edge n)} (h : t.FirstApart nodes order e)
      (hrest : Mends nodes order (t.joinAlong nodes e) added u) :
      Mends nodes order t (e :: added) u

end Topology

/-! ## What a patchwork tells -/

/-- What a patchwork takes for joined is what the edges of a graph join, and its parts are
counted. -/
structure Patchwork.Tells (p : Patchwork n) (G : SimpleGraph (Fin n)) : Prop where
  joined : ∀ i j, p.forest.root i = p.forest.root j ↔ G.Reachable i j
  parts : p.parts = p.forest.roots.card

namespace Patchwork
variable {p : Patchwork n} {G H : SimpleGraph (Fin n)} {e : Edge n}

theorem Tells.parts_eq (h : p.Tells G) : p.parts = Nat.card G.ConnectedComponent := by
  rw [h.parts, Forest.card_connectedComponent h.joined]

theorem Tells.of_reachable (h : p.Tells G) (hGH : ∀ i j, G.Reachable i j ↔ H.Reachable i j) :
    p.Tells H where
  joined i j := (h.joined i j).trans (hGH i j)
  parts := h.parts

theorem Tells.parts_pos (h : p.Tells G) (i : Fin n) : 0 < p.parts := by
  rw [h.parts]
  exact Finset.card_pos.2 ⟨_, p.forest.root_mem_roots i⟩

theorem Tells.parts_eq_one_iff (h : p.Tells G) (i : Fin n) : p.parts = 1 ↔ G.Preconnected := by
  rw [h.parts_eq, Nat.card_eq_one_iff_unique]
  constructor
  · rintro ⟨hsub, -⟩ j k
    exact SimpleGraph.ConnectedComponent.eq.1 (hsub.elim _ _)
  · intro hG
    exact ⟨hG.subsingleton_connectedComponent, ⟨G.connectedComponentMk i⟩⟩

theorem tells_singletons (nodes : Vector NodeId n) (t : Topology) :
    Tells ⟨nodes, t, .singletons n, n⟩ ⊥ where
  joined i j := by
    rw [Forest.root_singletons, Forest.root_singletons, SimpleGraph.reachable_bot]
  parts := (Forest.card_roots_singletons n).symm

/-- A union knows one more edge. -/
theorem Tells.unite (h : p.Tells G) (e : Edge n) :
    (p.unite e).2.Tells (G ⊔ SimpleGraph.edge e.a e.b) := by
  have hu := Forest.unites_union p.forest e.a e.b
  constructor
  · intro i j
    simp only [Patchwork.unite]
    rw [hu.joined, reachable_sup_edge]
    simp only [h.joined]
  · simp only [Patchwork.unite]
    rw [hu.card_roots, h.parts]

/-- And it tells whether the ends of the edge were apart. -/
theorem Tells.unite_fst (h : p.Tells G) (e : Edge n) :
    (p.unite e).1 = true ↔ ¬ G.Reachable e.a e.b := by
  simp only [Patchwork.unite]
  rw [(Forest.unites_union p.forest e.a e.b).apart, ne_eq, h.joined]

/-! ### Surveys -/

@[simp] theorem survey_topology (p : Patchwork n) (e : Edge n) :
    (p.survey e).topology = p.topology := by
  simp only [Patchwork.survey]
  split <;> rfl

@[simp] theorem survey_nodes (p : Patchwork n) (e : Edge n) : (p.survey e).nodes = p.nodes := by
  simp only [Patchwork.survey]
  split <;> rfl

theorem edge_le_among (h : p.isLinked e = true) :
    SimpleGraph.edge e.a e.b ≤ p.topology.among p.nodes := by
  rw [SimpleGraph.edge_le_iff, Topology.among_adj]
  by_cases he : e.a = e.b
  · exact .inl he
  · exact .inr ⟨he, h⟩

/-- A survey of one edge lets a link along it be known, and nothing that is no link. -/
theorem Tells.survey (h : p.Tells G) (hG : G ≤ p.topology.among p.nodes) (e : Edge n) :
    ∃ H, (p.survey e).Tells H ∧ G ≤ H ∧ H ≤ p.topology.among p.nodes ∧
      (p.isLinked e = true → SimpleGraph.edge e.a e.b ≤ H) := by
  simp only [Patchwork.survey]
  split
  · next hl =>
    refine ⟨_, h.unite e, le_sup_left, ?_, fun _ => le_sup_right⟩
    exact sup_le hG (edge_le_among hl)
  · next hl => exact ⟨G, h, le_refl G, hG, fun hl' => absurd hl' hl⟩

/-- After a survey of some edges, all links along them are known. -/
theorem Tells.foldl_survey (h : p.Tells G) (hG : G ≤ p.topology.among p.nodes)
    (es : List (Edge n)) : ∃ H, (es.foldl Patchwork.survey p).Tells H ∧
      H ≤ p.topology.among p.nodes ∧ G ≤ H ∧
      ∀ e ∈ es, p.isLinked e = true → SimpleGraph.edge e.a e.b ≤ H := by
  induction es generalizing p G with
  | nil => exact ⟨G, h, hG, le_refl G, nofun⟩
  | cons e es ih =>
    obtain ⟨G', hG', hle, hlinks', hlink⟩ := h.survey hG e
    obtain ⟨H, hH, hlinks, hG'H, hlinked⟩ := ih hG' (by simpa using hlinks')
    simp only [survey_topology, survey_nodes] at hlinks
    refine ⟨H, hH, hlinks, hle.trans hG'H, fun d hd hdl => ?_⟩
    obtain rfl | hd := List.mem_cons.1 hd
    · exact (hlink hdl).trans hG'H
    · exact hlinked d hd (by simpa [isLinked] using hdl)

theorem foldl_survey_fixed (p : Patchwork n) (es : List (Edge n)) :
    (es.foldl Patchwork.survey p).nodes = p.nodes ∧
      (es.foldl Patchwork.survey p).topology = p.topology := by
  induction es generalizing p with
  | nil => exact ⟨rfl, rfl⟩
  | cons e es ih => simpa using ih (p.survey e)

end Patchwork

structure Patchwork.Knows (p : Patchwork n) (nodes : Vector NodeId n) (t : Topology) : Prop where
  nodes_eq : p.nodes = nodes
  topology_eq : p.topology = t
  tells : p.Tells (t.among nodes)

namespace Patchwork
variable {p : Patchwork n} {nodes : Vector NodeId n} {t : Topology} {e : Edge n}

/-- So it is after a survey of every pair. -/
theorem knows_foldl_survey (nodes : Vector NodeId n) (t : Topology) {es : List (Edge n)}
    (hall : ∀ i j : Fin n, i < j → ∃ e ∈ es, e.a = i ∧ e.b = j) :
    (es.foldl Patchwork.survey ⟨nodes, t, .singletons n, n⟩).Knows nodes t := by
  obtain ⟨hnodes, htopology⟩ := foldl_survey_fixed ⟨nodes, t, .singletons n, n⟩ es
  obtain ⟨H, hH, hlinks, -, hlinked⟩ := (tells_singletons nodes t).foldl_survey bot_le es
  have hadj {i j : Fin n} (hlt : i < j) (hij : (t.among nodes).Adj i j) : H.Adj i j := by
    obtain ⟨e, he, rfl, rfl⟩ := hall i j hlt
    have hle := hlinked e he (Topology.among_adj.1 hij).2
    exact ((SimpleGraph.edge_le_iff H).1 hle).resolve_left hij.ne
  have heq : H = t.among nodes := by
    refine le_antisymm hlinks fun i j hij => ?_
    obtain hlt | hlt := lt_or_gt_of_ne hij.ne
    · exact hadj hlt hij
    · exact (hadj hlt hij.symm).symm
  exact ⟨hnodes, htopology, heq ▸ hH⟩

/-! ### Mending -/

/-- An edge whose ends are joined adds no link. -/
theorem Knows.mend_of_reachable (h : p.Knows nodes t) (hr : (t.among nodes).Reachable e.a e.b) :
    (p.mend e).Knows nodes t ∧ (p.mend e).parts = p.parts := by
  have hjoined : (p.unite e).1 = false := by
    rw [← Bool.not_eq_true, h.tells.unite_fst, not_not]
    exact hr
  have hmend : p.mend e = (p.unite e).2 := by
    simp only [Patchwork.mend]
    rw [← Prod.eta (p.unite e), hjoined]
  have htells : (p.mend e).Tells (t.among nodes) :=
    hmend ▸ (h.tells.unite e).of_reachable fun i j => reachable_sup_edge_of_reachable hr
  refine ⟨⟨?_, ?_, htells⟩, ?_⟩
  · rw [hmend, ← h.nodes_eq]
    rfl
  · rw [hmend, ← h.topology_eq]
    rfl
  · rw [htells.parts_eq, h.tells.parts_eq]

/-- An edge whose ends are apart adds a link along it, and leaves one part less. -/
theorem Knows.mend_of_apart (h : p.Knows nodes t) (hinj : Function.Injective nodes.get)
    (hr : ¬ (t.among nodes).Reachable e.a e.b) :
    (p.mend e).Knows nodes (t.joinAlong nodes e) ∧ (p.mend e).parts + 1 = p.parts := by
  have hapart : (p.unite e).1 = true := (h.tells.unite_fst e).2 hr
  have hmend : p.mend e = { (p.unite e).2 with topology := t.joinAlong nodes e } := by
    simp only [Patchwork.mend]
    rw [← Prod.eta (p.unite e), hapart, ← h.topology_eq, ← h.nodes_eq]
    rfl
  have htells := h.tells.unite e
  have hpos := h.tells.parts_pos e.a
  rw [hmend]
  refine ⟨⟨h.nodes_eq, rfl, ?_⟩, ?_⟩
  · rw [Topology.among_joinAlong hinj]
    exact ⟨htells.joined, htells.parts⟩
  · simp only [Patchwork.unite] at hapart ⊢
    simp only [hapart, if_true]
    omega

/-- Going through one more edge, there is either nothing to do or a link to add. -/
theorem Knows.mendAll_cons (h : p.Knows nodes t) (hinj : Function.Injective nodes.get)
    (hparts : p.parts ≠ 1) (e : Edge n) (es : List (Edge n)) :
    ∃ q : Patchwork n, p.mendAll (e :: es) = q.mendAll es ∧
      ((t.among nodes).Reachable e.a e.b ∧ q.Knows nodes t ∧ q.parts = p.parts ∨
        ¬ (t.among nodes).Reachable e.a e.b ∧ q.Knows nodes (t.joinAlong nodes e) ∧
          q.parts + 1 = p.parts) := by
  simp only [Patchwork.mendAll, if_neg hparts]
  split
  · next hl =>
    have hle := edge_le_among hl
    rw [h.topology_eq, h.nodes_eq] at hle
    have hr := (reachable_sup_edge_ends _ e.a e.b).mono (sup_le (le_refl _) hle)
    exact ⟨p, rfl, .inl ⟨hr, h, rfl⟩⟩
  · by_cases hr : (t.among nodes).Reachable e.a e.b
    · exact ⟨p.mend e, rfl, .inl ⟨hr, h.mend_of_reachable hr⟩⟩
    · exact ⟨p.mend e, rfl, .inr ⟨hr, h.mend_of_apart hinj hr⟩⟩

/-- Mending comes to an end with everything joined. The edges that it has gone through join what
is joined already. -/
theorem Knows.mendAll {past es : List (Edge n)} (h : p.Knows nodes t)
    (hinj : Function.Injective nodes.get)
    (hpast : ∀ d ∈ past, (t.among nodes).Reachable d.a d.b)
    (hall : ∀ i j : Fin n, i < j → ∃ e ∈ past ++ es, e.a = i ∧ e.b = j) (i : Fin n) :
    ∃ added, Topology.Mends nodes (past ++ es) t added (p.mendAll es).topology ∧
      ((p.mendAll es).topology.among nodes).Preconnected ∧ added.length + 1 = p.parts := by
  induction es generalizing p t past with
  | nil =>
    have hjoined : (t.among nodes).Preconnected := by
      refine preconnected_of_lt fun i j hij => ?_
      obtain ⟨e, he, rfl, rfl⟩ := hall i j hij
      rw [List.append_nil] at he
      exact hpast e he
    rw [Patchwork.mendAll, h.topology_eq]
    exact ⟨[], .done, hjoined, ((h.tells.parts_eq_one_iff i).2 hjoined).symm⟩
  | cons e es ih =>
    have hpast' {u : Topology} (hle : t.among nodes ≤ u.among nodes)
        (he : (u.among nodes).Reachable e.a e.b) :
        ∀ d ∈ past ++ [e], (u.among nodes).Reachable d.a d.b := by
      intro d hd
      obtain hd | hd := List.mem_append.1 hd
      · exact (hpast d hd).mono hle
      · rw [List.mem_singleton.1 hd]
        exact he
    by_cases hparts : p.parts = 1
    · rw [Patchwork.mendAll, if_pos hparts, h.topology_eq]
      exact ⟨[], .done, (h.tells.parts_eq_one_iff i).1 hparts, hparts.symm⟩
    · have hsplit : past ++ e :: es = past ++ [e] ++ es := by simp
      obtain ⟨q, hq, ⟨hr, hknows, hsame⟩ | ⟨hr, hknows, hless⟩⟩ :=
        h.mendAll_cons hinj hparts e es
      · rw [hq, ← hsame]
        rw [hsplit] at hall ⊢
        exact ih hknows (hpast' (le_refl _) hr) hall
      · have hfirst : t.FirstApart nodes (past ++ e :: es) e := ⟨past, es, rfl, hr, hpast⟩
        have hadded : (t.joinAlong nodes e).among nodes = t.among nodes ⊔ .edge e.a e.b :=
          Topology.among_joinAlong hinj e
        have hpast := hpast' (hadded ▸ le_sup_left) (hadded ▸ reachable_sup_edge_ends _ e.a e.b)
        rw [hq]
        rw [hsplit] at hall hfirst ⊢
        obtain ⟨added, hmends, hjoined, hcount⟩ := ih hknows hpast hall
        refine ⟨e :: added, .join hfirst hmends, hjoined, ?_⟩
        rw [List.length_cons, hcount, hless]

end Patchwork
end ClusterMesh.Net
