import ClusterMesh.Proofs.Net.Patchwork
import ClusterMesh.Proofs.Number.Order

/-! Nodes on a square field. Where the sides of the field are finite, so are all places on it, and
any two of them have a distance that compares with all others. So the shortest links come first in
the order that mending goes through. -/
namespace ClusterMesh.Net
open Rounding Float.Model Float.Model.UnpackedFloat

variable {n : Nat}

/-! ## Places -/

section places
variable {side : Float} {a b : Float × Float}

theorem within_scatterUnit (s : UInt64) : Within 1 0 (scatterUnit s).toModel.unpack := by
  have hbits : ((s >>> 16) &&& 0x7fff).toNat ≤ 32767 := by
    rw [UInt64.toNat_and]
    exact Nat.and_le_right
  have hunits : (32767.0 : Float).toModel.unpack =
      .finite .positive (32767 * 2 ^ 38) (-38) (by decide) := rfl
  have hdraw : Within (32767 * 2 ^ 38) (-38)
      ((s >>> 16) &&& 0x7fff).toFloat.toModel.unpack := by
    refine within_unpack_pack (within_ofNat (by decide) (by decide) ?_) (by decide)
    exact Nat.mul_le_mul_right (2 ^ 38) hbits
  refine within_unpack_pack ?_ (by decide)
  rw [hunits]
  exact within_div hdraw

/-- A draw of the unit interval scales what is finite without an overflow. -/
theorem isFinite_scatterUnit_mul (s : UInt64) (h : side.isFinite = true) :
    (scatterUnit s * side).isFinite = true := by
  obtain ⟨M, E, hM, hE, hE', hside⟩ := exists_within_unpack h
  exact (within_unpack_pack (within_mul hM hE (within_scatterUnit s) hside) hE').isFinite

def Located (a : Float × Float) : Prop := a.1.isFinite = true ∧ a.2.isFinite = true

theorem located_scatter (h : side.isFinite = true) (count : Nat) (s : UInt64) (i : Nat) :
    Located ((scatter side count s).getD i (0.0, 0.0)) := by
  induction count generalizing s i with
  | zero =>
    have hzero : (0.0 : Float).isFinite = true := rfl
    exact ⟨hzero, hzero⟩
  | succ count ih =>
    cases i with
    | zero => exact ⟨isFinite_scatterUnit_mul _ h, isFinite_scatterUnit_mul _ h⟩
    | succ i => exact ih _ i

/-- The distance between finite places is a number. -/
theorem sign?_planeDistance (ha : Located a) (hb : Located b) :
    sign? (planeDistance a b).toModel.unpack ≠ none := by
  have hdifference {x y : Float} (hx : x.isFinite = true) (hy : y.isFinite = true) :
      sign? (x - y).toModel.unpack ≠ none := by
    refine (sign?_unpack_pack _).trans_ne ?_
    exact sign?_sub_ne_none hx hy
  have hsquare {x : Float} (hx : sign? x.toModel.unpack ≠ none) :
      sign? (x * x).toModel.unpack = some .positive :=
    (sign?_unpack_pack _).trans (sign?_mul_self hx)
  have hsum : sign? ((a.1 - b.1) * (a.1 - b.1) + (a.2 - b.2) * (a.2 - b.2)).toModel.unpack =
      some .positive := by
    refine (sign?_unpack_pack _).trans (sign?_add ?_ ?_)
    · exact hsquare (hdifference ha.1 hb.1)
    · exact hsquare (hdifference ha.2 hb.2)
  refine (sign?_unpack_pack _).trans_ne ?_
  rw [sign?_sqrt hsum]
  exact Option.some_ne_none _

end places

/-! ## Distances -/

theorem mem_pairs_iff {α : Type} [LinearOrder α] {l : List α} (h : l.Pairwise (· < ·)) {a b : α} :
    (a, b) ∈ Topology.pairs l ↔ a ∈ l ∧ b ∈ l ∧ a < b := by
  induction h with
  | nil => simp [Topology.pairs]
  | @cons c l hc _ ih =>
    simp only [Topology.pairs, List.mem_append, List.mem_map, Prod.mk.injEq, List.mem_cons, ih]
    constructor
    · rintro (⟨d, hd, rfl, rfl⟩ | ⟨ha, hb, hab⟩)
      · exact ⟨.inl rfl, .inr hd, hc d hd⟩
      · exact ⟨.inr ha, .inr hb, hab⟩
    · rintro ⟨rfl | ha, rfl | hb, hab⟩
      · exact absurd hab (lt_irrefl _)
      · exact .inl ⟨b, hb, rfl, rfl⟩
      · exact absurd hab (hc a ha).asymm
      · exact .inr ⟨ha, hb, hab⟩

/-- The edges are those between a place and a later one, as long as these are apart. -/
theorem mem_allEdges {places : Vector (Float × Float) n} {e : Edge n} :
    e ∈ allEdges places ↔
      e.a < e.b ∧ e.length = planeDistance (places.get e.a) (places.get e.b) := by
  obtain ⟨a, b, length⟩ := e
  simp only [allEdges, List.mem_map, Prod.exists, Edge.mk.injEq]
  constructor
  · rintro ⟨i, j, hij, rfl, rfl, rfl⟩
    exact ⟨((mem_pairs_iff (List.pairwise_lt_finRange n)).1 hij).2.2, rfl⟩
  · rintro ⟨hab, hlength⟩
    refine ⟨a, b, (mem_pairs_iff (List.pairwise_lt_finRange n)).2 ⟨?_, ?_, hab⟩, rfl, rfl,
      hlength.symm⟩
    · exact List.mem_finRange a
    · exact List.mem_finRange b

theorem exists_mem_allEdges (places : Vector (Float × Float) n) {i j : Fin n} (hij : i < j) :
    ∃ e ∈ allEdges places, e.a = i ∧ e.b = j :=
  ⟨⟨i, j, planeDistance (places.get i) (places.get j)⟩, mem_allEdges.2 ⟨hij, rfl⟩, rfl, rfl⟩

namespace Topology

def fieldPlaces (count : Nat) (seed : UInt64) (side : Float) : Vector (Float × Float) count :=
  Vector.ofFn fun i : Fin count => (scatter side count seed).getD i (0.0, 0.0)

theorem located_fieldPlaces {side : Float} (h : side.isFinite = true) (count : Nat) (seed : UInt64)
    (i : Fin count) : Located ((fieldPlaces count seed side).get i) := by
  simpa [fieldPlaces] using located_scatter h count seed i

def fieldEdges (count : Nat) (seed : UInt64) (side : Float) : List (Edge count) :=
  allEdges (fieldPlaces count seed side)

def fieldOrder (count : Nat) (seed : UInt64) (side : Float) : List (Edge count) :=
  (fieldEdges count seed side).mergeSort Edge.notLonger

theorem sign?_of_mem_fieldEdges {count : Nat} {seed : UInt64} {side : Float}
    (h : side.isFinite = true) {e : Edge count} (he : e ∈ fieldEdges count seed side) :
    sign? e.length.toModel.unpack ≠ none := by
  rw [(mem_allEdges.1 he).2]
  exact sign?_planeDistance (located_fieldPlaces h ..) (located_fieldPlaces h ..)

/-- On a finite field the edges are in the order of their lengths. -/
theorem pairwise_fieldOrder (count : Nat) (seed : UInt64) {side : Float}
    (h : side.isFinite = true) :
    (fieldOrder count seed side).Pairwise fun e d => e.length ≤ d.length := by
  let rank (e : Edge count) := ordinal e.length.toModel.unpack
  have hrank {e : Edge count} (he : e ∈ fieldEdges count seed side) :=
    sign?_of_mem_fieldEdges h he
  have hle : ∀ e ∈ fieldEdges count seed side, ∀ d ∈ fieldEdges count seed side,
      e.notLonger d = decide (rank e ≤ rank d) := by
    intro e he d hd
    rw [Edge.notLonger, ← decide_not, decide_eq_decide, lt_iff_ordinal (hrank hd) (hrank he),
      not_lt]
  have hsorted := List.pairwise_mergeSort' (· ≤ ·) ((fieldEdges count seed side).map rank)
  rw [← List.map_mergeSort (r := Edge.notLonger) hle, List.pairwise_map] at hsorted
  refine hsorted.imp_of_mem fun he hd hed => ?_
  rw [le_iff_ordinal (hrank (List.mem_mergeSort.1 he)) (hrank (List.mem_mergeSort.1 hd))]
  exact hed

/-! ## Scattered nodes -/

def named (nodes : List NodeId) : Vector NodeId nodes.length :=
  Vector.mk nodes.toArray List.size_toArray

def inRange (nodes : List NodeId) (seed : UInt64) (side range : Float) : Topology :=
  (fieldEdges nodes.length seed side).foldl
    (fun t e => if e.length ≤ range then t.joinAlong (named nodes) e else t)
    ((nodes.zip (scatter side nodes.length seed)).foldl (fun t p => t.place p.1 p.2.1 p.2.2) {})

section scattered
variable {nodes : List NodeId} {seed : UInt64} {side range : Float}

theorem scattered_eq : scattered nodes seed side range =
    if nodes.length ≤ 1 then inRange nodes seed side range
    else (inRange nodes seed side range).patch (named nodes)
      (fieldEdges nodes.length seed side) := by
  simp only [scattered]
  split
  · next h =>
    have hnone : fieldEdges nodes.length seed side = [] := by
      refine List.eq_nil_iff_forall_not_mem.2 fun e he => ?_
      have hlt := (mem_allEdges.1 he).1
      omega
    rw [inRange, hnone]
    rfl
  · rfl

theorem injective_named (h : nodes.Nodup) : Function.Injective (named nodes).get :=
  List.nodup_iff_injective_get.1 h

theorem links_foldl_place (ps : List (NodeId × Float × Float)) (t : Topology) :
    (ps.foldl (fun t p => t.place p.1 p.2.1 p.2.2) t).links = t.links := by
  induction ps generalizing t with
  | nil => rfl
  | cons p ps ih => exact ih _

theorem connected_foldl_joinAlong {named : Vector NodeId n} (hinj : Function.Injective named.get)
    (es : List (Edge n)) (t : Topology) (i j : Fin n) :
    (es.foldl (fun t e => if e.length ≤ range then t.joinAlong named e else t) t).connected
        (named.get i) (named.get j) = true ↔
      (∃ e ∈ es, e.length ≤ range ∧ (e.a = i ∧ e.b = j ∨ e.a = j ∧ e.b = i)) ∨
        t.connected (named.get i) (named.get j) = true := by
  induction es generalizing t with
  | nil => simp
  | cons e es ih =>
    rw [List.foldl_cons, ih, List.exists_mem_cons_iff]
    split
    · next hl =>
      rw [connected_joinAlong hinj, and_iff_right hl]
      exact or_left_comm.trans or_assoc.symm
    · next hl => simp [hl]

/-- The links within radio range, and no others, are there before any mending. -/
theorem connected_inRange (h : nodes.Nodup) {i j : Fin nodes.length} (hij : i < j) :
    (inRange nodes seed side range).connected ((named nodes).get i) ((named nodes).get j) = true ↔
      planeDistance ((fieldPlaces nodes.length seed side).get i)
        ((fieldPlaces nodes.length seed side).get j) ≤ range := by
  have hnone : ((nodes.zip (scatter side nodes.length seed)).foldl
      (fun t p => t.place p.1 p.2.1 p.2.2) ({} : Topology)).connected
        ((named nodes).get i) ((named nodes).get j) = false := by
    simp only [connected, link?, links_foldl_place]
    rfl
  rw [inRange, connected_foldl_joinAlong (injective_named h), hnone]
  simp only [Bool.false_eq_true, or_false]
  constructor
  · rintro ⟨e, he, hl, ⟨rfl, rfl⟩ | ⟨rfl, rfl⟩⟩
    · rw [(mem_allEdges.1 he).2] at hl
      exact hl
    · exact absurd (mem_allEdges.1 he).1 hij.asymm
  · intro hl
    exact ⟨⟨i, j, _⟩, mem_allEdges.2 ⟨hij, rfl⟩, hl, .inl ⟨rfl, rfl⟩⟩

/-- Where everything is joined among the nodes, every node reaches every other. -/
theorem reachable_of_preconnected {t : Topology} (h : nodes.Nodup)
    (ht : (t.among (named nodes)).Preconnected) {a b : NodeId} (ha : a ∈ nodes) (hb : b ∈ nodes) :
    t.graph.Reachable a b := by
  have hadj {i j : Fin nodes.length} (hij : (t.among (named nodes)).Adj i j) :
      t.graph.Adj ((named nodes).get i) ((named nodes).get j) := by
    obtain ⟨hne, hconnected⟩ := among_adj.1 hij
    exact (SimpleGraph.fromRel_adj ..).2 ⟨fun he => hne (injective_named h he), .inl hconnected⟩
  obtain ⟨i, hi, rfl⟩ := List.getElem_of_mem ha
  obtain ⟨j, hj, rfl⟩ := List.getElem_of_mem hb
  exact (ht ⟨i, hi⟩ ⟨j, hj⟩).map ⟨(named nodes).get, hadj⟩

end scattered

theorem mends_scattered {nodes : List NodeId} (hne : nodes ≠ []) (h : nodes.Nodup)
    (seed : UInt64) (side range : Float) :
    ∃ added, Mends (named nodes) (fieldOrder nodes.length seed side)
        (inRange nodes seed side range) added (scattered nodes seed side range) ∧
      ((scattered nodes seed side range).among (named nodes)).Preconnected ∧
      added.length + 1 =
        Nat.card ((inRange nodes seed side range).among (named nodes)).ConnectedComponent := by
  have hpos : 0 < nodes.length := List.length_pos_iff.2 hne
  rw [scattered_eq]
  split
  · next hlen =>
    have : Subsingleton (Fin nodes.length) := Fin.subsingleton_iff_le_one.2 hlen
    have hjoined := SimpleGraph.Preconnected.of_subsingleton
      (G := (inRange nodes seed side range).among (named nodes))
    have := hjoined.subsingleton_connectedComponent
    have : Nonempty ((inRange nodes seed side range).among (named nodes)).ConnectedComponent :=
      ⟨SimpleGraph.connectedComponentMk _ ⟨0, hpos⟩⟩
    exact ⟨[], .done, hjoined, Nat.card_unique.symm⟩
  · have hall (i j : Fin nodes.length) (hij : i < j) :
        ∃ e ∈ [] ++ fieldOrder nodes.length seed side, e.a = i ∧ e.b = j := by
      obtain ⟨e, he, hends⟩ := exists_mem_allEdges _ hij
      exact ⟨e, List.mem_mergeSort.2 he, hends⟩
    have hknows := Patchwork.knows_foldl_survey (named nodes) (inRange nodes seed side range) hall
    rw [← hknows.tells.parts_eq]
    exact hknows.mendAll (injective_named h) (by simp) hall ⟨0, hpos⟩

/-- Nodes scattered over a finite field all reach each other. What is linked at first is what is
within range. From there the links that get added are one less than the parts that these leave, and
each of them is, when it is added, the shortest one whose ends are apart. -/
theorem scattered_connected {nodes : List NodeId} (hne : nodes ≠ []) (hnodup : nodes.Nodup)
    (seed : UInt64) {side : Float} (hside : side.isFinite = true) (range : Float) :
    (∀ a ∈ nodes, ∀ b ∈ nodes, (scattered nodes seed side range).graph.Reachable a b) ∧
      (∀ i j : Fin nodes.length, i < j → ((inRange nodes seed side range).connected
          ((named nodes).get i) ((named nodes).get j) = true ↔
        planeDistance ((fieldPlaces nodes.length seed side).get i)
          ((fieldPlaces nodes.length seed side).get j) ≤ range)) ∧
      (fieldOrder nodes.length seed side).Pairwise (fun e d => e.length ≤ d.length) ∧
      ∃ added, Mends (named nodes) (fieldOrder nodes.length seed side)
          (inRange nodes seed side range) added (scattered nodes seed side range) ∧
        added.length + 1 =
          Nat.card ((inRange nodes seed side range).among (named nodes)).ConnectedComponent := by
  obtain ⟨added, hmends, hjoined, hcount⟩ := mends_scattered hne hnodup seed side range
  refine ⟨fun a ha b hb => ?_, fun i j hij => ?_, ?_, added, hmends, hcount⟩
  · exact reachable_of_preconnected hnodup hjoined ha hb
  · exact connected_inRange hnodup hij
  · exact pairwise_fieldOrder nodes.length seed hside

/-- Ten nodes hardly in range of each other. -/
theorem scattered_connected_of_short_range :
    let nodes : List NodeId := [1, 2, 3, 4, 5, 6, 7, 8, 9, 10]
    let t := scattered nodes 42 200.0 1.0
    (nodes.Nodup ∧ (200.0 : Float).isFinite = true) ∧
      (∀ a ∈ nodes, ∀ b ∈ nodes, t.graph.Reachable a b) ∧
      ∃ added, Mends (named nodes) (fieldOrder nodes.length 42 200.0)
          (inRange nodes 42 200.0 1.0) added t ∧
        added.length + 1 =
          Nat.card ((inRange nodes 42 200.0 1.0).among (named nodes)).ConnectedComponent := by
  intro nodes t
  have hnodup : nodes.Nodup := by decide
  have hside : (200.0 : Float).isFinite = true := by decide
  obtain ⟨hreach, -, -, hmends⟩ := scattered_connected (by decide) hnodup 42 hside 1.0
  exact ⟨⟨hnodup, hside⟩, hreach, hmends⟩

end Topology
end ClusterMesh.Net
