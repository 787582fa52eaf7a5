import Mathlib
import ClusterMesh.Proofs.Net.Happen
import ClusterMesh.Proofs.Net.Topology

/-! A topology through any calls of its host. What becomes of the link of two nodes is told by the
calls that bear on these two, so links of other nodes and the order of what was done to them do not
matter. The neighbors of a node are the nodes that it is connected with, each once and in the order
of their names, and a frame finds the link to every one of them. -/
namespace ClusterMesh.Net

namespace Topology

inductive Op
  | join (a b : NodeId) (l : Link)
  | adjust (a b : NodeId) (change : Link → Link)
  | partition (groups : List (List NodeId))
  | heal
  | setLoss (loss : Float)
  | setDelay (delay : Span)
  | place (n : NodeId) (x y : Float)

def step (t : Topology) : Op → Topology
  | .join a b l => t.join a b l
  | .adjust a b change => t.adjust a b change
  | .partition groups => t.partition groups
  | .heal => t.heal
  | .setLoss loss => t.setLoss loss
  | .setDelay delay => t.setDelay delay
  | .place n x y => t.place n x y

def run (t : Topology) (ops : List Op) : Topology := ops.foldl step t

theorem Canonical.step {t : Topology} (h : t.Canonical) (op : Op) : (t.step op).Canonical := by
  cases op with
  | join a b l => exact h.join a b l
  | adjust a b change => exact h.adjust a b change
  | partition groups => exact h.partition groups
  | heal | setLoss | setDelay => exact h.adjustAll _
  | place n x y => exact h.place n x y

theorem Canonical.run {t : Topology} (h : t.Canonical) (ops : List Op) : (t.run ops).Canonical :=
  h.foldl (fun _ op ht => ht.step op) ops

/-! ## The link of two nodes -/

def Op.onLink (e : NodeId × NodeId) (l? : Option Link) : Op → Option Link
  | .join a b l => if ends a b = e then some l else l?
  | .adjust a b change => if e = ends a b then l?.map change else l?
  | .partition groups => l?.map fun l =>
      if groupOf groups e.1 = groupOf groups e.2 then l else { l with active := false }
  | .heal => l?.map ({ · with active := true })
  | .setLoss loss => l?.map (·.setLoss loss)
  | .setDelay delay => l?.map ({ · with delay })
  | .place .. => l?

def Op.bearsOn (e : NodeId × NodeId) : Op → Bool
  | .join a b _ | .adjust a b _ => ends a b = e
  | .place .. => false
  | _ => true

theorem link?_step (t : Topology) (op : Op) (a b : NodeId) :
    (t.step op).link? a b = op.onLink (ends a b) (t.link? a b) := by
  cases op with
  | join => exact t.links.get?_insert ..
  | adjust => exact t.links.get?_modify ..
  | place => rfl
  | _ => exact t.links.get?_mapValues ..

theorem link?_run (t : Topology) (ops : List Op) (a b : NodeId) :
    (t.run ops).link? a b = ops.foldl (Op.onLink (ends a b)) (t.link? a b) := by
  induction ops generalizing t with
  | nil => rfl
  | cons op ops ih =>
    rw [List.foldl_cons, ← link?_step]
    exact ih (t.step op)

theorem Op.onLink_of_not_bearsOn {op : Op} {e : NodeId × NodeId} (h : op.bearsOn e = false)
    (l? : Option Link) : op.onLink e l? = l? := by
  cases op with
  | join => exact if_neg (of_decide_eq_false h)
  | adjust => exact if_neg fun he => of_decide_eq_false h he.symm
  | place => rfl
  | _ => cases h

theorem foldl_onLink_filter (e : NodeId × NodeId) (ops : List Op) (l? : Option Link) :
    (ops.filter (Op.bearsOn e)).foldl (Op.onLink e) l? = ops.foldl (Op.onLink e) l? := by
  induction ops generalizing l? with
  | nil => rfl
  | cons op ops ih =>
    cases hop : op.bearsOn e with
    | true =>
      rw [List.filter_cons_of_pos hop]
      exact ih _
    | false =>
      rw [List.filter_cons_of_neg (Bool.not_eq_true _ ▸ hop), List.foldl_cons,
        Op.onLink_of_not_bearsOn hop]
      exact ih _

/-! ## What a topology tells -/

section adjacency
variable {t u : Topology} {n m : NodeId}

theorem mem_neighbors_iff_connected (h : t.Canonical) :
    m ∈ t.neighbors n ↔ t.connected n m = true := by
  rw [mem_neighbors_iff h, connected]
  split
  · next l hl =>
    rw [hl]
    constructor
    · rintro ⟨_, ⟨⟩, hactive⟩
      exact hactive
    · exact fun hactive => ⟨l, rfl, hactive⟩
  · next hl => simp [hl]

theorem nodup_neighbors (h : t.Canonical) (n : NodeId) : (t.neighbors n).Nodup := by
  have hkeys : t.links.entries.Pairwise fun e d => e.1 ≠ d.1 :=
    List.pairwise_map.1 t.links.nodup_keys
  -- a node that is listed for two links would be the other end of both, which makes them one
  refine (List.mergeSort_perm ..).nodup_iff.2 (List.pairwise_filterMap.2 ?_)
  refine hkeys.imp_of_mem fun {e d} he hd hne m hm m' hm' hmm => hne ?_
  obtain ⟨-, hm⟩ := Option.ite_none_right_eq_some.1 hm
  obtain ⟨-, hm'⟩ := Option.ite_none_right_eq_some.1 hm'
  have hce : ends e.1.1 e.1.2 = e.1 := h e.1 (List.mem_map_of_mem he)
  have hcd : ends d.1.1 d.1.2 = d.1 := h d.1 (List.mem_map_of_mem hd)
  rw [← ends_of_opposite? hce hm, ← ends_of_opposite? hcd hm', hmm]

theorem pairwise_neighbors (h : t.Canonical) (n : NodeId) :
    (t.neighbors n).Pairwise (· < ·) := by
  have hle : (t.neighbors n).Pairwise (· ≤ ·) := List.pairwise_mergeSort' (· ≤ ·) _
  exact (hle.and (nodup_neighbors h n)).imp fun hab => UInt32.lt_of_le_of_ne hab.1 hab.2

/-- No two links join the same nodes. -/
theorem nodup_pairs (h : t.Canonical) : (t.links.keys.map fun e => s(e.1, e.2)).Nodup := by
  refine List.Nodup.map_on (fun e he d hd hed => ?_) t.links.nodup_keys
  rw [← h e he, ← h d hd, ends_eq_ends_iff]
  exact Sym2.eq_iff.1 hed

structure Alike (t u : Topology) : Prop where
  link : ∀ a b, t.link? a b = u.link? a b
  connected : ∀ a b, t.connected a b = u.connected a b
  neighbors : ∀ n, t.neighbors n = u.neighbors n

/-- The links tell who is connected and, in the order of the names, the neighbors. -/
theorem Canonical.alike (ht : t.Canonical) (hu : u.Canonical)
    (h : ∀ a b, t.link? a b = u.link? a b) : t.Alike u := by
  have hconnected (a b : NodeId) : t.connected a b = u.connected a b := by
    simp only [Topology.connected, h]
  refine ⟨h, hconnected, fun n => ?_⟩
  refine (pairwise_neighbors ht n).eq_of_mem_iff (pairwise_neighbors hu n) fun m => ?_
  rw [mem_neighbors_iff_connected ht, mem_neighbors_iff_connected hu, hconnected]

/-- What was done to each pair of nodes, in its order, is all that matters. -/
theorem Canonical.alike_run (h : t.Canonical) {ops ops' : List Op}
    (hops : ∀ a b, ops.filter (Op.bearsOn (ends a b)) = ops'.filter (Op.bearsOn (ends a b))) :
    (t.run ops).Alike (t.run ops') := by
  refine (h.run ops).alike (h.run ops') fun a b => ?_
  rw [link?_run, link?_run, ← foldl_onLink_filter, hops, foldl_onLink_filter]

end adjacency

/-! ## Links in any order -/

def joins (links : List (NodeId × NodeId × Link)) : List Op :=
  links.map fun j => .join j.1 j.2.1 j.2.2

/-- Of links between different pairs of nodes at most one is between two given nodes. -/
theorem filter_joins_perm {links links' : List (NodeId × NodeId × Link)}
    (h : links.Perm links') (hdistinct : (links.map fun j => s(j.1, j.2.1)).Nodup)
    (e : NodeId × NodeId) :
    (joins links).filter (Op.bearsOn e) = (joins links').filter (Op.bearsOn e) := by
  induction h with
  | nil => rfl
  | cons j _ ih =>
    have htail := ih (List.nodup_cons.1 hdistinct).2
    unfold joins at htail ⊢
    rw [List.map_cons, List.map_cons, List.filter_cons, List.filter_cons, htail]
  | swap i j links =>
    have hne : s(j.1, j.2.1) ≠ s(i.1, i.2.1) :=
      List.ne_of_not_mem_cons (List.nodup_cons.1 hdistinct).1
    simp only [joins, List.map_cons, List.filter_cons]
    split <;> split
    · next hj hi =>
      -- if both were on the same ends, they would join the same pair
      have hends : ends j.1 j.2.1 = ends i.1 i.2.1 :=
        (of_decide_eq_true hj).trans (of_decide_eq_true hi).symm
      exact absurd (Sym2.eq_iff.2 (ends_eq_ends_iff.1 hends)) hne
    all_goals rfl
  | trans h _ ih ih' =>
    exact (ih hdistinct).trans (ih' ((h.map _).nodup_iff.1 hdistinct))

end Topology

/-! ## Frames on the air -/

namespace World

/-- Those of the neighbors whose copies survive, where each of them has a link. -/
def checkedReached (w : World) (sender : NodeId) :
    List NodeId → Option (List (NodeId × Link) × World)
  | [] => some ([], w)
  | n :: ns => do
    let l ← w.topology.link? sender n
    let (survived, w) := w.survives l
    let (rest, w) ← w.checkedReached sender ns
    pure (if survived then (n, l) :: rest else rest, w)

def checkedBroadcast (w : World) (sender : NodeId) (bytes : List UInt8) : Option World := do
  let (copies, w) ← w.sending.checkedReached sender (w.topology.neighbors sender)
  pure (copies.foldl (fun w c =>
    w.schedule (w.now.after c.2.delay) (.delivery c.1 sender bytes c.2.rssi)) w)

theorem checkedReached_eq (w : World) (sender : NodeId) {ns : List NodeId}
    (h : ∀ n ∈ ns, ∃ l, w.topology.link? sender n = some l) :
    w.checkedReached sender ns = some (w.reached sender ns) := by
  induction ns generalizing w with
  | nil => rfl
  | cons n ns ih =>
    obtain ⟨l, hl⟩ := h n List.mem_cons_self
    have htopology := (aired_survives w l).topology_eq
    have hrest := ih (w.survives l).2 fun m hm => by
      rw [htopology]
      exact h m (List.mem_cons_of_mem n hm)
    unfold checkedReached reached
    rw [hl]
    dsimp only [bind, Option.bind]
    rw [hrest]
    rfl

theorem checkedBroadcast_eq {w : World} (h : w.topology.Canonical) (sender : NodeId)
    (bytes : List UInt8) : w.checkedBroadcast sender bytes = some (w.broadcast sender bytes) := by
  unfold checkedBroadcast
  rw [checkedReached_eq w.sending sender fun n hn =>
    (Topology.link?_of_mem_neighbors h hn).imp fun _ hl => hl.1]
  rfl

end World

namespace Topology

theorem link?_join (t : Topology) (a b : NodeId) (l : Link) : (t.join a b l).link? a b = some l :=
  (t.links.get?_insert ..).trans (if_pos rfl)

theorem filter_bearsOn_append {ops ops' : List Op} {e : NodeId × NodeId}
    (h : ops.filter (Op.bearsOn e) = ops'.filter (Op.bearsOn e)) (more : List Op) :
    (ops ++ more).filter (Op.bearsOn e) = (ops' ++ more).filter (Op.bearsOn e) := by
  rw [List.filter_append, List.filter_append, h]

/-- However a topology was made, the neighbors of a node are the nodes that it is connected with,
each once and in order, and both ends of a link see the same. Two nodes have at most one link, which
is what was made of the one added last. The order of links between different pairs of nodes does not
matter, and neither does any other order of what was done to different pairs. A frame finds the link
to every neighbor. -/
theorem adjacency_run (ops : List Op) :
    let t := run {} ops
    (∀ n, (t.neighbors n).Pairwise (· < ·)) ∧
    (∀ a b, b ∈ t.neighbors a ↔ t.connected a b = true) ∧
    (∀ a b, t.link? a b = t.link? b a ∧ t.connected a b = t.connected b a) ∧
    (t.links.keys.map fun e => s(e.1, e.2)).Nodup ∧
    (∀ a b l more,
      ((t.join a b l).run more).link? a b = more.foldl (Op.onLink (ends a b)) (some l)) ∧
    (∀ links links' more, links.Perm links' → (links.map fun j => s(j.1, j.2.1)).Nodup →
      (t.run (joins links ++ more)).Alike (t.run (joins links' ++ more))) ∧
    (∀ ops', (∀ a b, ops.filter (Op.bearsOn (ends a b)) = ops'.filter (Op.bearsOn (ends a b))) →
      t.Alike (run {} ops')) ∧
    ∀ (w : World) sender bytes, w.topology = t →
      w.checkedBroadcast sender bytes = some (w.broadcast sender bytes) := by
  intro t
  have h : t.Canonical := canonical_empty.run ops
  refine ⟨pairwise_neighbors h, fun a b => mem_neighbors_iff_connected h, fun a b => ⟨?_, ?_⟩,
    nodup_pairs h, fun a b l more => ?_,
    fun links links' more hperm hdistinct => ?_, fun ops' hops => ?_, ?_⟩
  · rw [link?, link?, ends_comm]
  · exact connected_comm t a b
  · rw [link?_run, link?_join]
  · exact h.alike_run fun a b => filter_bearsOn_append (filter_joins_perm hperm hdistinct _) more
  · exact canonical_empty.alike_run hops
  · intro w sender bytes hw
    have hcanonical : w.topology.Canonical := by
      rw [hw]
      exact h
    exact w.checkedBroadcast_eq hcanonical sender bytes

/-- A topology of three nodes that is cut and healed, whichever of its two links came first. -/
theorem adjacency_run_healed :
    let links : List (NodeId × NodeId × Link) := [(2, 1, {}), (1, 3, { delay := ⟨5⟩ })]
    let links' : List (NodeId × NodeId × Link) := [(1, 3, { delay := ⟨5⟩ }), (2, 1, {})]
    let more := [.partition [[1, 2], [3]], .heal]
    let t := run {} (joins links ++ more)
    let w : World := { World.ofSeed 0 with topology := t }
    (3 ∈ t.neighbors 1 ∧ 1 ∈ t.neighbors 3 ∧ 2 ∉ t.neighbors 3) ∧
    t.Alike (run {} (joins links' ++ more)) ∧
    (t.run (joins links ++ more)).Alike (t.run (joins links' ++ more)) ∧
    w.checkedBroadcast 1 [] = some (w.broadcast 1 []) := by
  intro links links' more t w
  have hperm : links.Perm links' := .swap ..
  have hdistinct : (links.map fun j => s(j.1, j.2.1)).Nodup := by decide
  obtain ⟨-, hneighbors, -, -, -, horder, hhistory, hroute⟩ := adjacency_run (joins links ++ more)
  refine ⟨⟨(hneighbors 1 3).2 (by decide +kernel), (hneighbors 3 1).2 (by decide +kernel), ?_⟩,
    hhistory _ fun a b => ?_, horder links links' more hperm hdistinct, hroute w 1 [] rfl⟩
  · rw [hneighbors 3 2]
    decide +kernel
  · exact filter_bearsOn_append (filter_joins_perm hperm hdistinct _) more

end Topology
end ClusterMesh.Net
