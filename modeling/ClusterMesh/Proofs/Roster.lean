import ClusterMesh.Proofs.Checked.Parts
import ClusterMesh.Proofs.History
import ClusterMesh.Proofs.Net.Topology
import ClusterMesh.Proofs.Station.Upkeep

/-! The roster of a node through anything that is done to the node. It is told from the history
alone: a neighbor is known since it was heard of with nothing known of it and room for it, until it
is pruned or the node is reset. What is known of it was noted since then, and the roster keeps the
order in which its neighbors came to be known. -/
namespace ClusterMesh

/-! ## What hearing, noting and pruning do to a roster -/

namespace Roster

def heard (known : Option Neighbor) (rssi : Int8) (hops : UInt8) (cycle : UInt32) : Neighbor :=
  (known.map fun m => { m with rssi, hops, lastSeen := cycle }).getD
    { rssi, hops, lastSeen := cycle }

theorem hear?_eq (r : Roster) (id : NodeId) (rssi : Int8) (hops : UInt8) (cycle : UInt32) :
    r.hear? id rssi hops cycle = if r.get? id = none ∧ capacity ≤ r.size then none
      else some (r.insert id (heard (r.get? id) rssi hops cycle)) := by
  simp only [hear?]
  split
  · next m hm =>
    rw [hm, if_neg fun h => Option.some_ne_none m h.1]
    rfl
  · next hm =>
    rw [hm]
    simp only [Table.isFull, decide_eq_true_eq, true_and]
    split <;> rfl

/-- Hearing of a neighbor leaves the others. -/
theorem get?_hear (r : Roster) (id : NodeId) (rssi : Int8) (hops : UInt8) (cycle : UInt32)
    (id' : NodeId) : ((r.hear? id rssi hops cycle).getD r).get? id' =
      if id = id' ∧ (r.hear? id rssi hops cycle).isSome then
        some (heard (r.get? id) rssi hops cycle)
      else r.get? id' := by
  rw [hear?_eq]
  split
  · simp
  · show Table.get? (r.insert id _) id' = _
    rw [Table.get?_insert]
    simp

/-- A neighbor that comes to be known comes last. -/
theorem keys_hear (r : Roster) (id : NodeId) (rssi : Int8) (hops : UInt8) (cycle : UInt32) :
    ((r.hear? id rssi hops cycle).getD r).keys = r.keys ∨
      r.get? id = none ∧ ((r.hear? id rssi hops cycle).getD r).keys = r.keys ++ [id] := by
  rw [hear?_eq]
  split
  · exact .inl rfl
  · have hkeys : (r.insert id (heard (r.get? id) rssi hops cycle)).keys =
        if id ∈ r.keys then r.keys else r.keys ++ [id] := Table.keys_place ..
    show (r.insert id _).keys = _ ∨ _
    split at hkeys
    · exact .inl hkeys
    · next hid =>
      rw [Table.mem_keys_iff, Option.not_isSome_iff_eq_none] at hid
      exact .inr ⟨hid, hkeys⟩

end Roster

namespace Node

inductive Op
  | become (next : Role)
  | advanceCycle
  | locate (p : Position)
  | forgetPosition
  | setPositionLife (life : UInt32)
  | expirePosition
  | hear (id : NodeId) (rssi : Int8) (hops : UInt8)
  | locateNeighbor (id : NodeId) (p : Position)
  | markHead (id : NodeId) (headClass : UInt16)
  | prune (patience : UInt32)
  | noteCandidate
  | setNoise (noise : Float)
  | follow (head : NodeId) (clusterClass : UInt16)
  | leave
  | setReach (reach : UInt32)
  | setScore (score : Float)
  | refreshCounts
  | noteSent
  | noteReceived
  | noteRelayed
  | noteDropped
  | reset

def step (n : Node) : Op → Node
  | .become next => (n.become next).toOption.getD n
  | .advanceCycle => n.advanceCycle
  | .locate p => n.locate p
  | .forgetPosition => n.forgetPosition
  | .setPositionLife positionLife => { n with positionLife }
  | .expirePosition => n.expirePosition
  | .hear id rssi hops => (n.hear? id rssi hops).getD n
  | .locateNeighbor id p => n.locateNeighbor id p
  | .markHead id headClass => n.markHead id headClass
  | .prune patience => (n.prune patience).1
  | .noteCandidate => n.noteCandidate
  | .setNoise noise => { n with noise }
  | .follow head clusterClass => n.follow head clusterClass
  | .leave => n.leave
  | .setReach reach => { n with reach }
  | .setScore score => { n with score }
  | .refreshCounts => n.refreshCounts
  | .noteSent => n.noteSent
  | .noteReceived => n.noteReceived
  | .noteRelayed => n.noteRelayed
  | .noteDropped => n.noteDropped
  | .reset => n.reset

def run (n : Node) (ops : List Op) : Node := ops.foldl step n

theorem run_concat (n : Node) (ops : List Op) (op : Op) :
    n.run (ops ++ [op]) = (n.run ops).step op := by
  simp [run]

namespace Op

def onRoster (cycle : UInt32) (r : Roster) : Op → Roster
  | hear id rssi hops => (r.hear? id rssi hops cycle).getD r
  | locateNeighbor id p => r.modify id fun m => { m with position := some p }
  | markHead id headClass => r.modify id fun m => { m with isHead := true, headClass }
  | prune patience => (r.prune cycle patience).1
  | reset => .empty
  | _ => r

def onNeighbor (id : NodeId) (cycle : UInt32) (m : Neighbor) : Op → Neighbor
  | hear id' rssi hops => if id' = id then { m with rssi, hops, lastSeen := cycle } else m
  | locateNeighbor id' p => if id' = id then { m with position := some p } else m
  | markHead id' headClass => if id' = id then { m with isHead := true, headClass } else m
  | _ => m

def headClass? (id : NodeId) : Op → Option UInt16
  | markHead id' headClass => if id' = id then some headClass else none
  | _ => none

def position? (id : NodeId) : Op → Option Position
  | locateNeighbor id' p => if id' = id then some p else none
  | _ => none

theorem lastSeen_onNeighbor (id : NodeId) (cycle : UInt32) (m : Neighbor) (op : Op) :
    (op.onNeighbor id cycle m).lastSeen = m.lastSeen ∨
      (op.onNeighbor id cycle m).lastSeen = cycle := by
  cases op with
  | hear id' | locateNeighbor id' | markHead id' =>
    by_cases hid : id' = id <;> simp [onNeighbor, hid]
  | _ => exact .inl rfl

theorem isHead_onNeighbor (id : NodeId) (cycle : UInt32) (m : Neighbor) (op : Op) :
    (op.onNeighbor id cycle m).isHead = ((op.headClass? id).isSome || m.isHead) := by
  cases op with
  | hear id' | locateNeighbor id' | markHead id' =>
    by_cases hid : id' = id <;> simp [onNeighbor, headClass?, hid]
  | _ => rfl

theorem headClass_onNeighbor (id : NodeId) (cycle : UInt32) (m : Neighbor) (op : Op) :
    (op.onNeighbor id cycle m).headClass = (op.headClass? id).getD m.headClass := by
  cases op with
  | hear id' | locateNeighbor id' | markHead id' =>
    by_cases hid : id' = id <;> simp [onNeighbor, headClass?, hid]
  | _ => rfl

theorem position_onNeighbor (id : NodeId) (cycle : UInt32) (m : Neighbor) (op : Op) :
    (op.onNeighbor id cycle m).position = (op.position? id).or m.position := by
  cases op with
  | hear id' | locateNeighbor id' | markHead id' =>
    by_cases hid : id' = id <;> simp [onNeighbor, position?, hid]
  | _ => rfl

end Op

theorem roster_step (n : Node) (op : Op) : (n.step op).roster = op.onRoster n.cycle n.roster := by
  cases op with
  | become next =>
    simp only [step, become]
    split <;> rfl
  | expirePosition =>
    simp only [step, expirePosition]
    split <;> rfl
  | hear id rssi hops =>
    simp only [step, hear?, Op.onRoster]
    cases n.roster.hear? id rssi hops n.cycle <;> rfl
  | _ => rfl

theorem cycle_le_step {op : Op} (h : op ≠ .reset) (n : Node) : n.cycle ≤ (n.step op).cycle := by
  cases op with
  | reset => exact absurd rfl h
  | become next =>
    simp only [step, become]
    split <;> exact UInt32.le_refl _
  | advanceCycle =>
    have hmax := n.cycle.toNat_lt
    rw [UInt32.le_iff_toNat_le]
    show _ ≤ n.cycle.succSat.toNat
    rw [UInt32.toNat_succSat]
    omega
  | expirePosition =>
    simp only [step, expirePosition]
    split <;> exact UInt32.le_refl _
  | hear id rssi hops =>
    simp only [step, hear?]
    cases n.roster.hear? id rssi hops n.cycle <;> exact UInt32.le_refl _
  | _ => exact UInt32.le_refl _

section step
variable {n : Node} {op : Op} {id : NodeId} {m' : Neighbor}
  (h' : (n.step op).roster.get? id = some m')
include h'

theorem known_step {m : Neighbor} (h : n.roster.get? id = some m) :
    m' = op.onNeighbor id n.cycle m := by
  rw [roster_step] at h'
  cases op with
  | hear id' rssi hops =>
    simp only [Op.onRoster, Roster.get?_hear, Op.onNeighbor] at h' ⊢
    by_cases hid : id' = id
    · subst hid
      rw [h, Roster.hear?_eq, h] at h'
      simpa [Roster.heard] using h'.symm
    · rw [if_neg fun hc => hid hc.1, h] at h'
      rw [if_neg hid]
      exact (Option.some.inj h').symm
  | locateNeighbor id' p | markHead id' headClass =>
    simp only [Op.onRoster, Table.get?_modify, Op.onNeighbor] at h' ⊢
    by_cases hid : id' = id
    · subst hid
      simpa [h] using h'.symm
    · rw [if_neg (Ne.symm hid), h] at h'
      rw [if_neg hid]
      exact (Option.some.inj h').symm
  | prune patience =>
    have hkept := (Table.get?_filter_eq_some_iff.1 h').1
    exact Option.some.inj (hkept.symm.trans h)
  | reset => cases h'
  | _ => exact Option.some.inj (h'.symm.trans h)

theorem unknown_step (h : n.roster.get? id = none) : ∃ rssi hops, op = .hear id rssi hops ∧
    m' = { rssi, hops, lastSeen := n.cycle } := by
  rw [roster_step] at h'
  cases op with
  | hear id' rssi hops =>
    simp only [Op.onRoster, Roster.get?_hear] at h'
    by_cases hid : id' = id
    · subst hid
      rw [h] at h'
      split at h'
      · exact ⟨rssi, hops, rfl, (Option.some.inj h').symm⟩
      · cases h'
    · rw [if_neg fun hc => hid hc.1, h] at h'
      cases h'
  | locateNeighbor id' p | markHead id' headClass =>
    simp only [Op.onRoster, Table.get?_modify] at h'
    by_cases hid : id' = id
    · subst hid
      simp [h] at h'
    · rw [if_neg (Ne.symm hid), h] at h'
      cases h'
  | prune patience =>
    have hkept := (Table.get?_filter_eq_some_iff.1 h').1
    exact absurd (hkept.symm.trans h) (Option.some_ne_none _)
  | reset => cases h'
  | _ => exact absurd (h'.symm.trans h) (Option.some_ne_none _)

end step

theorem keys_step (n : Node) (op : Op) : (n.step op).roster.keys.Sublist n.roster.keys ∨
    ∃ id, n.roster.get? id = none ∧ (n.step op).roster.keys = n.roster.keys ++ [id] := by
  rw [roster_step]
  cases op with
  | hear id rssi hops =>
    obtain hsame | hnew := n.roster.keys_hear id rssi hops n.cycle
    · exact .inl (hsame ▸ List.Sublist.refl _)
    · exact .inr ⟨id, hnew⟩
  | locateNeighbor id p | markHead id headClass =>
    rw [Op.onRoster, Table.modify, Table.keys_mapValues]
    exact .inl (List.Sublist.refl _)
  | prune patience => exact .inl (List.filter_sublist.map _)
  | reset => exact .inl (List.nil_sublist _)
  | _ => exact .inl (List.Sublist.refl _)

theorem size_step {n : Node} (h : n.roster.size ≤ Roster.capacity) (op : Op) :
    (n.step op).roster.size ≤ Roster.capacity := by
  rw [roster_step]
  cases op with
  | hear id rssi hops =>
    simp only [Op.onRoster]
    cases hr : n.roster.hear? id rssi hops n.cycle with
    | none => exact h
    | some r => exact Roster.size_of_hear? hr h
  | locateNeighbor id p | markHead id headClass =>
    exact Nat.le_trans (Nat.le_of_eq (Table.size_mapValues ..)) h
  | prune patience => exact Nat.le_trans (Table.size_filter_le ..) h
  | reset => exact Nat.zero_le _
  | _ => exact h

theorem size_run (me : NodeId) (ops : List Op) :
    ((fresh me).run ops).roster.size ≤ Roster.capacity := by
  induction ops using List.reverseRecOn with
  | nil => exact Nat.zero_le _
  | append_singleton ops op ih =>
    rw [run_concat]
    exact size_step ih op

/-! ## The history of a neighbor -/

def sighting? (n : Node) (id : NodeId) : Op → Option (Int8 × UInt8 × UInt32)
  | .hear id' rssi hops =>
    if id' = id ∧ (n.hear? id rssi hops).isSome then some (rssi, hops, n.cycle) else none
  | _ => none

def sightings (id : NodeId) (n : Node) (ops : List Op) : List (Int8 × UInt8 × UInt32) :=
  along step (fun n op => (n.sighting? id op).toList) n ops

theorem hear?_eq_none_iff {n : Node} {id : NodeId} {rssi : Int8} {hops : UInt8} :
    n.hear? id rssi hops = none ↔ n.roster.get? id = none ∧ Roster.capacity ≤ n.roster.size := by
  rw [hear?, Option.map_eq_none_iff, Roster.hear?_eq]
  split
  · next h => exact iff_of_true rfl h
  · next h => exact iff_of_false (Option.some_ne_none _) h

/-- A neighbor that is known after it was heard of was not refused. -/
theorem isSome_hear? {n : Node} {id : NodeId} {rssi : Int8} {hops : UInt8}
    (h : ((n.step (.hear id rssi hops)).roster.get? id).isSome) :
    (n.hear? id rssi hops).isSome := by
  rw [Option.isSome_iff_ne_none]
  intro hnone
  rw [step, hnone, Option.getD_none, (hear?_eq_none_iff.1 hnone).1] at h
  cases h

theorem getLast?_sightings_concat (id : NodeId) (n : Node) (ops : List Op) (op : Op) :
    (sightings id n (ops ++ [op])).getLast? =
      ((n.run ops).sighting? id op).or (sightings id n ops).getLast? := by
  rw [sightings, along_concat, List.getLast?_append]
  show ((n.run ops).sighting? id op).toList.getLast?.or _ = _
  cases (n.run ops).sighting? id op <;> rfl

/-- A neighbor is known in the end since the operation `op`, with which it was heard of after
`before`, and was not forgotten in `after`. -/
structure Enters (me id : NodeId) (ops before : List Op) (op : Op) (after : List Op) : Prop where
  eq : ops = before ++ op :: after
  hears : ∃ rssi hops, op = .hear id rssi hops
  unknown : ((fresh me).run before).roster.get? id = none
  stays : ∀ part, part <+: after →
    (((fresh me).run (before ++ op :: part)).roster.get? id).isSome

section enters
variable {me id : NodeId} {ops before after : List Op} {op last : Op}

theorem Enters.since (h : Enters me id ops before op after) :
    Since (fun ops => (((fresh me).run ops).roster.get? id).isSome) ops before op after where
  eq := h.eq
  unmet := by simp [h.unknown]
  lasts := h.stays

theorem enters_of_since
    (h : Since (fun ops => (((fresh me).run ops).roster.get? id).isSome) ops before op after) :
    Enters me id ops before op after := by
  have hunknown := Option.not_isSome_iff_eq_none.1 h.unmet
  obtain ⟨m, hm⟩ := Option.isSome_iff_exists.1 (h.lasts [] List.nil_prefix)
  rw [run_concat] at hm
  obtain ⟨rssi, hops, hop, -⟩ := unknown_step hm hunknown
  exact ⟨h.eq, ⟨rssi, hops, hop⟩, hunknown, h.lasts⟩

theorem Enters.known (h : Enters me id ops before op after) :
    (((fresh me).run ops).roster.get? id).isSome :=
  h.since.holds

theorem enters_concat (h : ((fresh me).run ops).roster.get? id = none)
    (h' : (((fresh me).run (ops ++ [last])).roster.get? id).isSome) :
    Enters me id (ops ++ [last]) ops last [] :=
  enters_of_since (since_concat (by simp [h]) h')

theorem Enters.concat (h : Enters me id ops before op after)
    (h' : (((fresh me).run (ops ++ [last])).roster.get? id).isSome) :
    Enters me id (ops ++ [last]) before op (after ++ [last]) :=
  enters_of_since (h.since.concat h')

/-- Who is known in the end either came with the last operation or was known before it. -/
theorem Enters.of_concat (h : Enters me id (ops ++ [last]) before op after) :
    before = ops ∧ op = last ∧ after = [] ∨
      ∃ rest, after = rest ++ [last] ∧ Enters me id ops before op rest := by
  obtain hnew | ⟨rest, hafter, hsince⟩ := h.since.of_concat
  · exact .inl hnew
  · exact .inr ⟨rest, hafter, enters_of_since hsince⟩

end enters

theorem exists_enters {me id : NodeId} {ops : List Op}
    (h : (((fresh me).run ops).roster.get? id).isSome) :
    ∃ before op after, Enters me id ops before op after := by
  obtain ⟨before, op, after, hsince⟩ := exists_since
    (P := fun ops => (((fresh me).run ops).roster.get? id).isSome) Bool.false_ne_true h
  exact ⟨before, op, after, enters_of_since hsince⟩

/-- What is known of a neighbor. When it was heard of last, and with what, is told from the whole
history, and what else was noted of it from the history since it came to be known. -/
structure Remembers (me id : NodeId) (ops after : List Op) (m : Neighbor) : Prop where
  seen : (sightings id (fresh me) ops).getLast? = some (m.rssi, m.hops, m.lastSeen)
  isHead : m.isHead = (latest? (Op.headClass? id) after).isSome
  headClass : m.headClass = (latest? (Op.headClass? id) after).getD 0
  position : m.position = latest? (Op.position? id) after

theorem remembers_concat {me id : NodeId} {ops : List Op} {last : Op} {m : Neighbor}
    (h : ((fresh me).run ops).roster.get? id = none)
    (h' : ((fresh me).run (ops ++ [last])).roster.get? id = some m) :
    Remembers me id (ops ++ [last]) [] m := by
  rw [run_concat] at h'
  obtain ⟨rssi, hops, rfl, rfl⟩ := unknown_step h' h
  have hheard := isSome_hear? (by rw [h']; rfl)
  refine ⟨?_, rfl, rfl, rfl⟩
  rw [getLast?_sightings_concat, sighting?, if_pos ⟨rfl, hheard⟩]
  rfl

theorem Remembers.concat {me id : NodeId} {ops after : List Op} {last : Op} {m m' : Neighbor}
    (hm : Remembers me id ops after m) (h : ((fresh me).run ops).roster.get? id = some m)
    (h' : ((fresh me).run (ops ++ [last])).roster.get? id = some m') :
    Remembers me id (ops ++ [last]) (after ++ [last]) m' := by
  rw [run_concat] at h'
  obtain rfl := known_step h' h
  refine ⟨?_, ?_, ?_, ?_⟩
  · rw [getLast?_sightings_concat, hm.seen]
    cases last with
    | hear id' rssi hops =>
      by_cases hid : id' = id
      · subst hid
        have hheard := isSome_hear? (by rw [h']; rfl)
        simp [sighting?, hheard, Op.onNeighbor]
      · simp [sighting?, hid, Op.onNeighbor]
    | locateNeighbor id' p | markHead id' headClass =>
      simp only [sighting?, Op.onNeighbor]
      split <;> rfl
    | _ => rfl
  · rw [Op.isHead_onNeighbor, latest?_concat, Option.isSome_or, hm.isHead]
  · rw [Op.headClass_onNeighbor, latest?_concat, Option.getD_or, hm.headClass]
  · rw [Op.position_onNeighbor, latest?_concat, hm.position]

theorem Enters.remembers {me id : NodeId} {ops before after : List Op} {op : Op} {m : Neighbor}
    (h : Enters me id ops before op after) (hm : ((fresh me).run ops).roster.get? id = some m) :
    Remembers me id ops after m := by
  induction ops using List.reverseRecOn generalizing after m with
  | nil => cases hm
  | append_singleton ops last ih =>
    obtain ⟨rfl, rfl, rfl⟩ | ⟨rest, rfl, hrest⟩ := h.of_concat
    · exact remembers_concat h.unknown hm
    · obtain ⟨m', hm'⟩ := Option.isSome_iff_exists.1 hrest.known
      exact (ih hrest hm').concat hm' hm

/-! ## Order -/

def Precedes (me : NodeId) (ops : List Op) (a b : NodeId) : Prop :=
  ∀ ⦃before before' op op' after after'⦄, Enters me a ops before op after →
    Enters me b ops before' op' after' → before.length < before'.length

/-- Who was known already did not come with the last operation. -/
theorem Enters.of_known {me id : NodeId} {ops before after : List Op} {op last : Op}
    (h : Enters me id (ops ++ [last]) before op after)
    (hk : (((fresh me).run ops).roster.get? id).isSome) :
    ∃ rest, Enters me id ops before op rest := by
  obtain ⟨rfl, -, -⟩ | ⟨rest, -, hrest⟩ := h.of_concat
  · rw [h.unknown] at hk
    cases hk
  · exact ⟨rest, hrest⟩

theorem Precedes.concat {me a b : NodeId} {ops : List Op} (h : Precedes me ops a b) (last : Op)
    (ha : (((fresh me).run ops).roster.get? a).isSome)
    (hb : (((fresh me).run ops).roster.get? b).isSome) : Precedes me (ops ++ [last]) a b := by
  intro before before' op op' after after' hentersa hentersb
  obtain ⟨rest, hresta⟩ := hentersa.of_known ha
  obtain ⟨rest', hrestb⟩ := hentersb.of_known hb
  exact h hresta hrestb

/-- Who was known is known for longer than who comes last. -/
theorem precedes_concat {me a b : NodeId} {ops : List Op} {last : Op}
    (ha : (((fresh me).run ops).roster.get? a).isSome)
    (hb : ((fresh me).run ops).roster.get? b = none) : Precedes me (ops ++ [last]) a b := by
  intro before before' op op' after after' hentersa hentersb
  obtain ⟨rest, hresta⟩ := hentersa.of_known ha
  obtain ⟨rfl, -, -⟩ | ⟨rest', -, hrestb⟩ := hentersb.of_concat
  · rw [hresta.eq, List.length_append, List.length_cons]
    omega
  · have hknown := hrestb.known
    rw [hb] at hknown
    cases hknown

theorem pairwise_precedes (me : NodeId) (ops : List Op) :
    ((fresh me).run ops).roster.keys.Pairwise (Precedes me ops) := by
  induction ops using List.reverseRecOn with
  | nil => exact .nil
  | append_singleton ops last ih =>
    have hold : ((fresh me).run ops).roster.keys.Pairwise (Precedes me (ops ++ [last])) :=
      ih.imp_of_mem fun ha hb h => h.concat last (Table.mem_keys_iff.1 ha) (Table.mem_keys_iff.1 hb)
    rw [run_concat]
    obtain hsub | ⟨id, hid, hkeys⟩ := keys_step ((fresh me).run ops) last
    · exact hold.sublist hsub
    -- whoever is new comes behind all that are known
    · rw [hkeys, List.pairwise_append]
      refine ⟨hold, List.pairwise_singleton .., fun a ha b hb => ?_⟩
      rw [List.mem_singleton.1 hb]
      exact precedes_concat (Table.mem_keys_iff.1 ha) hid

/-! ## Age -/

theorem seen_run (me : NodeId) (ops : List Op) {id : NodeId} {m : Neighbor}
    (h : ((fresh me).run ops).roster.get? id = some m) :
    m.lastSeen ≤ ((fresh me).run ops).cycle := by
  induction ops using List.reverseRecOn generalizing m with
  | nil => cases h
  | append_singleton ops last ih =>
    rw [run_concat] at h ⊢
    have hreset : last ≠ .reset := by
      rintro rfl
      cases h
    -- only a reset turns the cycles back, and it leaves nobody to be known
    refine UInt32.le_trans ?_ (cycle_le_step hreset _)
    cases hbefore : ((fresh me).run ops).roster.get? id with
    | none =>
      obtain ⟨_, _, _, rfl⟩ := unknown_step h hbefore
      exact UInt32.le_refl _
    | some m' =>
      rw [known_step h hbefore]
      obtain hsame | hnow := Op.lastSeen_onNeighbor id ((fresh me).run ops).cycle m' last
      · rw [hsame]
        exact ih hbefore
      · rw [hnow]
        exact UInt32.le_refl _

/-- Those that are pruned are counted. -/
theorem gone_prune (n : Node) (patience : UInt32) : (n.prune patience).2 =
    n.roster.entries.countP fun e => patience.toNat < n.cycle.toNat - e.2.lastSeen.toNat := by
  refine (Table.retain_snd ..).trans (List.countP_congr fun e _ => ?_)
  rw [Bool.not_eq_true', decide_eq_false_iff_not, decide_eq_true_eq, UInt32.le_iff_toNat_le,
    UInt32.toNat_subSat, Nat.not_le]

end Node

/-! ## Mean signal -/

namespace Roster

theorem sum_between {lo hi : Int} {ms : List Neighbor}
    (h : ∀ m ∈ ms, lo ≤ m.rssi.toInt ∧ m.rssi.toInt ≤ hi) :
    lo * ms.length ≤ (ms.map fun m => m.rssi.toInt).sum ∧
      (ms.map fun m => m.rssi.toInt).sum ≤ hi * ms.length := by
  induction ms with
  | nil => simp
  | cons m ms ih =>
    obtain ⟨hlow, hhigh⟩ := h m List.mem_cons_self
    obtain ⟨hlows, hhighs⟩ := ih fun m' hm' => h m' (List.mem_cons_of_mem m hm')
    rw [List.map_cons, List.sum_cons, List.length_cons, Int.natCast_add, Int.mul_add, Int.mul_add]
    omega

/-- The mean is the quotient of the sum, which always fits. -/
theorem toInt_meanRssi {r : Roster} (h : r.size ≠ 0) :
    r.meanRssi.toInt = (r.values.map fun m : Neighbor => m.rssi.toInt).sum.tdiv r.size := by
  have hlen : r.values.length = r.size := List.length_map ..
  have hsum : r.values.foldl (fun total m => total + m.rssi.toInt) 0 =
      (r.values.map fun m : Neighbor => m.rssi.toInt).sum := by
    rw [List.sum_eq_foldl, List.foldl_map]
  have hwords : ∀ m ∈ r.values, -128 ≤ m.rssi.toInt ∧ m.rssi.toInt ≤ 127 := fun m _ =>
    ⟨Int8.le_toInt m.rssi, Int.le_of_lt_add_one (Int8.toInt_lt m.rssi)⟩
  obtain ⟨hlow, hhigh⟩ := sum_between hwords
  rw [hlen] at hlow hhigh
  obtain ⟨hweakest, hstrongest⟩ := tdiv_between h hlow hhigh
  simp only [meanRssi, if_neg h, hsum]
  exact Int8.toInt_ofInt_of_le hweakest (Int.lt_add_one_of_le hstrongest)

theorem meanRssi_between {r : Roster} (h : r.size ≠ 0) {lo hi : Int8}
    (hms : ∀ m ∈ r.values, lo ≤ m.rssi ∧ m.rssi ≤ hi) : lo ≤ r.meanRssi ∧ r.meanRssi ≤ hi := by
  have hlen : r.values.length = r.size := List.length_map ..
  simp only [Int8.le_iff_toInt_le] at hms ⊢
  rw [toInt_meanRssi h]
  have hsum := sum_between hms
  rw [hlen] at hsum
  exact tdiv_between h hsum.1 hsum.2

end Roster

/-- The roster of a node through anything that is done to the node. It never knows anybody twice or
more neighbors than there is room for, in the order in which they came to be known. It knows exactly
those that were heard of and not forgotten since, with what the history says of them. Only hearing
of an unknown neighbor can fail, and only without room. Pruning takes those that were unheard of for
too long and leaves the others in their order. Nobody was heard of later than now, and the mean
signal lies between the weakest and the strongest. -/
theorem Node.roster_tells_history (me : NodeId) (ops : List Op) :
    let n := (fresh me).run ops
    (n.roster.keys.Nodup ∧ n.roster.size ≤ 150 ∧ n.roster.keys.Pairwise (Precedes me ops)) ∧
    (∀ id, (n.roster.get? id).isSome ↔ ∃ before op after, Enters me id ops before op after) ∧
    (∀ id m before op after, n.roster.get? id = some m → Enters me id ops before op after →
      Remembers me id ops after m) ∧
    (∀ id rssi hops,
      (n.hear? id rssi hops = none ↔ n.roster.get? id = none ∧ n.roster.size = 150) ∧
      (n.hear? id rssi hops = none → n.step (.hear id rssi hops) = n)) ∧
    (∀ patience,
      let stale := fun e : NodeId × Neighbor =>
        patience.toNat < n.cycle.toNat - e.2.lastSeen.toNat
      (n.prune patience).1 = { n with roster := (n.prune patience).1.roster } ∧
      (n.prune patience).1.roster.entries = n.roster.entries.filter (fun e => ¬ stale e) ∧
      (n.prune patience).2 = n.roster.entries.countP fun e => stale e) ∧
    (∀ e ∈ n.roster.entries, e.2.lastSeen ≤ n.cycle) ∧
    n.roster.checkedMeanRssi = some n.roster.meanRssi ∧
    (n.roster.size ≠ 0 →
      n.roster.meanRssi.toInt =
        (n.roster.values.map fun m : Neighbor => m.rssi.toInt).sum.tdiv n.roster.size ∧
      ∀ lo hi, (∀ m ∈ n.roster.values, lo ≤ m.rssi ∧ m.rssi ≤ hi) →
        lo ≤ n.roster.meanRssi ∧ n.roster.meanRssi ≤ hi) := by
  intro n
  have hsize : n.roster.size ≤ Roster.capacity := size_run me ops
  refine ⟨⟨n.roster.nodup_keys, hsize, pairwise_precedes me ops⟩, fun id => ⟨exists_enters, ?_⟩,
    fun id m before op after hm henters => henters.remembers hm, fun id rssi hops => ⟨?_, ?_⟩,
    fun patience => ⟨rfl, ?_, gone_prune n patience⟩, fun e he => ?_,
    Roster.checkedMeanRssi_eq hsize, fun h => ⟨Roster.toInt_meanRssi h, fun _ _ =>
      Roster.meanRssi_between h⟩⟩
  · rintro ⟨before, op, after, henters⟩
    exact henters.known
  · rw [hear?_eq_none_iff]
    exact and_congr_right fun _ => ⟨Nat.le_antisymm hsize, Nat.le_of_eq ∘ Eq.symm⟩
  · intro hnone
    rw [step, hnone]
    rfl
  · rw [Station.entries_prune]
    simp only [Nat.not_lt]
  · exact seen_run me ops (Table.get?_eq_some_iff.2 he)

/-- A neighbor that was pruned and heard of again comes last, and of what was noted before nothing
is left. -/
theorem Node.roster_tells_history_reentered :
    let before : List Op := [.hear 8 (-70) 2, .markHead 8 3, .hear 7 (-60) 1, .advanceCycle,
      .hear 7 (-65) 1, .prune 0]
    let again : Op := .hear 8 (-50) 1
    let ops := before ++ [again] ++ [.markHead 8 4]
    let n := (fresh 1).run ops
    n.roster.keys = [7, 8] ∧ Enters 1 8 ops before again [.markHead 8 4] ∧
      ∃ m, n.roster.get? 8 = some m ∧ (m.rssi, m.hops, m.lastSeen) = (-50, 1, 1) ∧
        m.headClass = 4 ∧ m.lastSeen ≤ n.cycle := by
  intro before again ops n
  obtain ⟨-, -, hremembers, -, -, hseen, -⟩ := roster_tells_history 1 ops
  have henters : Enters 1 8 ops before again [.markHead 8 4] :=
    (enters_concat (by decide +kernel) (by decide +kernel)).concat (by decide +kernel)
  obtain ⟨m, hm⟩ := Option.isSome_iff_exists.1 henters.known
  have hrecord := hremembers 8 m before again [.markHead 8 4] hm henters
  have hlast : (sightings 8 (fresh 1) ops).getLast? = some (-50, 1, 1) := by decide +kernel
  exact ⟨by decide +kernel, henters, m, hm, Option.some.inj (hrecord.seen.symm.trans hlast),
    hrecord.headClass, hseen (8, m) (Table.get?_eq_some_iff.1 hm)⟩

end ClusterMesh
