import ClusterMesh.Proofs.Net.Ending
import ClusterMesh.Proofs.Net.Sequence
import ClusterMesh.Proofs.Station.Reputation
import ClusterMesh.Proofs.Wire.Frame

/-! Where the heads in snapshots come from. In a simulation whose frames are those of its nodes,
a node that says it heads a cluster or stands for one has stood, all frames on the air are
encodings of what some node said, and so each head that is recorded is a node that stood before
the snapshot was taken. -/
namespace ClusterMesh.Net
variable {stood : NodeId → Prop}

/-! ## Snapshots -/

/-- What is recorded of each node agrees with its role, and its head is recorded itself and has
stood. -/
structure Snapshot.Sourced (stood : NodeId → Prop) (s : Snapshot) : Prop where
  head : ∀ id r, s.records.get? id = some r → ∀ h, r.head = some h →
    s.records.contains h = true ∧ stood h
  isHead : ∀ id r, s.records.get? id = some r → r.role = .head → r.head = some id
  isMember : ∀ id r, s.records.get? id = some r → r.role = .member → r.head.isSome = true

theorem Snapshot.Sourced.mono {also : NodeId → Prop} (hs : ∀ id, stood id → also id)
    {s : Snapshot} (h : s.Sourced stood) : s.Sourced also where
  head := fun id r hr head hh => ⟨(h.head id r hr head hh).1, hs _ (h.head id r hr head hh).2⟩
  isHead := h.isHead
  isMember := h.isMember

theorem Snapshot.mem_withRole {s : Snapshot} {role : Role} {id : NodeId} :
    id ∈ s.withRole role ↔ ∃ r, s.records.get? id = some r ∧ r.role = role := by
  simp only [withRole, byName, List.mem_map, List.mem_filter, List.mem_mergeSort,
    decide_eq_true_eq, Table.get?_eq_some_iff]
  constructor
  · rintro ⟨⟨id, r⟩, ⟨hm, hr⟩, rfl⟩
    exact ⟨r, hm, hr⟩
  · rintro ⟨r, hm, hr⟩
    exact ⟨(id, r), ⟨hm, hr⟩, rfl⟩

theorem Snapshot.Sourced.membersValid {s : Snapshot} (h : s.Sourced stood) :
    s.membersValid = true := by
  refine List.all_eq_true.2 fun id hid => ?_
  obtain ⟨r, hr, hrole⟩ := Snapshot.mem_withRole.1 hid
  obtain ⟨head, hhead⟩ := Option.isSome_iff_exists.1 (h.isMember id r hr hrole)
  rw [hasValidHead, hr, Option.bind_some, hhead]
  exact (h.head id r hr head hhead).1

/-! ## Networks -/

def Resident.Vouched (stood : NodeId → Prop) (id : NodeId) (r : Resident) : Prop :=
  r.station.id = id ∧ r.station.Vouched stood

def Spoken (stood : NodeId → Prop) (bytes : List UInt8) : Prop :=
  ∃ p : Packet, bytes = p.encode ∧ p.Credible stood

def Event.Spoken (stood : NodeId → Prop) : Event → Prop
  | .delivery _ _ bytes _ => Net.Spoken stood bytes
  | _ => True

namespace World

def Stands (w : World) (id : NodeId) : Prop :=
  ∃ r, w.residents.get? id = some r ∧ r.station.node.role = .candidate

structure Traced (stood : NodeId → Prop) (w : World) : Prop where
  residents : ∀ id r, w.residents.get? id = some r → r.Vouched stood id
  pending : ∀ e ∈ w.agenda.entries, e.event.Spoken stood
  known : ∀ id, stood id → w.residents.contains id = true

end World

theorem Event.Spoken.mono {also : NodeId → Prop} (hs : ∀ id, stood id → also id) {e : Event}
    (h : e.Spoken stood) : e.Spoken also := by
  cases e with
  | delivery =>
    obtain ⟨p, hp, hc⟩ := h
    exact ⟨p, hp, hc.mono hs⟩
  | tick | action => trivial

theorem Resident.Vouched.record {id : NodeId} {r : Resident} (h : r.Vouched stood id) :
    (∀ head, r.record.head = some head → stood head) ∧
      (r.record.role = .head → r.record.head = some id) ∧
      (r.record.role = .member → r.record.head.isSome = true) := by
  obtain ⟨hid, h⟩ := h
  have hhead : r.record.head =
      if r.station.node.head ≠ nobody then some r.station.node.head else none := by
    simp only [Resident.record, Resident.head?, Node.hasHead, decide_eq_true_eq]
  rw [hhead]
  refine ⟨fun head hh => ?_, fun hr => ?_, fun hr => ?_⟩
  · split at hh
    · next hn =>
      cases hh
      exact h.follows hn
    · cases hh
  · have hown : r.station.node.head = r.station.id := h.sound.consistent.head_iff.1 hr
    have hn : r.station.node.head ≠ nobody := hown ▸ h.sound.id_ne
    rw [if_pos hn, hown, hid]
  · have hn : r.station.node.head ≠ nobody := (h.sound.consistent.member hr).1
    rw [if_pos hn]
    rfl

/-! ## Nodes -/

namespace Resident
variable {id : NodeId} {r : Resident}

theorem Vouched.mono {also : NodeId → Prop} (hs : ∀ id, stood id → also id)
    (h : r.Vouched stood id) : r.Vouched also id :=
  ⟨h.1, h.2.mono hs⟩

theorem Vouched.act (h : r.Vouched stood id) (hc : r.station.node.role = .candidate → stood id)
    {op : Station.Op} (hop : ∀ p, op.packet? = some p → p.Credible stood) :
    (r.act op).Vouched stood id :=
  ⟨(Station.id_step h.2.sound.inStep op).trans h.1, h.2.step (h.1 ▸ hc) hop⟩

theorem Vouched.silent (h : r.Vouched stood id) : r.silent.Vouched stood id := by
  obtain ⟨hid, h⟩ := h
  have hsound : r.silent.station.Sound := ⟨h.sound.inStep, h.sound.id_ne, h.sound.consistent⟩
  exact ⟨hid, hsound, h.headed, h.follows, fun p hp => absurd hp (Array.not_mem_empty p), h.waiting⟩

theorem Vouched.spoken (h : r.Vouched stood id) {bytes : List UInt8} (hb : bytes ∈ r.frames) :
    Net.Spoken stood bytes := by
  obtain ⟨p, hp, he⟩ := mem_frames.1 hb
  exact ⟨p, he, h.2.sent p hp⟩

end Resident

/-- What is read from a frame is what was written into it. -/
theorem Spoken.credible {bytes : List UInt8} (h : Spoken stood bytes) {rssi : Int8}
    {now : Instant} {p : Packet} (hp : Station.Op.packet? (.receiveBytes bytes rssi now) = some p) :
    p.Credible stood := by
  obtain ⟨q, rfl, hq⟩ := h
  have hread : Packet.ofBytes q.encode = .ok q :=
    (Packet.ofBytes_eq_ok_iff ..).2 (Packet.canonical_encode q)
  rw [Station.Op.packet?, hread] at hp
  cases hp
  exact hq

theorem Airborne.spoken {now : Instant} {sender : NodeId} {r : Resident} {id : NodeId}
    {plan : List (Instant × Event)} (h : Airborne now sender r.frames plan)
    (hr : r.Vouched stood id) : ∀ p ∈ plan, p.2.Spoken stood := by
  intro p hp
  obtain ⟨-, target, bytes, rssi, hb, he⟩ := h p hp
  rw [he]
  exact hr.spoken hb

theorem Action.packet?_of_power? {a : Action} {id : NodeId} {op : Station.Op}
    (h : a.power? = some (id, op)) : op.packet? = none := by
  cases a <;> cases h <;> rfl

/-! ## Moves -/

namespace World
variable {w v : World}

theorem Traced.sourced (h : w.Traced stood) : w.snapshot.Sourced stood := by
  have hrecord {id : NodeId} {r : Record} (hr : w.snapshot.records.get? id = some r) :
      ∃ n, w.residents.get? id = some n ∧ n.record = r := by
    rw [snapshot, Table.get?_mapValues] at hr
    exact Option.map_eq_some_iff.1 hr
  have hcontains (id : NodeId) :
      w.snapshot.records.contains id = w.residents.contains id := by
    rw [snapshot, Table.contains, Table.contains, Table.get?_mapValues, Option.isSome_map]
  refine ⟨fun id r hr head hh => ?_, fun id r hr hrole => ?_, fun id r hr hrole => ?_⟩
  · obtain ⟨n, hn, rfl⟩ := hrecord hr
    have hs := (h.residents id n hn).record.1 head hh
    exact ⟨hcontains head ▸ h.known head hs, hs⟩
  · obtain ⟨n, hn, rfl⟩ := hrecord hr
    exact (h.residents id n hn).record.2.1 hrole
  · obtain ⟨n, hn, rfl⟩ := hrecord hr
    exact (h.residents id n hn).record.2.2 hrole

/-- The network seen by someone who counts those that stand as well. -/
theorem Traced.recount (h : w.Traced stood) :
    w.Traced fun id => stood id ∨ w.Stands id := by
  refine ⟨fun id r hr => (h.residents id r hr).mono fun _ => .inl,
    fun e he => (h.pending e he).mono fun _ => .inl, fun id hid => ?_⟩
  obtain hs | ⟨r, hr, -⟩ := hid
  · exact h.known id hs
  · rw [Table.contains, hr]
    rfl

/-- One credible node in place of another, or one more. -/
theorem Traced.insert (h : w.Traced stood) {id : NodeId} {r : Resident}
    (hr : r.Vouched stood id) :
    (∀ id' s, (w.residents.insert id r).get? id' = some s → s.Vouched stood id') ∧
      ∀ id', stood id' → (w.residents.insert id r).contains id' = true := by
  refine ⟨fun id' s hs => ?_, fun id' hid => ?_⟩
  · rw [Table.get?_insert] at hs
    split at hs
    · next he =>
      cases hs
      exact he ▸ hr
    · exact h.residents id' s hs
  · rw [Table.contains, Table.get?_insert]
    split
    · rfl
    · exact h.known id' hid

/-- Where those that stand are known, an event leaves only credible nodes and plans. -/
theorem Traced.effect (h : w.Traced stood) (hc : ∀ id, w.Stands id → stood id) {e : Event}
    {rs : Table NodeId Resident} {plan : List (Instant × Event)} (he : e.Spoken stood)
    (heffect : w.Effect e rs plan) :
    (∀ id r, rs.get? id = some r → r.Vouched stood id) ∧
      (∀ id, stood id → rs.contains id = true) ∧ ∀ p ∈ plan, p.2.Spoken stood := by
  have hact (op : Station.Op) {id : NodeId} {r : Resident} (hr : w.residents.get? id = some r)
      (hop : ∀ p, op.packet? = some p → p.Credible stood) : (r.act op).Vouched stood id :=
    (h.residents id r hr).act (fun hrole => hc id ⟨r, hr, hrole⟩) hop
  cases heffect with
  | missed | vacant | arranged => exact ⟨h.residents, h.known, nofun⟩
  | @heard target sender bytes rssi r s plan hr hs hp =>
    subst hs
    have hv := hact (.receiveBytes bytes rssi w.now) hr fun p hp => Spoken.credible he hp
    obtain ⟨hres, hknown⟩ := h.insert hv.silent
    exact ⟨hres, hknown, hp.spoken hv⟩
  | ticked hr hs hp =>
    subst hs
    have hv := hact (.tick w.now) hr nofun
    obtain ⟨hres, hknown⟩ := h.insert hv.silent
    refine ⟨hres, hknown, fun p hmem => ?_⟩
    obtain hmem | hmem := List.mem_append.1 hmem
    · exact hp.spoken hv p hmem
    · rw [List.mem_singleton.1 hmem]
      trivial
  | @powered a id op hpower =>
    have hop : ∀ p, op.packet? = some p → p.Credible stood := by
      rw [Action.packet?_of_power? hpower]
      nofun
    refine ⟨fun id' s hs => ?_, fun id' hid => ?_, nofun⟩
    · rw [Table.get?_modify] at hs
      split at hs
      · obtain ⟨r, hr, rfl⟩ := Option.map_eq_some_iff.1 hs
        exact hact op hr hop
      · exact h.residents id' s hs
    · rw [Table.contains, Table.get?_modify]
      split
      · rw [Option.isSome_map]
        exact h.known id' hid
      · exact h.known id' hid

theorem Traced.next (h : w.Traced stood) (hc : ∀ id, w.Stands id → stood id) {limit : Instant}
    {e : Scheduled} (hv : w.next? limit = some (e, v)) : v.Traced stood := by
  obtain ⟨agenda, plan, ha, -, hp⟩ := happens_next? hv
  have he : e.event.Spoken stood := h.pending e (ha ▸ List.mem_cons_self)
  have hrest : ({ w with agenda }.advanceTo e.time).Traced stood :=
    ⟨h.residents, fun d hd => h.pending d (ha ▸ List.mem_cons_of_mem e hd), h.known⟩
  obtain ⟨hres, hknown, hplan⟩ := hrest.effect hc he hp.effect
  refine ⟨hres, fun d hd => ?_, hknown⟩
  rw [hp.agenda, (perm_insertAll _ _).mem_iff] at hd
  obtain hd | hd := List.mem_append.1 hd
  · exact hrest.pending d hd
  · exact hplan _ (mem_numbered hd)

theorem Traced.add (h : w.Traced stood) {id : NodeId} (hv : w.add id = .ok v) :
    v.Traced stood := by
  obtain ⟨r, s, hr, hs, rfl⟩ := add_eq hv
  obtain ⟨c, hid, hstart⟩ := Resident.start_eq hr
  have hfresh : r.Vouched stood id := by
    refine ⟨?_, Station.vouched_start hstart⟩
    obtain ⟨-, he⟩ := Station.start_eq hstart
    rw [he]
    exact hid
  have hrole : r.station.node.role ≠ .candidate := by
    obtain ⟨-, he⟩ := Station.start_eq hstart
    rw [he]
    nofun
  have hplaced : s.Vouched stood id := by
    obtain rfl | ⟨p, rfl⟩ := hs
    · exact hfresh
    · exact hfresh.act (fun hc => absurd hc hrole) nofun
  obtain ⟨hres, hknown⟩ := h.insert hplaced
  refine ⟨hres, fun d hd => ?_, hknown⟩
  obtain rfl | hd := Agenda.mem_insert.1 hd
  · trivial
  · exact h.pending d hd

theorem Traced.undergo (h : w.Traced stood) {d : Deed} (hd : d.Scripted) :
    (w.undergo d).Traced stood := by
  cases d with
  | add id =>
    cases hv : w.add id with
    | error e =>
      rw [undergo_add_of_error hv]
      exact h
    | ok v =>
      rw [undergo_add_of_ok hv]
      exact h.add hv
  | plan time event =>
    cases event with
    | action a =>
      refine ⟨h.residents, fun e he => ?_, h.known⟩
      obtain rfl | he := Agenda.mem_insert.1 he
      · trivial
      · exact h.pending e he
    | delivery | tick => exact absurd hd id
  | arrange | equip | watch | look => exact ⟨h.residents, h.pending, h.known⟩
  | operate | replace | takeFrames | takeTraces | takeNotices => exact absurd hd id

theorem Traced.moves (h : w.Traced stood) (hc : ∀ id, w.Stands id → stood id)
    (hm : w.Moves Deed.Scripted v) : v.Traced stood := by
  cases hm with
  | deed d hd => exact h.undergo hd
  | event hv => exact h.next hc hv
  | rest => exact ⟨h.residents, h.pending, h.known⟩

/-- New snapshots show the network as it is after the move. -/
theorem Moves.snapshots {allowed : Deed → Prop} (h : w.Moves allowed v) :
    ∃ n, v.history.snapshots = w.history.snapshots ++ Array.replicate n v.snapshot := by
  cases h with
  | deed d hd =>
    cases d with
    | look => exact ⟨1, rfl⟩
    | add id =>
      refine ⟨0, ?_⟩
      rw [Array.replicate_zero, Array.append_empty]
      cases hu : w.add id with
      | error e =>
        rw [World.undergo, hu]
        rfl
      | ok u =>
        obtain ⟨r, s, -, -, rfl⟩ := add_eq hu
        rw [World.undergo, hu]
        rfl
    | _ => exact ⟨0, by rw [Array.replicate_zero, Array.append_empty]; rfl⟩
  | event hv =>
    obtain ⟨agenda, plan, -, -, hp⟩ := happens_next? hv
    exact hp.snapshots
  | rest => exact ⟨1, rfl⟩

end World

/-! ## Stories -/

def Stood (past : List World) (id : NodeId) : Prop := ∃ u ∈ past, u.Stands id

theorem stood_cons {w : World} {past : List World} {id : NodeId} :
    Stood (w :: past) id ↔ Stood past id ∨ w.Stands id := by
  simp [Stood, or_comm]

/-- A node of that name stood for head before the snapshot with that index was taken. -/
def StoodBefore (past : List World) (k : Nat) (id : NodeId) : Prop :=
  ∃ u ∈ past, u.history.snapshots.size ≤ k ∧ u.Stands id

/-- At each state of a story every node and every frame is credible to those who know which
nodes stood before. -/
theorem Story.traced {ws : List World} (h : Story Deed.Scripted ws) :
    ∀ w past, ws = w :: past → w.Traced (Stood past) := by
  induction h with
  | start seed hash =>
    rintro w past ⟨⟩
    refine ⟨fun id r hr => ?_, fun e he => absurd he List.not_mem_nil, fun id hid => ?_⟩
    · have hnone : (World.ofSeed seed hash).residents.get? id = none := rfl
      rw [hnone] at hr
      cases hr
    · obtain ⟨u, hu, -⟩ := hid
      cases hu
  | @move w v past h hm ih =>
    rintro _ _ ⟨⟩
    have hcount : w.Traced (Stood (w :: past)) := by
      have hiff : Stood (w :: past) = fun id => Stood past id ∨ w.Stands id :=
        funext fun id => propext stood_cons
      rw [hiff]
      exact (ih w past rfl).recount
    exact hcount.moves (fun id hid => ⟨w, List.mem_cons_self, hid⟩) hm

/-- The snapshots of a story never become fewer, and each of them is sourced by what was before
it. -/
theorem Story.recorded {ws : List World} (h : Story Deed.Scripted ws) :
    ∀ w past, ws = w :: past →
      (∀ u ∈ past, u.history.snapshots.size ≤ w.history.snapshots.size) ∧
        ∀ (k : Nat) (s : Snapshot), w.history.snapshots[k]? = some s →
          s.Sourced (StoodBefore past k) := by
  induction h with
  | start seed hash =>
    rintro w past ⟨⟩
    refine ⟨fun _ hu => absurd hu List.not_mem_nil, fun k s hs => ?_⟩
    have hnone : (World.ofSeed seed hash).history.snapshots[k]? = none := Array.getElem?_empty
    rw [hnone] at hs
    cases hs
  | @move w v past h hm ih =>
    rintro _ _ ⟨⟩
    obtain ⟨hsizes, hold⟩ := ih w past rfl
    obtain ⟨n, hn⟩ := hm.snapshots
    have hgrow : w.history.snapshots.size ≤ v.history.snapshots.size := by
      rw [hn, Array.size_append]
      omega
    refine ⟨fun u hu => ?_, fun k s hs => ?_⟩
    · obtain rfl | hu := List.mem_cons.1 hu
      · exact hgrow
      · exact (hsizes u hu).trans hgrow
    · rw [hn, Array.getElem?_append] at hs
      split at hs
      · exact (hold k s hs).mono fun id hid => by
          obtain ⟨u, hu, hk, hstands⟩ := hid
          exact ⟨u, List.mem_cons_of_mem w hu, hk, hstands⟩
      · next hk =>
        have hs : s = v.snapshot := Array.eq_of_mem_replicate (Array.mem_of_getElem? hs)
        rw [hs]
        -- no state before has more snapshots than were taken until then
        refine ((h.move hm).traced v (w :: past) rfl).sourced.mono fun id hid => ?_
        obtain ⟨u, hu, hstands⟩ := hid
        refine ⟨u, hu, ?_, hstands⟩
        obtain rfl | hu := List.mem_cons.1 hu
        · omega
        · have hle := hsizes u hu
          omega

/-- Simulations are built from nodes, surroundings and actions, as scenarios are, and run. In each
snapshot in the outcome of a run every head that a node records is recorded itself, is a node of
the simulation and has stood for head in a state before the snapshot. Who is recorded as head
records itself as its head, and who is recorded as member has a head. -/
theorem recorded_heads_stood {w v : World} {past : List World} {limit : Instant} {o : Outcome}
    (h : Story Deed.Scripted (w :: past)) (hr : w.runUntil limit = some (o, v)) {k : Nat}
    {s : Snapshot} (hs : o.history.snapshots[k]? = some s) :
    ∃ between, Story Deed.Scripted (v :: (between ++ past)) ∧
      (∀ id, StoodBefore (between ++ past) k id → v.residents.contains id = true) ∧
      s.Sourced (StoodBefore (between ++ past) k) ∧ s.membersValid = true := by
  obtain ⟨between, hb⟩ := h.runUntil hr
  obtain ⟨es, u, -, -, rfl, rfl⟩ := World.runUntil_eq_some_iff.1 hr
  have hsourced := (hb.recorded _ _ rfl).2 k s hs
  refine ⟨between, hb, fun id hid => ?_, hsourced, hsourced.membersValid⟩
  obtain ⟨t, ht, -, hstands⟩ := hid
  exact (hb.traced _ _ rfl).known id ⟨t, ht, hstands⟩

/-- A node meets five others one after the other, stands for head and tells one of them, who records
it as its head. -/
theorem recorded_heads_stood_of_candidate :
    let scenario : Scenario := { size := 1, seed := 1, plan := ⟨1, 1, 1, 1⟩, slotMs := 100 }
    let meet (w : World) (id : NodeId) : World :=
      ((w.undergo (.arrange (Topology.ofPairs [(1, id)]))).undergo (.add id)).goOn ⟨100⟩ 4
    let met (w : World) : World := [3, 4, 5, 6, 7].foldl meet
      ((w.goOn ⟨100⟩ 2).undergo (.equip { plan := ⟨1, 1, 1, 1⟩, slotMs := 1000000 }))
    let stood (w : World) : World := ((met w).undergo (.arrange {})).goOn ⟨1000⟩ 12
    let told (w : World) : World :=
      ((stood w).undergo (.arrange (Topology.ofPairs [(1, 3)]))).goOn ⟨1000⟩ 2
    ∃ start w past o v s r, scenario.build = .ok start ∧ w = told start ∧
      Story Deed.Scripted (w :: past) ∧ w.runUntil ⟨1000⟩ = some (o, v) ∧
      o.history.snapshots[0]? = some s ∧ s.records.get? 3 = some r ∧ r.head = some 1 ∧
      ∃ between, Story Deed.Scripted (v :: (between ++ past)) ∧
        (∀ id, StoodBefore (between ++ past) 0 id → v.residents.contains id = true) ∧
        s.Sourced (StoodBefore (between ++ past) 0) ∧ s.membersValid = true := by
  intro scenario meet met stood told
  have hmeet {w : World} (h : w.Told Deed.Scripted) (id : NodeId) :
      (meet w id).Told Deed.Scripted :=
    ((h.undergo (.arrange _) trivial).undergo (.add id) trivial).goOn ⟨100⟩ 4
  have hmet {w : World} (h : w.Told Deed.Scripted) : (met w).Told Deed.Scripted :=
    List.foldlRecOn _ _ ((h.goOn ⟨100⟩ 2).undergo (.equip _) trivial) fun _ h id _ => hmeet h id
  have hstood {w : World} (h : w.Told Deed.Scripted) : (stood w).Told Deed.Scripted :=
    ((hmet h).undergo (.arrange _) trivial).goOn ⟨1000⟩ 12
  have htold {w : World} (h : w.Told Deed.Scripted) : (told w).Told Deed.Scripted :=
    ((hstood h).undergo (.arrange _) trivial).goOn ⟨1000⟩ 2
  obtain ⟨start, hbuilt, hnext, hnone, hhead⟩ : ∃ start, scenario.build = .ok start ∧
      ((told start).next? ⟨1000⟩).isNone = true ∧ (told start).history.snapshots = #[] ∧
      (((told start).advanceTo ⟨1000⟩).snapshot.records.get? 3).bind (·.head) = some 1 :=
    ⟨_, rfl, by decide +kernel⟩
  obtain ⟨past, hpast⟩ := htold (told_build hbuilt)
  generalize hw : told start = w at *
  have hr : w.runUntil ⟨1000⟩ = some ((w.settle ⟨1000⟩).outcome, w.settle ⟨1000⟩) :=
    World.runUntil_eq_some_iff.2 ⟨[], w, rfl, Option.isNone_iff_eq_none.1 hnext, rfl, rfl⟩
  obtain ⟨r, hr3, hrhead⟩ := Option.bind_eq_some_iff.1 hhead
  have hs : (w.settle ⟨1000⟩).outcome.history.snapshots[0]? =
      some (w.advanceTo ⟨1000⟩).snapshot := by
    simp [World.outcome, World.settle, World.takeSnapshot, World.advanceTo, hnone]
  exact ⟨start, w, past, _, _, _, r, hbuilt, hw.symm, hpast, hr, hs, hr3, hrhead,
    recorded_heads_stood hpast hr hs⟩

end ClusterMesh.Net
