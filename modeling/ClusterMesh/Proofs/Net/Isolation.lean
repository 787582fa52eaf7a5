import ClusterMesh.Proofs.Net.Carriage

/-! A network that was parted into groups. No path of active links leads from one group to another,
and within a group links are as they were. In a simulation this lasts until links are restored or
laid anew: what nodes send meanwhile is planned to arrive within their groups only. Frames that were
on their way before may still arrive elsewhere. -/
namespace ClusterMesh.Net

namespace Topology
variable {t : Topology} {groups : List (List NodeId)} {a b : NodeId}

def Parted (groups : List (List NodeId)) (t : Topology) : Prop :=
  ∀ e l, (e, l) ∈ t.links.entries → l.active = true → groupOf groups e.1 = groupOf groups e.2

theorem groupOf_ends_iff :
    groupOf groups (ends a b).1 = groupOf groups (ends a b).2 ↔
      groupOf groups a = groupOf groups b := by
  simp only [ends]
  split
  · rfl
  · exact eq_comm

/-! ## Links that are cut -/

theorem parted_mapValues {change : NodeId × NodeId → Link → Link}
    (h : ∀ e l, (e, l) ∈ t.links.entries → (change e l).active = true →
      groupOf groups e.1 = groupOf groups e.2) :
    Parted groups { t with links := t.links.mapValues change } := by
  intro e l hl hactive
  obtain ⟨d, hd, he⟩ := List.mem_map.1 hl
  cases he
  exact h d.1 d.2 hd hactive

theorem parted_partition (t : Topology) (groups : List (List NodeId)) :
    (t.partition groups).Parted groups := by
  refine parted_mapValues fun e l _ hactive => ?_
  by_contra hne
  rw [if_neg hne] at hactive
  cases hactive

/-- What activates no link leaves the groups apart. -/
theorem Parted.mapValues (h : t.Parted groups) {change : NodeId × NodeId → Link → Link}
    (hchange : ∀ e l, (change e l).active = true → l.active = true) :
    Parted groups { t with links := t.links.mapValues change } :=
  parted_mapValues fun e l hl hactive => h e l hl (hchange e l hactive)

theorem Parted.partition (h : t.Parted groups) (groups' : List (List NodeId)) :
    (t.partition groups').Parted groups := by
  refine h.mapValues fun e l hactive => ?_
  split at hactive
  · exact hactive
  · cases hactive

theorem Parted.adjust (h : t.Parted groups) {change : Link → Link}
    (hchange : ∀ l, (change l).active = true → l.active = true) (a b : NodeId) :
    (t.adjust a b change).Parted groups := by
  refine h.mapValues fun e l hactive => ?_
  split at hactive
  · exact hchange l hactive
  · exact hactive

theorem link?_partition (t : Topology) (groups : List (List NodeId)) (a b : NodeId) :
    (t.partition groups).link? a b = (t.link? a b).map fun l =>
      if groupOf groups a = groupOf groups b then l else { l with active := false } := by
  simp only [← groupOf_ends_iff (a := a) (b := b)]
  exact t.links.get?_mapValues ..

/-! ## Paths -/

theorem Parted.of_connected (h : t.Parted groups) (hab : t.connected a b = true) :
    groupOf groups a = groupOf groups b := by
  simp only [connected] at hab
  split at hab
  · next l hl => exact groupOf_ends_iff.1 (h _ l (Table.get?_eq_some_iff.1 hl) hab)
  · cases hab

theorem Parted.of_reachable (h : t.Parted groups) (hab : t.graph.Reachable a b) :
    groupOf groups a = groupOf groups b := by
  obtain ⟨walk⟩ := hab
  induction walk with
  | nil => rfl
  | cons hadj _ ih =>
    obtain ⟨-, hout | hback⟩ := hadj
    · exact (h.of_connected hout).trans ih
    · exact (h.of_connected hback).symm.trans ih

theorem Parted.of_mem_neighbors (h : t.Parted groups) (hab : b ∈ t.neighbors a) :
    groupOf groups a = groupOf groups b := by
  obtain ⟨e, l, hl, hactive, he⟩ := mem_neighbors.1 hab
  have hgroups := h e l hl hactive
  simp only [opposite?] at he
  split at he
  · next ha =>
    cases he
    rw [← ha, hgroups]
  · split at he
    · next ha =>
      cases he
      rw [← ha, hgroups]
    · cases he

end Topology

/-! ## Frames on links -/

namespace World
variable {u v w : World} {plan plan' : List (Instant × Event)}

/-- The second network is the first one with a plan, by which copies of frames arrive only where
an active link of their sender ends. -/
structure Routes (w v : World) (plan : List (Instant × Event)) : Prop where
  agenda : v.agenda = w.agenda.insertAll (numbered w.planned plan)
  planned : v.planned = w.planned + plan.length
  topology : v.topology = w.topology
  linked : ∀ p ∈ plan, ∀ c, p.2.copy? = some c → c.target ∈ w.topology.neighbors c.sender

theorem routes_refl (w : World) : w.Routes w [] := ⟨rfl, rfl, rfl, nofun⟩

theorem Routes.trans (h : u.Routes v plan) (k : v.Routes w plan') :
    u.Routes w (plan ++ plan') := by
  refine ⟨?_, ?_, k.topology.trans h.topology, fun p hp c hc => ?_⟩
  · rw [k.agenda, h.agenda, h.planned, numbered_append]
    exact (List.foldl_append ..).symm
  · rw [k.planned, h.planned, List.length_append, Nat.add_assoc]
  · obtain hp | hp := List.mem_append.1 hp
    · exact h.linked p hp c hc
    · rw [← h.topology]
      exact k.linked p hp c hc

theorem mem_reached {sender : NodeId} {ns : List NodeId} {c : NodeId × Link}
    (h : c ∈ (w.reached sender ns).1) : c.1 ∈ ns := by
  induction ns generalizing w with
  | nil => cases h
  | cons n ns ih =>
    simp only [reached] at h
    split at h
    · exact List.mem_cons_of_mem n (ih h)
    · next l _ =>
      dsimp only at h
      cases hs : (w.survives l).1 with
      | true =>
        rw [hs, if_pos rfl] at h
        obtain rfl | h := List.mem_cons.1 h
        · exact List.mem_cons_self
        · exact List.mem_cons_of_mem n (ih h)
      | false =>
        rw [hs] at h
        exact List.mem_cons_of_mem n (ih h)

theorem routes_broadcast (w : World) (sender : NodeId) (bytes : List UInt8) :
    ∃ plan, w.Routes (w.broadcast sender bytes) plan := by
  have haired : w.Aired (w.copies sender).2 :=
    .trans ⟨_, _, _, rfl⟩ (aired_reached w.sending sender _)
  have htopology := haired.topology_eq
  rw [broadcast_eq]
  generalize hcopies : (w.copies sender).1 = copies
  obtain ⟨_, _, _, heq⟩ := haired
  rw [heq]
  refine ⟨_, rfl, rfl, rfl, fun p hp c hc => ?_⟩
  obtain ⟨d, hd, rfl⟩ := List.mem_map.1 hp
  cases hc
  rw [← hcopies] at hd
  exact mem_reached hd

theorem routes_broadcasts (w : World) (sender : NodeId) (frames : List (List UInt8)) :
    ∃ plan, w.Routes (frames.foldl (fun w bytes => w.broadcast sender bytes) w) plan := by
  induction frames generalizing w with
  | nil => exact ⟨[], routes_refl w⟩
  | cons bytes frames ih =>
    obtain ⟨p, hp⟩ := routes_broadcast w sender bytes
    obtain ⟨q, hq⟩ := ih (w.broadcast sender bytes)
    exact ⟨p ++ q, hp.trans hq⟩

theorem routes_collect (w : World) (id : NodeId) : ∃ plan, w.Routes (w.collect id) plan := by
  simp only [collect]
  split
  · exact ⟨[], routes_refl w⟩
  · next r _ =>
    obtain ⟨plan, h⟩ := routes_broadcasts
      { w with residents := w.residents.insert id r.silent } id r.frames
    exact ⟨plan, h.agenda, h.planned, h.topology, h.linked⟩

theorem routes_deliver (w : World) (target : NodeId) (bytes : List UInt8) (rssi : Int8) :
    ∃ plan, w.Routes (w.deliver target bytes rssi) plan := by
  simp only [deliver]
  split
  · exact ⟨[], routes_refl w⟩
  · obtain ⟨plan, h⟩ := routes_collect _ target
    exact ⟨plan, h.agenda, h.planned, h.topology, h.linked⟩

/-- The next slot of a node is planned behind the frames that it sends. -/
theorem routes_fireTick (w : World) (id : NodeId) : ∃ plan, w.Routes (w.fireTick id) plan := by
  simp only [fireTick]
  split
  · exact ⟨[], routes_refl w⟩
  · next r _ =>
    generalize r.modify (·.tick w.now) = s
    obtain ⟨plan, h⟩ := routes_collect { w with residents := w.residents.insert id s } id
    have hsent : w.Routes _ plan := ⟨h.agenda, h.planned, h.topology, h.linked⟩
    refine ⟨plan ++ [(_, .tick id)], hsent.trans ⟨rfl, rfl, rfl, fun p hp c hc => ?_⟩⟩
    rw [List.mem_singleton.1 hp] at hc
    cases hc

/-- An event that is no action plans along the links, and leaves them as they are. -/
theorem routes_happen (w : World) {e : Scheduled} (he : ∀ a, e.event ≠ .action a) :
    ∃ plan, w.Routes (w.happen e) plan := by
  have hhandle : ∃ plan, (w.advanceTo e.time).Routes ((w.advanceTo e.time).handle e.event)
      plan := by
    cases hevent : e.event with
    | delivery target sender bytes rssi => exact routes_deliver ..
    | tick id => exact routes_fireTick ..
    | action a => exact absurd hevent (he a)
  obtain ⟨plan, h⟩ := hhandle
  simp only [happen, snapshotIfDue]
  refine ⟨plan, ?_⟩
  split
  · exact ⟨h.agenda, h.planned, h.topology, h.linked⟩
  · split <;> exact ⟨h.agenda, h.planned, h.topology, h.linked⟩

/-- An action plans nothing. -/
theorem happen_of_action (w : World) {e : Scheduled} {a : Action} (he : e.event = .action a) :
    (w.happen e).agenda = w.agenda ∧ (w.happen e).planned = w.planned ∧
      (w.happen e).topology = (w.perform a).topology := by
  have hhandle : ((w.advanceTo e.time).handle e.event).agenda = w.agenda ∧
      ((w.advanceTo e.time).handle e.event).planned = w.planned ∧
      ((w.advanceTo e.time).handle e.event).topology = (w.perform a).topology := by
    rw [he]
    cases a <;> exact ⟨rfl, rfl, rfl⟩
  simp only [happen, snapshotIfDue]
  split
  · exact hhandle
  · split <;> exact hhandle

/-- Whatever an event plans, copies of frames arrive only where an active link of their sender
ends. -/
theorem exists_linked {limit : Instant} {e : Scheduled} (h : w.next? limit = some (e, v)) :
    ∃ plan, w.Progress [e] v plan ∧
      ∀ p ∈ plan, ∀ c, p.2.copy? = some c → c.target ∈ w.topology.neighbors c.sender := by
  obtain ⟨_, hp, -⟩ := progress_next? h
  obtain ⟨agenda, hdue, rfl⟩ := next?_eq_some_iff.1 h
  obtain ⟨hentries, -⟩ := Agenda.due?_eq_some_iff.1 hdue
  have hplan : ∃ plan, ({ w with agenda }.happen e).agenda =
      agenda.insertAll (numbered w.planned plan) ∧
      ({ w with agenda }.happen e).planned = w.planned + plan.length ∧
      ∀ p ∈ plan, ∀ c, p.2.copy? = some c → c.target ∈ w.topology.neighbors c.sender := by
    by_cases haction : ∃ a, e.event = .action a
    · obtain ⟨a, ha⟩ := haction
      obtain ⟨hagenda, hplanned, -⟩ := happen_of_action { w with agenda } ha
      exact ⟨[], hagenda, hplanned, nofun⟩
    · obtain ⟨plan, hr⟩ := routes_happen { w with agenda } fun a ha => haction ⟨a, ha⟩
      exact ⟨plan, hr.agenda, hr.planned, hr.linked⟩
  obtain ⟨plan, hagenda, hplanned, hlinked⟩ := hplan
  refine ⟨plan, ⟨hplanned, ?_, hp.now, hp.snapshots⟩, hlinked⟩
  rw [hagenda, hentries]
  exact (perm_insertAll agenda _).cons e

end World

/-! ## Turns after a partition -/

def Action.Restores : Action → Prop
  | .heal | .restore .. => True
  | _ => False

namespace Turn

/-- In the turn links may be restored, or the topology is laid anew. -/
def Rejoins : Turn → Prop
  | .deed d => ∃ t, d = .arrange t
  | .event e => ∃ a, e.event = .action a ∧ a.Restores
  | .rest _ => False

def done : Turn → List Scheduled
  | .event e => [e]
  | _ => []

def asked? : Turn → Option (Instant × Event)
  | .deed (.plan time e) => some (time, e)
  | _ => none

end Turn

namespace World
variable {w v : World} {groups : List (List NodeId)} {allowed : Deed → Prop} {turn : Turn}

theorem parted_perform (h : w.topology.Parted groups) {a : Action} (ha : ¬ a.Restores) :
    (w.perform a).topology.Parted groups := by
  cases a with
  | partition groups' => exact h.partition groups'
  | heal | restore => exact absurd trivial ha
  | cut a b => exact h.adjust (fun _ hactive => absurd hactive Bool.false_ne_true) a b
  | setLoss a b loss =>
    have hset : ∀ l : Link, (l.setLoss loss).active = true → l.active = true := fun _ h => h
    exact h.adjust hset a b
  | powerDown | powerUp | snapshot => exact h

/-- Groups stay apart in a turn that rejoins nothing. -/
theorem Takes.parted (ht : w.Takes allowed turn v) (h : w.topology.Parted groups)
    (hturn : ¬ turn.Rejoins) : v.topology.Parted groups := by
  cases ht with
  | deed d _ =>
    cases d with
    | arrange t => exact absurd ⟨t, rfl⟩ hturn
    | add id =>
      cases hv : w.add id with
      | error e =>
        rw [undergo_add_of_error hv]
        exact h
      | ok v =>
        obtain ⟨_, _, -, -, hadded⟩ := add_eq hv
        rw [undergo_add_of_ok hv, hadded]
        exact h
    | _ => exact h
  | @event limit e _ hv =>
    obtain ⟨agenda, -, rfl⟩ := next?_eq_some_iff.1 hv
    by_cases haction : ∃ a, e.event = .action a
    · obtain ⟨a, ha⟩ := haction
      obtain ⟨-, -, htopology⟩ := happen_of_action { w with agenda } ha
      rw [htopology]
      exact parted_perform (w := { w with agenda }) h fun hr => hturn ⟨a, ha, hr⟩
    · obtain ⟨plan, hr⟩ := routes_happen { w with agenda } fun a ha => haction ⟨a, ha⟩
      rw [hr.topology]
      exact h
  | rest => exact h

/-- In any turn what nodes send is planned to arrive within their groups, as long as these are
apart. -/
theorem Takes.exists_within (ht : w.Takes allowed turn v) (h : w.topology.Parted groups) :
    ∃ plan, w.Progress turn.done v plan ∧ ∀ p ∈ plan, turn.asked? = some p ∨
      ∀ c, p.2.copy? = some c →
        Topology.groupOf groups c.sender = Topology.groupOf groups c.target := by
  cases ht with
  | deed d _ =>
    obtain ⟨plan, hp, hasked⟩ := w.progress_undergo d
    refine ⟨plan, hp, fun p hmem => ?_⟩
    obtain rfl | ⟨id, htick⟩ := hasked p hmem
    · exact .inl rfl
    · refine .inr fun c hc => ?_
      rw [htick] at hc
      cases hc
  | event hv =>
    obtain ⟨plan, hp, hlinked⟩ := exists_linked hv
    exact ⟨plan, hp, fun p hmem => .inr fun c hc => h.of_mem_neighbors (hlinked p hmem c hc)⟩
  | rest => exact ⟨[], w.progress_settle _, List.forall_mem_nil _⟩

end World

/-- From a partition on the groups are apart until they are rejoined. -/
theorem Chronicle.parted {allowed : Deed → Prop} {groups : List (List NodeId)}
    {earlier later : List (World × Turn)} {u w : World} {e : Scheduled}
    (h : Chronicle allowed (later ++ (u, .event e) :: earlier) w)
    (he : e.event = .action (.partition groups)) (hlater : ∀ m ∈ later, ¬ m.2.Rejoins) :
    w.topology.Parted groups := by
  induction later generalizing w with
  | nil =>
    cases h with
    | turn _ ht =>
      cases ht with
      | event hv =>
        obtain ⟨agenda, -, rfl⟩ := World.next?_eq_some_iff.1 hv
        obtain ⟨-, -, htopology⟩ := World.happen_of_action { u with agenda } he
        rw [htopology]
        exact Topology.parted_partition u.topology groups
  | cons m later ih =>
    cases h with
    | turn h ht =>
      exact ht.parted (ih h fun m hm => hlater m (List.mem_cons_of_mem _ hm))
        (hlater _ List.mem_cons_self)

/-- A partition leaves no path between nodes of different groups, where those in no group form one
more, and only cuts links between groups. In a simulation, from when a partition has happened until
links are restored or the topology is laid anew, no turn plans a copy of a frame to arrive in
another group than its sender's, unless the user schedules it himself. -/
theorem partition_isolates (t : Topology) (groups : List (List NodeId)) :
    let class? := Topology.groupOf groups
    (∀ a b, (t.partition groups).graph.Reachable a b → class? a = class? b) ∧
    (∀ a b, class? a = class? b → (t.partition groups).link? a b = t.link? a b) ∧
    (∀ a b, class? a ≠ class? b →
      (t.partition groups).link? a b = (t.link? a b).map ({ · with active := false })) ∧
    ∀ (allowed : Deed → Prop) (earlier later : List (World × Turn)) (u w v : World)
      (e : Scheduled) (turn : Turn),
      Chronicle allowed (later ++ (u, .event e) :: earlier) w →
      e.event = .action (.partition groups) → (∀ m ∈ later, ¬ m.2.Rejoins) →
      w.Takes allowed turn v →
      ∃ plan, w.Progress turn.done v plan ∧ ∀ p ∈ plan, turn.asked? = some p ∨
        ∀ c, p.2.copy? = some c → class? c.sender = class? c.target := by
  refine ⟨fun a b => (Topology.parted_partition t groups).of_reachable, fun a b hab => ?_,
    fun a b hab => ?_, fun allowed earlier later u w v e turn h he hlater ht => ?_⟩
  · rw [Topology.link?_partition]
    simp only [if_pos hab, Option.map_id']
  · rw [Topology.link?_partition]
    simp only [if_neg hab]
  · exact ht.exists_within (h.parted he hlater)

set_option maxRecDepth 20000 in
/-- Of three nodes that hear each other the third one is parted from the others. The first one comes
up after that and sends a frame in its third slot, when one of its two links is left. -/
theorem partition_isolates_first_frame :
    let groups : List (List NodeId) := [[1, 2], [3]]
    let t := Topology.ofPairs [(1, 2), (1, 3), (2, 3)]
    (¬ (t.partition groups).graph.Reachable 1 3 ∧ (t.partition groups).link? 2 1 = t.link? 2 1 ∧
      (t.partition groups).connected 3 2 = false) ∧
    ∃ (earlier later : List (World × Turn)) (u w v : World) (e d : Scheduled),
      Chronicle (fun _ => True) (later ++ (u, .event e) :: earlier) w ∧
      e.event = .action (.partition groups) ∧ (∀ m ∈ later, ¬ m.2.Rejoins) ∧
      w.Takes (fun _ => True) (.event d) v ∧
      (u.topology.degree 1, w.topology.degree 1, (spoken (w, .event d)).length) = (2, 1, 1) ∧
      ∃ plan, w.Progress [d] v plan ∧ ∀ p ∈ plan, ∀ c, p.2.copy? = some c →
        Topology.groupOf groups c.sender = Topology.groupOf groups c.target := by
  intro groups t
  obtain ⟨hpaths, hkept, hcut, hrun⟩ := partition_isolates t groups
  have hedge : (t.partition groups).connected 3 2 = false := by
    rw [Topology.connected, hcut 3 2 (by decide)]
    rfl
  refine ⟨⟨fun h => absurd (hpaths 1 3 h) (by decide), hkept 2 1 (by decide), hedge⟩, ?_⟩
  have hlaid : Chronicle (fun _ => True) _ _ := (Chronicle.start 42 hashWord).turn
    (.deed (.arrange (Topology.ofPairs [(1, 2), (1, 3), (2, 3)])) trivial)
  have hasked := hlaid.turn (.deed (.plan .zero (.action (.partition [[1, 2], [3]]))) trivial)
  have hset := hasked.turn (.deed (.equip { plan := ⟨1, 5, 1, 5⟩ }) trivial)
  have hparted := hset.turn (.event (rfl : World.next? ⟨105⟩ _ = some (_, _)))
  have hadded := hparted.turn (.deed (.add 1) trivial)
  have hnoisy := hadded.turn (.event (rfl : World.next? ⟨105⟩ _ = some (_, _)))
  have hneighbor := hnoisy.turn (.event (rfl : World.next? ⟨105⟩ _ = some (_, _)))
  have hlater (e d : Scheduled) (u v w : World) {i j : NodeId} (he : e.event = .tick i)
      (hd : d.event = .tick j) : ∀ m ∈ [(u, Turn.event e), (v, .event d), (w, .deed (.add 1))],
        ¬ m.2.Rejoins := by
    simp [Turn.Rejoins, he, hd]
  obtain ⟨plan, hplan, hwithin⟩ := hrun _ _ [_, _, _] _ _ _ _ _ hneighbor rfl
    (hlater _ _ _ _ _ rfl rfl) (.event (rfl : World.next? ⟨105⟩ _ = some (_, _)))
  refine ⟨_, [_, _, _], _, _, _, _, _, hneighbor, rfl, hlater _ _ _ _ _ rfl rfl,
    .event (rfl : World.next? ⟨105⟩ _ = some (_, _)), rfl, plan, hplan, fun p hp => ?_⟩
  exact (hwithin p hp).resolve_left (Option.some_ne_none p).symm

end ClusterMesh.Net
