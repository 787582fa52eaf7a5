import ClusterMesh.Net.Run

/-! What one event does to a network: which node acts, what is planned because of it, and how
the clock, the numbers of events and the snapshots go on. -/
namespace ClusterMesh.Net

/-! ## Nodes -/

namespace Resident

def act (r : Resident) (op : Station.Op) : Resident := r.modify (·.step op)

def frames (r : Resident) : List (List UInt8) := r.takeFrames.1

def silent (r : Resident) : Resident := r.takeFrames.2

theorem mem_frames {r : Resident} {bytes : List UInt8} :
    bytes ∈ r.frames ↔ ∃ p ∈ r.station.outbox.packets, bytes = p.encode := by
  simp only [frames, takeFrames, List.mem_map, Array.mem_toList_iff, eq_comm]

end Resident

def Action.power? : Action → Option (NodeId × Station.Op)
  | .powerDown id => some (id, .disable)
  | .powerUp id => some (id, .enable)
  | _ => none

/-! ## Plans -/

def numbered (n : Nat) : List (Instant × Event) → List Scheduled
  | [] => []
  | p :: plan => ⟨p.1, .ofNat n, p.2⟩ :: numbered (n + 1) plan

theorem numbered_append (n : Nat) (p q : List (Instant × Event)) :
    numbered n (p ++ q) = numbered n p ++ numbered (n + p.length) q := by
  induction p generalizing n with
  | nil => rfl
  | cons a p ih =>
    rw [List.cons_append, numbered, numbered, ih, List.cons_append, List.length_cons,
      Nat.add_right_comm, Nat.add_assoc]

/-- A plan for nothing but frames of one node, none of which arrives before it is sent. -/
def Airborne (now : Instant) (sender : NodeId) (frames : List (List UInt8))
    (plan : List (Instant × Event)) : Prop :=
  ∀ p ∈ plan, now ≤ p.1 ∧
    ∃ target bytes rssi, bytes ∈ frames ∧ p.2 = .delivery target sender bytes rssi

theorem le_after (t : Instant) (d : Span) : t ≤ t.after d := by
  have ht := t.ms.toNat_lt
  rw [Instant.le_iff_toNat, Instant.toNat_after]
  omega

def Agenda.insertAll (a : Agenda) (es : List Scheduled) : Agenda := es.foldl insert a

namespace World

def planAll (w : World) (plan : List (Instant × Event)) : World :=
  { w with
    agenda := w.agenda.insertAll (numbered w.planned plan)
    planned := w.planned + plan.length }

theorem planAll_planAll (w : World) (p q : List (Instant × Event)) :
    (w.planAll p).planAll q = w.planAll (p ++ q) := by
  unfold planAll
  rw [numbered_append, List.length_append, Nat.add_assoc]
  simp only [Agenda.insertAll, List.foldl_append]

theorem schedule_eq (w : World) (time : Instant) (event : Event) :
    w.schedule time event = w.planAll [(time, event)] := rfl

theorem foldl_schedule {α : Type} (time : Instant → α → Instant) (event : α → Event)
    (as : List α) (w : World) :
    as.foldl (fun w a => w.schedule (time w.now a) (event a)) w =
      w.planAll (as.map fun a => (time w.now a, event a)) := by
  induction as generalizing w with
  | nil => rfl
  | cons a as ih =>
    rw [List.foldl_cons, ih, schedule_eq, planAll_planAll, List.map_cons]
    rfl

/-! ## Frames on the air -/

def Aired (w v : World) : Prop :=
  ∃ lossState sent lost, v = { w with lossState, history := { w.history with sent, lost } }

theorem Aired.refl (w : World) : w.Aired w := ⟨_, _, _, rfl⟩

theorem Aired.trans {u v w : World} (h : u.Aired v) (k : v.Aired w) : u.Aired w := by
  obtain ⟨_, _, _, rfl⟩ := h
  obtain ⟨_, _, _, rfl⟩ := k
  exact ⟨_, _, _, rfl⟩

theorem Aired.planAll {w v : World} (h : w.Aired v) (plan : List (Instant × Event)) :
    (w.planAll plan).Aired (v.planAll plan) := by
  obtain ⟨_, _, _, rfl⟩ := h
  exact ⟨_, _, _, rfl⟩

theorem Aired.now_eq {w v : World} (h : w.Aired v) : v.now = w.now := by
  obtain ⟨_, _, _, rfl⟩ := h
  rfl

theorem Aired.topology_eq {w v : World} (h : w.Aired v) : v.topology = w.topology := by
  obtain ⟨_, _, _, rfl⟩ := h
  rfl

theorem aired_survives (w : World) (l : Link) : w.Aired (w.survives l).2 := by
  unfold survives draw
  split
  · dsimp only
    split <;> exact ⟨_, _, _, rfl⟩
  · exact .refl w

theorem aired_reached (w : World) (sender : NodeId) (ns : List NodeId) :
    w.Aired (w.reached sender ns).2 := by
  induction ns generalizing w with
  | nil => exact .refl w
  | cons n ns ih =>
    unfold reached
    split
    · exact ih w
    · next l _ => exact (aired_survives w l).trans (ih _)

structure Airs (sender : NodeId) (frames : List (List UInt8)) (w v : World)
    (plan : List (Instant × Event)) : Prop where
  airborne : Airborne w.now sender frames plan
  aired : (w.planAll plan).Aired v

def sending (w : World) : World :=
  { w with history := { w.history with sent := w.history.sent.succSat } }

def copies (w : World) (sender : NodeId) : List (NodeId × Link) × World :=
  w.sending.reached sender (w.topology.neighbors sender)

def arrivals (now : Instant) (sender : NodeId) (bytes : List UInt8)
    (copies : List (NodeId × Link)) : List (Instant × Event) :=
  copies.map fun c => (now.after c.2.delay, .delivery c.1 sender bytes c.2.rssi)

theorem broadcast_eq (w : World) (sender : NodeId) (bytes : List UInt8) :
    w.broadcast sender bytes = (w.copies sender).2.planAll
      (arrivals (w.copies sender).2.now sender bytes (w.copies sender).1) :=
  foldl_schedule (fun now (c : NodeId × Link) => now.after c.2.delay)
    (fun c => .delivery c.1 sender bytes c.2.rssi) (w.copies sender).1 (w.copies sender).2

theorem airs_broadcast (w : World) (sender : NodeId) (bytes : List UInt8) :
    ∃ plan, Airs sender [bytes] w (w.broadcast sender bytes) plan := by
  have hw : w.Aired (w.copies sender).2 :=
    .trans ⟨_, _, _, rfl⟩ (aired_reached w.sending sender _)
  rw [broadcast_eq]
  refine ⟨_, ?_, hw.planAll _⟩
  intro p hp
  obtain ⟨c, -, rfl⟩ := List.mem_map.1 hp
  rw [hw.now_eq]
  exact ⟨le_after _ _, _, _, _, List.mem_singleton_self _, rfl⟩

theorem airs_broadcasts (w : World) (sender : NodeId) (frames : List (List UInt8)) :
    ∃ plan, Airs sender frames w (frames.foldl (fun w bytes => w.broadcast sender bytes) w)
      plan := by
  induction frames generalizing w with
  | nil => exact ⟨[], nofun, .refl w⟩
  | cons bytes frames ih =>
    obtain ⟨p, hp⟩ := airs_broadcast w sender bytes
    obtain ⟨q, hq⟩ := ih (w.broadcast sender bytes)
    refine ⟨p ++ q, fun a ha => ?_, ?_⟩
    · obtain ha | ha := List.mem_append.1 ha
      · obtain ⟨hn, target, b, rssi, hb, he⟩ := hp.airborne a ha
        exact ⟨hn, target, b, rssi, List.mem_cons.2 (.inl (List.mem_singleton.1 hb)), he⟩
      · obtain ⟨hn, target, b, rssi, hb, he⟩ := hq.airborne a ha
        exact ⟨hp.aired.now_eq ▸ hn, target, b, rssi, List.mem_cons_of_mem _ hb, he⟩
    · rw [← planAll_planAll]
      exact (hp.aired.planAll q).trans hq.aired

/-- Nodes are left with nothing to send, and what waited is on the air. -/
theorem airs_collect {w : World} {id : NodeId} {r : Resident} (h : w.residents.get? id = some r) :
    ∃ plan, Airs id r.frames { w with residents := w.residents.insert id r.silent }
      (w.collect id) plan := by
  unfold collect
  rw [h]
  exact airs_broadcasts _ id r.frames

/-! ## Events -/

/-- What an event makes of the nodes, and what it plans. -/
inductive Effect (w : World) : Event → Table NodeId Resident → List (Instant × Event) → Prop
  | missed {target sender : NodeId} {bytes : List UInt8} {rssi : Int8}
      (h : w.residents.get? target = none) :
      Effect w (.delivery target sender bytes rssi) w.residents []
  | heard {target sender : NodeId} {bytes : List UInt8} {rssi : Int8} {r s : Resident}
      {plan : List (Instant × Event)} (h : w.residents.get? target = some r)
      (hs : s = r.act (.receiveBytes bytes rssi w.now))
      (hp : Airborne w.now target s.frames plan) :
      Effect w (.delivery target sender bytes rssi) (w.residents.insert target s.silent) plan
  | vacant {id : NodeId} (h : w.residents.get? id = none) : Effect w (.tick id) w.residents []
  | ticked {id : NodeId} {r s : Resident} {plan : List (Instant × Event)}
      (h : w.residents.get? id = some r) (hs : s = r.act (.tick w.now))
      (hp : Airborne w.now id s.frames plan) :
      Effect w (.tick id) (w.residents.insert id s.silent)
        (plan ++ [(w.now.after s.station.slotSpan, .tick id)])
  | powered {a : Action} {id : NodeId} {op : Station.Op} (h : a.power? = some (id, op)) :
      Effect w (.action a) (w.residents.modify id (·.act op)) []
  | arranged {a : Action} (h : a.power? = none) : Effect w (.action a) w.residents []

theorem Effect.le_of_mem {w : World} {e : Event} {rs : Table NodeId Resident}
    {plan : List (Instant × Event)} (h : w.Effect e rs plan) {p : Instant × Event}
    (hp : p ∈ plan) : w.now ≤ p.1 := by
  cases h with
  | missed | vacant | powered | arranged => cases hp
  | heard _ _ ha => exact (ha p hp).1
  | ticked _ _ ha =>
    obtain hp | hp := List.mem_append.1 hp
    · exact (ha p hp).1
    · rw [List.mem_singleton.1 hp]
      exact le_after _ _

structure Happens (w : World) (e : Event) (v : World) (plan : List (Instant × Event)) : Prop where
  effect : w.Effect e v.residents plan
  agenda : v.agenda = w.agenda.insertAll (numbered w.planned plan)
  planned : v.planned = w.planned + plan.length
  now : v.now = w.now
  snapshots : ∃ n, v.history.snapshots = w.history.snapshots ++ Array.replicate n v.snapshot

/-- What is put on the air by a node that acts belongs to what happened. -/
theorem Happens.of_airs {w t v : World} {e : Event} {id : NodeId} {frames : List (List UInt8)}
    {plan : List (Instant × Event)} (h : Airs id frames t v plan)
    (he : w.Effect e t.residents plan) (ha : t.agenda = w.agenda) (hp : t.planned = w.planned)
    (hn : t.now = w.now) (hs : t.history.snapshots = w.history.snapshots) :
    w.Happens e v plan := by
  obtain ⟨_, _, _, rfl⟩ := h.aired
  refine ⟨he, ?_, ?_, hn, 0, ?_⟩
  · rw [← ha, ← hp]
    rfl
  · rw [← hp]
    rfl
  · rw [Array.replicate_zero, Array.append_empty, ← hs]
    rfl

theorem happens_heard {w : World} {target : NodeId} {r : Resident}
    (h : w.residents.get? target = some r) (sender : NodeId) (bytes : List UInt8) (rssi : Int8)
    {history : History} (hs : history.snapshots = w.history.snapshots) :
    ∃ plan, w.Happens (.delivery target sender bytes rssi)
      ({ w with
        residents := w.residents.insert target (r.act (.receiveBytes bytes rssi w.now))
        history }.collect target) plan := by
  generalize hr : r.act (.receiveBytes bytes rssi w.now) = s
  let t : World := { w with residents := w.residents.insert target s, history }
  have ht : t.residents.get? target = some s := by rw [Table.get?_insert, if_pos rfl]
  obtain ⟨plan, hp⟩ := airs_collect ht
  refine ⟨plan, .of_airs hp ?_ rfl rfl rfl hs⟩
  dsimp only [t]
  rw [Table.insert_insert]
  exact .heard h hr.symm hp.airborne

theorem happens_deliver (w : World) (target sender : NodeId) (bytes : List UInt8) (rssi : Int8) :
    ∃ plan, w.Happens (.delivery target sender bytes rssi) (w.deliver target bytes rssi)
      plan := by
  unfold deliver
  split
  · next h => exact ⟨[], .missed h, rfl, rfl, rfl, 0, by simp⟩
  · next h => exact happens_heard h sender bytes rssi (by dsimp only; split <;> rfl)

theorem happens_fireTick (w : World) (id : NodeId) :
    ∃ plan, w.Happens (.tick id) (w.fireTick id) plan := by
  unfold fireTick
  split
  · next h => exact ⟨[], .vacant h, rfl, rfl, rfl, 0, by simp⟩
  · next r h =>
    let s := r.act (.tick w.now)
    let t : World := { w with residents := w.residents.insert id s }
    have ht : t.residents.get? id = some s := by rw [Table.get?_insert, if_pos rfl]
    obtain ⟨plan, hp⟩ := airs_collect ht
    have heq : ({ t with residents := t.residents.insert id s.silent } : World) =
        { w with residents := w.residents.insert id s.silent } := by
      dsimp only [t]
      rw [Table.insert_insert]
    rw [heq] at hp
    have hticked := Effect.ticked h rfl hp.airborne
    obtain ⟨lossState, sent, lost, hv⟩ := hp.aired
    refine ⟨plan ++ [(w.now.after s.station.slotSpan, .tick id)], ?_⟩
    change w.Happens _ ((t.collect id).schedule _ _) _
    rw [hv, schedule_eq]
    refine ⟨hticked, ?_, ?_, rfl, 0, by simp [planAll]⟩
    · rw [numbered_append, Agenda.insertAll, List.foldl_append]
      rfl
    · rw [List.length_append, ← Nat.add_assoc]
      rfl

/-- A snapshot, where one is due, shows what has happened. -/
theorem Happens.snapshotIfDue {w v : World} {e : Event} {plan : List (Instant × Event)}
    (h : w.Happens e v plan) : w.Happens e v.snapshotIfDue plan := by
  unfold World.snapshotIfDue
  split
  · exact h
  · split
    · obtain ⟨n, hn⟩ := h.snapshots
      refine ⟨h.effect, h.agenda, h.planned, h.now, n + 1, ?_⟩
      change v.history.snapshots.push v.snapshot = _ ++ Array.replicate (n + 1) v.snapshot
      rw [Array.replicate_succ, Array.append_push, hn]
    · exact h

theorem happens_perform (w : World) (a : Action) :
    w.Happens (.action a) (w.perform a) [] := by
  cases a with
  | powerDown id =>
    have he : w.Effect (.action (.powerDown id)) (w.residents.modify id (·.act .disable)) [] :=
      .powered rfl
    exact ⟨he, rfl, rfl, rfl, 0, by simp [perform, modify]⟩
  | powerUp id =>
    have he : w.Effect (.action (.powerUp id)) (w.residents.modify id (·.act .enable)) [] :=
      .powered rfl
    exact ⟨he, rfl, rfl, rfl, 0, by simp [perform, modify]⟩
  | snapshot => exact ⟨.arranged rfl, rfl, rfl, rfl, 1, rfl⟩
  | _ => exact ⟨.arranged rfl, rfl, rfl, rfl, 0, by simp [perform]⟩

theorem happens_happen (w : World) (e : Scheduled) :
    ∃ plan, (w.advanceTo e.time).Happens e.event (w.happen e) plan := by
  have hhandle : ∃ plan, (w.advanceTo e.time).Happens e.event
      ((w.advanceTo e.time).handle e.event) plan := by
    cases e.event with
    | delivery target sender bytes rssi => exact happens_deliver ..
    | tick id => exact happens_fireTick ..
    | action a => exact ⟨[], happens_perform ..⟩
  obtain ⟨plan, h⟩ := hhandle
  exact ⟨plan, h.snapshotIfDue⟩

end World
end ClusterMesh.Net
