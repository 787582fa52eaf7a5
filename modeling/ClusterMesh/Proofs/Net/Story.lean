import ClusterMesh.Net.Scenario
import ClusterMesh.Proofs.Net.Course
import ClusterMesh.Proofs.Station.Steps

/-! The states that a simulation goes through. Its user adds nodes, schedules events and
changes what is around the nodes, and runs let the events happen one by one. -/
namespace ClusterMesh
namespace Net

inductive Deed
  | add (id : NodeId)
  | plan (time : Instant) (event : Event)
  | arrange (topology : Topology)
  | equip (template : Settings)
  | watch (interval : Span)
  | look
  | operate (id : NodeId) (op : Station.Op)
  | replace (id : NodeId) (r : Resident) (h : r.station.Reachable)
  | takeFrames (id : NodeId)
  | takeTraces (id : NodeId)
  | takeNotices (id : NodeId)

/-- The user leaves the nodes to themselves: frames come from nodes only, and all that is
scheduled are actions. -/
def Deed.Scripted : Deed → Prop
  | .add _ | .arrange _ | .equip _ | .watch _ | .look | .plan _ (.action _) => True
  | _ => False

namespace World

def undergo (w : World) : Deed → World
  | .add id => (w.add id).toOption.getD w
  | .plan time event => w.schedule time event
  | .arrange topology => { w with topology }
  | .equip template => { w with template }
  | .watch interval => w.withInterval interval
  | .look => w.takeSnapshot
  | .operate id op => w.modify id (·.act op)
  | .replace id r _ => w.modify id fun _ => r
  | .takeFrames id => w.modify id (·.takeFrames.2)
  | .takeTraces id => w.modify id (·.takeTraces.2)
  | .takeNotices id => w.modify id (·.takeNotices.2)

theorem undergo_add_of_ok {w v : World} {id : NodeId} (h : w.add id = .ok v) :
    w.undergo (.add id) = v := by
  rw [undergo, h]
  rfl

theorem undergo_add_of_error {w : World} {id : NodeId} {e : SettingsError}
    (h : w.add id = .error e) : w.undergo (.add id) = w := by
  rw [undergo, h]
  rfl

inductive Moves (allowed : Deed → Prop) (w : World) : World → Prop
  | deed (d : Deed) (h : allowed d) : Moves allowed w (w.undergo d)
  | event {limit : Instant} {e : Scheduled} {v : World} (h : w.next? limit = some (e, v)) :
      Moves allowed w v
  | rest {limit : Instant} (h : w.next? limit = none) : Moves allowed w (w.settle limit)

end World

/-- The states of a simulation from its start on, the latest one first. -/
inductive Story (allowed : Deed → Prop) : List World → Prop
  | start (seed : UInt64) (hash : Hash) : Story allowed [World.ofSeed seed hash]
  | move {w v : World} {past : List World} (h : Story allowed (w :: past))
      (hm : w.Moves allowed v) : Story allowed (v :: w :: past)

def World.Reachable (w : World) : Prop := ∃ past, Story (fun _ => True) (w :: past)

def World.Told (allowed : Deed → Prop) (w : World) : Prop := ∃ past, Story allowed (w :: past)

namespace World

theorem told_ofSeed {allowed : Deed → Prop} (seed : UInt64) (hash : Hash) :
    (ofSeed seed hash).Told allowed :=
  ⟨[], .start seed hash⟩

theorem Told.undergo {allowed : Deed → Prop} {w : World} (h : w.Told allowed) (d : Deed)
    (hd : allowed d) : (w.undergo d).Told allowed := by
  obtain ⟨past, hpast⟩ := h
  exact ⟨w :: past, hpast.move (.deed d hd)⟩

theorem reachable_ofSeed (seed : UInt64) (hash : Hash) : (World.ofSeed seed hash).Reachable :=
  told_ofSeed seed hash

theorem Reachable.undergo {w : World} (h : w.Reachable) (d : Deed) : (w.undergo d).Reachable :=
  Told.undergo h d trivial

theorem Reachable.settle {w : World} (h : w.Reachable) {limit : Instant}
    (hr : w.next? limit = none) : (w.settle limit).Reachable := by
  obtain ⟨past, hpast⟩ := h
  exact ⟨w :: past, hpast.move (.rest hr)⟩

end World

/-! ## Runs and scenarios as parts of stories -/

section story
variable {allowed : Deed → Prop} {limit : Instant}

/-- What holds of every network at its start and is kept by all moves holds throughout. -/
theorem Story.keeps {P : World → Prop} {ws : List World} (h : Story allowed ws)
    (hstart : ∀ seed hash, P (World.ofSeed seed hash))
    (hmoves : ∀ {w v : World}, P w → w.Moves allowed v → P v) : ∀ w ∈ ws, P w := by
  induction h with
  | start seed hash =>
    intro w hw
    rw [List.mem_singleton.1 hw]
    exact hstart seed hash
  | move h hm ih =>
    intro u hu
    obtain rfl | hu := List.mem_cons.1 hu
    · exact hmoves (ih _ List.mem_cons_self) hm
    · exact ih u hu

theorem Story.passes {w v : World} {past : List World} (h : Story allowed (w :: past))
    {es : List Scheduled} (hp : World.Passes limit w es v) :
    ∃ between, Story allowed (v :: (between ++ past)) := by
  induction es generalizing w past with
  | nil =>
    rw [hp]
    exact ⟨[], h⟩
  | cons e es ih =>
    obtain ⟨u, hu, hv⟩ := hp
    obtain ⟨between, hb⟩ := ih (h.move (.event hu)) hv
    exact ⟨between ++ [w], by simpa using hb⟩

theorem World.Told.goOn {w : World} (h : w.Told allowed) (limit : Instant) (n : Nat) :
    (w.goOn limit n).Told allowed := by
  obtain ⟨past, hpast⟩ := h
  obtain ⟨es, hes⟩ := World.passes_goOn limit n w
  obtain ⟨between, hb⟩ := hpast.passes hes
  exact ⟨between ++ past, hb⟩

/-- Each run goes through states of the story. -/
theorem Story.runUntil {w v : World} {o : Outcome} {past : List World}
    (h : Story allowed (w :: past)) (hr : w.runUntil limit = some (o, v)) :
    ∃ between, Story allowed (v :: (between ++ past)) := by
  obtain ⟨es, u, hp, hn, rfl, -⟩ := World.runUntil_eq_some_iff.1 hr
  obtain ⟨between, hb⟩ := h.passes hp
  exact ⟨u :: between, hb.move (.rest hn)⟩

theorem World.Told.adds (ha : ∀ id, allowed (.add id)) {w v : World} (h : w.Told allowed)
    {ids : List NodeId} (hv : ids.foldlM World.add w = .ok v) : v.Told allowed := by
  induction ids generalizing w with
  | nil =>
    cases hv
    exact h
  | cons id ids ih =>
    rw [List.foldlM_cons] at hv
    cases hu : w.add id with
    | error e =>
      rw [hu] at hv
      cases hv
    | ok u =>
      rw [hu] at hv
      exact ih (World.undergo_add_of_ok hu ▸ h.undergo _ (ha id)) hv

theorem World.Told.plans (ha : ∀ time a, allowed (.plan time (.action a))) {w : World}
    (h : w.Told allowed) (actions : List (Instant × Action)) :
    (actions.foldl (fun w a => w.schedule a.1 (.action a.2)) w).Told allowed := by
  induction actions generalizing w with
  | nil => exact h
  | cons a actions ih => exact ih (h.undergo _ (ha a.1 a.2))

/-- A scenario begins a story with additions, surroundings and actions alone, and lays out its own
topology. -/
theorem told_build_of {s : Scenario} {w : World} (h : s.build = .ok w)
    (ha : ∀ d : Deed, d.Scripted → (∀ t, d = .arrange t → t = s.topology) → allowed d) :
    w.Told allowed := by
  have hstart : (World.ofSeed s.seed s.hash).Told allowed := World.told_ofSeed s.seed s.hash
  have harranged := hstart.undergo _ (ha (.arrange s.topology) trivial fun _ ht => by cases ht; rfl)
  have hbase := harranged.undergo _ (ha (.equip s.settings) trivial nofun)
  have hfinish {v u : World} (hv : v.Told allowed) (hu : s.names.foldlM World.add v = .ok u) :
      (s.actions.foldl (fun w a => w.schedule a.1 (.action a.2)) u).Told allowed :=
    (hv.adds (fun id => ha (.add id) trivial nofun) hu).plans
      (fun time a => ha (.plan time (.action a)) trivial nofun) s.actions
  unfold Scenario.build at h
  dsimp only at h
  split at h
  · cases h
  · next u hu =>
    cases h
    cases hi : s.interval? with
    | none =>
      rw [hi] at hu
      exact hfinish hbase hu
    | some interval =>
      rw [hi] at hu
      exact hfinish (hbase.undergo _ (ha (.watch interval) trivial nofun)) hu

theorem told_build {s : Scenario} {w : World} (h : s.build = .ok w) : w.Told Deed.Scripted :=
  told_build_of h fun _ hd _ => hd

end story

end Net

/-! ## Stations in a simulation -/

structure Station.Equipped (s : Station) : Prop where
  inStep : s.clockwork.InStep
  valid : s.settings.Valid

namespace Station

theorem equipped_start {settings : Settings} {receivers : Receivers} {s : Station}
    (h : Station.start settings receivers = .ok s) : s.Equipped := by
  obtain ⟨hv, rfl⟩ := start_eq h
  exact ⟨inStep_fresh _ _, hv⟩

theorem Equipped.step {s : Station} (h : s.Equipped) (op : Op) : (s.step op).Equipped :=
  ⟨inStep_step h.inStep op, settings_step h.inStep op ▸ h.valid⟩

theorem Reachable.equipped {s : Station} (h : s.Reachable) : s.Equipped := by
  induction h with
  | start hs => exact equipped_start hs
  | step _ op ih => exact ih.step op

end Station

namespace Net

/-- A node that is started has a station that was started under its name. -/
theorem Resident.start_eq {settings : Settings} {seed : UInt64} {joined : Instant} {hash : Hash}
    {r : Resident} (h : Resident.start settings seed joined hash = .ok r) :
    ∃ s : Settings, s.id = settings.id ∧ Station.start s { measures := false } = .ok r.station := by
  unfold Resident.start at h
  dsimp only at h
  cases hs : Station.start _ { measures := false } with
  | error e =>
    rw [hs] at h
    cases h
  | ok station =>
    rw [hs] at h
    cases h
    refine ⟨_, ?_, hs⟩
    rfl

namespace World

/-- A node that is added starts afresh, at its place if it has one, and nothing else changes
but that its first slot is planned. -/
theorem add_eq {w v : World} {id : NodeId} (h : w.add id = .ok v) :
    ∃ r s : Resident, Resident.start { w.template with id } w.seed w.now w.hash = .ok r ∧
      (s = r ∨ ∃ p, s = r.act (.locate p)) ∧
      v = { w with residents := w.residents.insert id s }.schedule w.now (.tick id) := by
  unfold add at h
  split at h
  · cases h
  · next r hr =>
    cases h
    refine ⟨r, _, hr, ?_, rfl⟩
    split
    · exact .inr ⟨_, rfl⟩
    · exact .inl rfl

def Furnished (w : World) : Prop := ∀ id r, w.residents.get? id = some r → r.station.Equipped

theorem furnished_ofSeed (seed : UInt64) (hash : Hash) : (ofSeed seed hash).Furnished := by
  intro id r hr
  cases hr

variable {w : World}

theorem Furnished.insert (h : w.Furnished) {r : Resident} (hr : r.station.Equipped)
    {id id' : NodeId} {s : Resident} (hs : (w.residents.insert id r).get? id' = some s) :
    s.station.Equipped := by
  rw [Table.get?_insert] at hs
  split at hs
  · cases hs
    exact hr
  · exact h id' s hs

theorem Furnished.modify (h : w.Furnished) {f : Resident → Resident}
    (hf : ∀ r : Resident, r.station.Equipped → (f r).station.Equipped) {id id' : NodeId}
    {s : Resident} (hs : (w.residents.modify id f).get? id' = some s) : s.station.Equipped := by
  rw [Table.get?_modify] at hs
  split at hs
  · obtain ⟨r, hr, rfl⟩ := Option.map_eq_some_iff.1 hs
    exact hf r (h id' r hr)
  · exact h id' s hs

theorem Furnished.undergo (h : w.Furnished) (d : Deed) : (w.undergo d).Furnished := by
  cases d with
  | add id =>
    cases hv : w.add id with
    | error e =>
      rw [undergo_add_of_error hv]
      exact h
    | ok v =>
      rw [undergo_add_of_ok hv]
      obtain ⟨r, s, hr, hs, rfl⟩ := add_eq hv
      obtain ⟨c, -, hc⟩ := Resident.start_eq hr
      have hstart := Station.equipped_start hc
      have hplaced : s.station.Equipped := by
        obtain rfl | ⟨p, rfl⟩ := hs
        · exact hstart
        · exact hstart.step (.locate p)
      exact fun id' s' hs' => h.insert hplaced hs'
  | operate id op => exact fun id' s hs => h.modify (fun r hr => hr.step op) hs
  | replace id r hr => exact fun id' s hs => h.modify (fun _ _ => hr.equipped) hs
  | takeFrames id =>
    exact fun id' s hs => h.modify (f := (·.takeFrames.2)) (fun r hr => ⟨hr.inStep, hr.valid⟩) hs
  | takeTraces id =>
    exact fun id' s hs => h.modify (f := (·.takeTraces.2)) (fun r hr => ⟨hr.inStep, hr.valid⟩) hs
  | takeNotices id =>
    exact fun id' s hs => h.modify (f := (·.takeNotices.2)) (fun r hr => ⟨hr.inStep, hr.valid⟩) hs
  | plan | arrange | equip | watch | look => exact h

theorem Effect.furnished {e : Event} {rs : Table NodeId Resident} {plan : List (Instant × Event)}
    (he : w.Effect e rs plan) (h : w.Furnished) :
    ∀ id r, rs.get? id = some r → r.station.Equipped := by
  have hact {r : Resident} (hr : r.station.Equipped) (op : Station.Op) :
      (r.act op).silent.station.Equipped :=
    ⟨(hr.step op).inStep, (hr.step op).valid⟩
  intro id' s hs
  cases he with
  | missed | vacant | arranged => exact h id' s hs
  | heard hr hs' =>
    subst hs'
    exact h.insert (hact (h _ _ hr) _) hs
  | ticked hr hs' =>
    subst hs'
    exact h.insert (hact (h _ _ hr) _) hs
  | powered => exact h.modify (fun r hr => hr.step _) hs

theorem Furnished.happen (h : w.Furnished) (e : Scheduled) : (w.happen e).Furnished := by
  obtain ⟨plan, hp⟩ := happens_happen w e
  exact hp.effect.furnished h

theorem Furnished.next {limit : Instant} {v : World} {e : Scheduled} (h : w.Furnished)
    (hv : w.next? limit = some (e, v)) : v.Furnished := by
  obtain ⟨agenda, -, rfl⟩ := next?_eq_some_iff.1 hv
  exact Furnished.happen (w := { w with agenda }) h e

theorem Furnished.moves {allowed : Deed → Prop} {v : World} (h : w.Furnished)
    (hm : w.Moves allowed v) : v.Furnished := by
  cases hm with
  | deed d => exact h.undergo d
  | event hv => exact h.next hv
  | rest => exact h

end World

theorem Story.furnished {allowed : Deed → Prop} {ws : List World} (h : Story allowed ws) :
    ∀ w ∈ ws, w.Furnished :=
  h.keeps World.furnished_ofSeed World.Furnished.moves

end Net
end ClusterMesh
