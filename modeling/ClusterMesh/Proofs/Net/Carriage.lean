import ClusterMesh.Proofs.Net.Chronicle
import ClusterMesh.Proofs.Net.Ending
import ClusterMesh.Proofs.Net.Topology
import ClusterMesh.Proofs.Wire.Frame

/-! What becomes of the frames that nodes send. A frame goes out in one copy for each active link
of its sender, and a copy is lost on its link, is still on its way, has been heard, or has come to
where no node is. -/
namespace ClusterMesh

def Station.emits (s : Station) (op : Op) : List Packet :=
  (s.step op).outbox.packets.toList.drop s.outbox.packets.size

theorem Station.emits_of_ne_tick (s : Station) {op : Op} (h : ∀ now, op ≠ .tick now) :
    s.emits op = [] := by
  simp [emits, packets_step h]

namespace Net

/-! ## Counts that stay in their range -/

/-- The second count is higher than the first one by a number, as far as its range goes. -/
def Rises (a : UInt64) (n : Nat) (b : UInt64) : Prop :=
  b.toNat = min (a.toNat + n) 0xffffffffffffffff

theorem rises_refl (a : UInt64) : Rises a 0 a := by
  have h := a.toNat_lt
  simp only [Rises]
  omega

theorem rises_succSat (a : UInt64) : Rises a 1 a.succSat := by
  simp [Rises, UInt64.toNat_succSat]

theorem Rises.trans {a b c : UInt64} {m n : Nat} (h : Rises a m b) (k : Rises b n c) :
    Rises a (m + n) c := by
  simp only [Rises] at *
  omega

/-- A count that started from nothing and is below its limit tells the number. -/
theorem Rises.toNat_eq {c : UInt64} {n : Nat} (h : Rises 0 n c) (hc : c < 0xffffffffffffffff) :
    c.toNat = n := by
  have hlt : c.toNat < 0xffffffffffffffff := UInt64.lt_iff_toNat_lt.1 hc
  simp only [Rises, UInt64.toNat_zero] at h
  omega

/-! ## Copies of frames -/

structure Copy where
  sender : NodeId
  target : NodeId
  bytes : List UInt8
  deriving DecidableEq

def Event.copy? : Event → Option Copy
  | .delivery target sender bytes _ => some ⟨sender, target, bytes⟩
  | _ => none

def Event.operation? (now : Instant) : Event → Option (NodeId × Station.Op)
  | .delivery target _ bytes rssi => some (target, .receiveBytes bytes rssi now)
  | .tick id => some (id, .tick now)
  | .action a => a.power?

def flights (plan : List (Instant × Event)) : List Copy := plan.filterMap fun p => p.2.copy?

theorem flights_append (p q : List (Instant × Event)) :
    flights (p ++ q) = flights p ++ flights q := List.filterMap_append

def brought (es : List Scheduled) : List Copy := es.filterMap fun e => e.event.copy?

theorem brought_append (es fs : List Scheduled) : brought (es ++ fs) = brought es ++ brought fs :=
  List.filterMap_append

theorem brought_cons (e : Scheduled) (es : List Scheduled) :
    brought (e :: es) = e.event.copy?.toList ++ brought es := by
  simp only [brought, List.filterMap_cons]
  cases e.event.copy? <;> rfl

theorem brought_numbered (n : Nat) (plan : List (Instant × Event)) :
    brought (numbered n plan) = flights plan := by
  induction plan generalizing n with
  | nil => rfl
  | cons p plan ih =>
    rw [numbered, brought_cons, ih, flights, flights, List.filterMap_cons]
    cases p.2.copy? <;> rfl

theorem perm_brought {es fs : List Scheduled} (h : es.Perm fs) : (brought es).Perm (brought fs) :=
  h.filterMap _

namespace World
variable {w v : World}

def inFlight (w : World) : List Copy := brought w.agenda.entries

def emissions (w : World) (e : Event) : List (NodeId × Packet) :=
  match e.operation? w.now with
  | none => []
  | some (id, op) =>
    match w.residents.get? id with
    | none => []
    | some r => (r.station.emits op).map fun p => (id, p)

def copiesOf (w : World) (m : NodeId × Packet) : List Copy :=
  (w.topology.neighbors m.1).map fun n => ⟨m.1, n, m.2.encode⟩

def landing? (w : World) (e : Event) : Option Copy :=
  e.copy?.filter fun c => w.residents.contains c.target

def stray? (w : World) (e : Event) : Option Copy :=
  e.copy?.filter fun c => !w.residents.contains c.target

def Quiet (w : World) : Prop :=
  ∀ id r, w.residents.get? id = some r → r.station.outbox.packets = #[]

theorem length_copiesOf (w : World) (m : NodeId × Packet) :
    (w.copiesOf m).length = w.topology.degree m.1 := by
  rw [copiesOf, List.length_map, Topology.length_neighbors]

theorem emissions_of_none {e : Event} {id : NodeId} {op : Station.Op}
    (ho : e.operation? w.now = some (id, op)) (h : w.residents.get? id = none) :
    w.emissions e = [] := by
  simp only [emissions, ho, h]

theorem emissions_of_some {e : Event} {id : NodeId} {op : Station.Op} {r : Resident}
    (ho : e.operation? w.now = some (id, op)) (h : w.residents.get? id = some r) :
    w.emissions e = (r.station.emits op).map fun p => (id, p) := by
  simp only [emissions, ho, h]

theorem emissions_of_power {a : Action} : w.emissions (.action a) = [] := by
  cases ha : a.power? with
  | none => simp only [emissions, Event.operation?, ha]
  | some m =>
    obtain ⟨id, op⟩ := m
    have ho : (Event.action a).operation? w.now = some (id, op) := ha
    cases h : w.residents.get? id with
    | none => exact emissions_of_none ho h
    | some r =>
      rw [emissions_of_some ho h, r.station.emits_of_ne_tick (Action.ne_tick_of_power? ha)]
      rfl

/-! ## Putting frames on the air -/

structure Carries (w : World) (copies : List Copy) (frames : Nat) (v : World)
    (plan : List (Instant × Event)) : Prop where
  aired : (w.planAll plan).Aired v
  copies : ∃ lost, copies.Perm (lost ++ flights plan) ∧
    Rises w.history.lost lost.length v.history.lost
  sent : Rises w.history.sent frames v.history.sent

theorem carries_refl (w : World) : w.Carries [] 0 w [] :=
  ⟨.refl w, ⟨[], .refl _, rises_refl _⟩, rises_refl _⟩

theorem Carries.trans {u : World} {c d : List Copy} {m n : Nat} {p q : List (Instant × Event)}
    (h : u.Carries c m v p) (k : v.Carries d n w q) : u.Carries (c ++ d) (m + n) w (p ++ q) := by
  obtain ⟨lost, hperm, hlost⟩ := h.copies
  obtain ⟨lost', hperm', hlost'⟩ := k.copies
  refine ⟨?_, ⟨lost ++ lost', ?_, ?_⟩, h.sent.trans k.sent⟩
  · rw [← planAll_planAll]
    exact (h.aired.planAll q).trans k.aired
  · rw [List.perm_iff_count] at *
    intro a
    have ha := hperm a
    have ha' := hperm' a
    simp only [flights_append, List.count_append] at *
    omega
  · rw [List.length_append]
    exact hlost.trans hlost'

theorem Carries.topology_eq {c : List Copy} {m : Nat} {p : List (Instant × Event)}
    (h : w.Carries c m v p) : v.topology = w.topology := by
  obtain ⟨_, _, _, rfl⟩ := h.aired
  rfl

/-- Planning something else than a delivery carries nothing. -/
theorem carries_schedule (w : World) (time : Instant) {e : Event} (he : e.copy? = none) :
    w.Carries [] 0 (w.schedule time e) [(time, e)] :=
  ⟨.refl _, ⟨[], by simp [flights, he], rises_refl _⟩, rises_refl _⟩

theorem survives_counts (w : World) (l : Link) :
    Rises w.history.lost (if (w.survives l).1 then 0 else 1) (w.survives l).2.history.lost ∧
      (w.survives l).2.history.sent = w.history.sent := by
  by_cases hloss : 0.0 < l.loss
  · by_cases hdraw : w.draw.1 < l.loss
    · simp only [survives, if_pos hloss, if_pos hdraw]
      exact ⟨rises_succSat _, rfl⟩
    · simp only [survives, if_pos hloss, if_neg hdraw]
      exact ⟨rises_refl _, rfl⟩
  · simp only [survives, if_neg hloss]
    exact ⟨rises_refl _, trivial⟩

/-- Of those that a node has links with some are reached, and for each other one a copy is
lost. -/
theorem reached_counts (w : World) (sender : NodeId) {ns : List NodeId}
    (h : ∀ n ∈ ns, ∃ l, w.topology.link? sender n = some l) :
    (∃ lost, ns.Perm (lost ++ (w.reached sender ns).1.map Prod.fst) ∧
      Rises w.history.lost lost.length (w.reached sender ns).2.history.lost) ∧
      (w.reached sender ns).2.history.sent = w.history.sent := by
  induction ns generalizing w with
  | nil => exact ⟨⟨[], .refl _, rises_refl _⟩, rfl⟩
  | cons n ns ih =>
    obtain ⟨l, hl⟩ := h n List.mem_cons_self
    obtain ⟨hone, hsent⟩ := survives_counts w l
    have htopology := (aired_survives w l).topology_eq
    obtain ⟨⟨lost, hperm, hlost⟩, hsent'⟩ := ih (w.survives l).2 fun m hm => by
      rw [htopology]
      exact h m (List.mem_cons_of_mem n hm)
    simp only [reached, hl]
    refine ⟨?_, hsent'.trans hsent⟩
    cases hs : (w.survives l).1 with
    | true =>
      rw [hs] at hone
      refine ⟨lost, (hperm.cons n).trans List.perm_middle.symm, ?_⟩
      simpa using hone.trans hlost
    | false =>
      rw [hs] at hone
      refine ⟨n :: lost, hperm.cons n, ?_⟩
      rw [List.length_cons, Nat.add_comm]
      exact hone.trans hlost

theorem flights_arrivals (now : Instant) (sender : NodeId) (bytes : List UInt8)
    (copies : List (NodeId × Link)) :
    flights (arrivals now sender bytes copies) =
      (copies.map Prod.fst).map fun n => ⟨sender, n, bytes⟩ := by
  induction copies with
  | nil => rfl
  | cons c copies ih => simp [flights, arrivals, Event.copy?]

theorem carries_broadcast (hw : w.topology.Canonical) (sender : NodeId) (p : Packet) :
    ∃ plan, w.Carries (w.copiesOf (sender, p)) 1 (w.broadcast sender p.encode) plan := by
  have haired : w.Aired (w.copies sender).2 :=
    .trans ⟨_, _, _, rfl⟩ (aired_reached w.sending sender _)
  obtain ⟨⟨lost, hperm, hlost⟩, hsent⟩ := reached_counts w.sending sender fun n hn =>
    (Topology.link?_of_mem_neighbors hw hn).imp fun _ hl => hl.1
  rw [broadcast_eq]
  refine ⟨_, haired.planAll _, ⟨lost.map fun n => ⟨sender, n, p.encode⟩, ?_, ?_⟩, ?_⟩
  · rw [flights_arrivals, ← List.map_append]
    exact hperm.map _
  · rw [List.length_map]
    exact hlost
  · have hrises : Rises w.history.sent 1 w.sending.history.sent := rises_succSat _
    rw [← hsent] at hrises
    exact hrises

theorem carries_broadcasts (hw : w.topology.Canonical) (sender : NodeId) (ps : List Packet) :
    ∃ plan, w.Carries (ps.flatMap fun p => w.copiesOf (sender, p)) ps.length
      ((ps.map Packet.encode).foldl (fun w bytes => w.broadcast sender bytes) w) plan := by
  induction ps generalizing w with
  | nil => exact ⟨[], carries_refl w⟩
  | cons p ps ih =>
    obtain ⟨first, hfirst⟩ := carries_broadcast hw sender p
    have htopology := hfirst.topology_eq
    obtain ⟨others, hothers⟩ := ih (htopology ▸ hw)
    have hcopies : (w.broadcast sender p.encode).copiesOf = w.copiesOf := by
      funext m
      simp only [copiesOf, htopology]
    rw [hcopies] at hothers
    refine ⟨first ++ others, ?_⟩
    rw [List.flatMap_cons, List.length_cons, Nat.add_comm]
    exact hfirst.trans hothers

/-- All that a node had to send goes on the air. -/
theorem carries_collect (hw : w.topology.Canonical) {id : NodeId} {r : Resident}
    (h : w.residents.get? id = some r) :
    ∃ plan, ({ w with residents := w.residents.insert id r.silent } : World).Carries
      (r.station.outbox.packets.toList.flatMap fun p => w.copiesOf (id, p))
      r.station.outbox.packets.size (w.collect id) plan := by
  simp only [collect, h]
  exact carries_broadcasts (w := { w with residents := w.residents.insert id r.silent }) hw id
    r.station.outbox.packets.toList

/-! ## Events -/

/-- An event that was taken off the agenda happens: what nodes hand over goes on the air, and a
copy that comes to a node is heard. -/
structure Handles (w : World) (e : Event) (v : World) : Prop where
  flights : ∃ plan lost, v.agenda = w.agenda.insertAll (numbered w.planned plan) ∧
    ((w.emissions e).flatMap w.copiesOf).Perm (lost ++ flights plan) ∧
    Rises w.history.lost lost.length v.history.lost
  sent : Rises w.history.sent (w.emissions e).length v.history.sent
  delivered : Rises w.history.delivered (w.landing? e).toList.length v.history.delivered
  undecodable : v.history.undecodable = w.history.undecodable
  canonical : v.topology.Canonical

/-- An event by which nothing goes on the air and nothing is heard. -/
theorem Handles.of_still {e : Event} (hemits : w.emissions e = []) (hlands : w.landing? e = none)
    (hagenda : v.agenda = w.agenda) (hlost : v.history.lost = w.history.lost)
    (hsent : v.history.sent = w.history.sent)
    (hdelivered : v.history.delivered = w.history.delivered)
    (hundecodable : v.history.undecodable = w.history.undecodable)
    (hcanonical : v.topology.Canonical) : w.Handles e v := by
  refine ⟨⟨[], [], hagenda, ?_, ?_⟩, ?_, ?_, hundecodable, hcanonical⟩
  · rw [hemits]
    exact .refl _
  · rw [hlost]
    exact rises_refl _
  · rw [hemits, hsent]
    exact rises_refl _
  · rw [hlands, hdelivered]
    exact rises_refl _

/-- What is put on the air by a node that acts belongs to how the event was handled. -/
theorem Handles.of_carries {t : World} {e : Event} {copies : List Copy} {frames : Nat}
    {plan : List (Instant × Event)} (h : t.Carries copies frames v plan)
    (hcopies : (w.emissions e).flatMap w.copiesOf = copies)
    (hframes : (w.emissions e).length = frames) (hw : w.topology.Canonical)
    (hagenda : t.agenda = w.agenda) (hplanned : t.planned = w.planned)
    (htopology : t.topology = w.topology) (hlost : t.history.lost = w.history.lost)
    (hsent : t.history.sent = w.history.sent)
    (hdelivered : Rises w.history.delivered (w.landing? e).toList.length t.history.delivered)
    (hundecodable : t.history.undecodable = w.history.undecodable) : w.Handles e v := by
  obtain ⟨lost, hperm, hrises⟩ := h.copies
  have hrisesSent := h.sent
  obtain ⟨_, _, _, rfl⟩ := h.aired
  refine ⟨⟨plan, lost, ?_, hcopies ▸ hperm, hlost ▸ hrises⟩, ?_, hdelivered, hundecodable, ?_⟩
  · rw [← hagenda, ← hplanned]
    rfl
  · rw [hframes, ← hsent]
    exact hrisesSent
  · change t.topology.Canonical
    rw [htopology]
    exact hw

theorem handles_deliver (hw : w.topology.Canonical) (hq : w.Quiet) (target sender : NodeId)
    {bytes : List UInt8} (rssi : Int8) {p : Packet} (hp : Packet.ofBytes bytes = .ok p) :
    w.Handles (.delivery target sender bytes rssi) (w.deliver target bytes rssi) := by
  have ho : (Event.delivery target sender bytes rssi).operation? w.now =
      some (target, .receiveBytes bytes rssi w.now) := rfl
  cases hr : w.residents.get? target with
  | none =>
    have hv : w.deliver target bytes rssi = w := by simp only [deliver, hr]
    have hlands : w.landing? (.delivery target sender bytes rssi) = none := by
      simp [landing?, Event.copy?, Table.contains, hr]
    rw [hv]
    exact .of_still (emissions_of_none ho hr) hlands rfl rfl rfl rfl rfl hw
  | some r =>
    have hlands : w.landing? (.delivery target sender bytes rssi) =
        some ⟨sender, target, bytes⟩ := by
      simp [landing?, Event.copy?, Table.contains, hr]
    have hemits : w.emissions (.delivery target sender bytes rssi) = [] := by
      rw [emissions_of_some ho hr, r.station.emits_of_ne_tick Station.Op.receiveBytes_ne_tick]
      rfl
    let s := r.act (.receiveBytes bytes rssi w.now)
    have hsilent : s.station.outbox.packets = #[] :=
      (Station.packets_step Station.Op.receiveBytes_ne_tick).trans (hq target r hr)
    let t : World := { w with
      residents := w.residents.insert target s
      history := { w.history with delivered := w.history.delivered.succSat } }
    have hv : w.deliver target bytes rssi = t.collect target := by
      have hread : (r.station.receiveBytes bytes rssi w.now).1 =
          .ok (r.station.receive p rssi w.now).1 := by
        simp only [Station.receiveBytes, hp]
      simp only [deliver, hr, hread]
      rfl
    have ht : t.residents.get? target = some s := by rw [Table.get?_insert, if_pos rfl]
    obtain ⟨plan, hcarries⟩ := carries_collect (w := t) hw ht
    rw [hsilent] at hcarries
    rw [hv]
    refine .of_carries hcarries ?_ ?_ hw rfl rfl rfl rfl rfl ?_ rfl
    · rw [hemits]
      rfl
    · rw [hemits]
      rfl
    · rw [hlands]
      exact rises_succSat _

theorem handles_fireTick (hw : w.topology.Canonical) (hq : w.Quiet) (id : NodeId) :
    w.Handles (.tick id) (w.fireTick id) := by
  have ho : (Event.tick id).operation? w.now = some (id, .tick w.now) := rfl
  have hlands : w.landing? (.tick id) = none := rfl
  cases hr : w.residents.get? id with
  | none =>
    have hv : w.fireTick id = w := by simp only [fireTick, hr]
    rw [hv]
    exact .of_still (emissions_of_none ho hr) hlands rfl rfl rfl rfl rfl hw
  | some r =>
    let s := r.act (.tick w.now)
    let t : World := { w with residents := w.residents.insert id s }
    have hv : w.fireTick id =
        (t.collect id).schedule (w.now.after s.station.slotSpan) (.tick id) := by
      simp only [fireTick, hr]
      rfl
    have hemits : w.emissions (.tick id) =
        s.station.outbox.packets.toList.map fun p => (id, p) := by
      rw [emissions_of_some ho hr, Station.emits, hq id r hr]
      rfl
    have ht : t.residents.get? id = some s := by rw [Table.get?_insert, if_pos rfl]
    obtain ⟨plan, hcarries⟩ := carries_collect (w := t) hw ht
    have hnext : (Event.tick id).copy? = none := rfl
    rw [hv]
    refine .of_carries (hcarries.trans (carries_schedule _ _ hnext)) ?_ ?_ hw rfl rfl rfl rfl rfl
      ?_ rfl
    · rw [hemits, List.flatMap_map, List.append_nil]
      rfl
    · rw [hemits, List.length_map]
      rfl
    · rw [hlands]
      exact rises_refl _

theorem handles_perform (hw : w.topology.Canonical) (a : Action) :
    w.Handles (.action a) (w.perform a) := by
  have hcanonical : (w.perform a).topology.Canonical := by
    cases a with
    | partition groups => exact hw.partition groups
    | heal => exact hw.adjustAll _
    | cut a b | restore a b | setLoss a b loss => exact hw.adjust _ _ _
    | powerDown | powerUp | snapshot => exact hw
  cases a with
  | partition | heal | cut | restore | setLoss | powerDown | powerUp | snapshot =>
    exact .of_still emissions_of_power rfl rfl rfl rfl rfl rfl hcanonical

theorem Handles.snapshotIfDue {e : Event} (h : w.Handles e v) : w.Handles e v.snapshotIfDue := by
  simp only [World.snapshotIfDue]
  split
  · exact h
  · split
    · exact ⟨h.flights, h.sent, h.delivered, h.undecodable, h.canonical⟩
    · exact h

theorem handles_happen (hw : w.topology.Canonical) (hq : w.Quiet) {e : Scheduled}
    (he : ∀ c, e.event.copy? = some c → ∃ p, Packet.ofBytes c.bytes = .ok p) :
    (w.advanceTo e.time).Handles e.event (w.happen e) := by
  refine Handles.snapshotIfDue ?_
  cases hevent : e.event with
  | delivery target sender bytes rssi =>
    rw [hevent] at he
    obtain ⟨p, hp⟩ := he _ rfl
    exact handles_deliver (w := w.advanceTo e.time) hw hq target sender rssi hp
  | tick id => exact handles_fireTick (w := w.advanceTo e.time) hw hq id
  | action a => exact handles_perform (w := w.advanceTo e.time) hw a

/-! ## Nodes without frames to send -/

theorem Quiet.insert (h : w.Quiet) {id : NodeId} {r : Resident}
    (hr : r.station.outbox.packets = #[]) :
    ∀ id' s, (w.residents.insert id r).get? id' = some s → s.station.outbox.packets = #[] := by
  intro id' s hs
  rw [Table.get?_insert] at hs
  split at hs
  · cases hs
    exact hr
  · exact h id' s hs

theorem Quiet.happen (h : w.Quiet) (e : Scheduled) : (w.happen e).Quiet := by
  obtain ⟨plan, hp⟩ := happens_happen w e
  have heffect := hp.effect
  simp only [Quiet]
  generalize (w.happen e).residents = rs at heffect
  generalize e.event = event at heffect
  cases heffect with
  | missed | vacant | arranged => exact h
  | heard | ticked => exact h.insert rfl
  | powered hpower =>
    intro id' s hs
    rw [Table.get?_modify] at hs
    split at hs
    · obtain ⟨r, hr, rfl⟩ := Option.map_eq_some_iff.1 hs
      exact (Station.packets_step (Action.ne_tick_of_power? hpower)).trans (h id' r hr)
    · exact h id' s hs

end World

/-! ## Turns -/

def Deed.Tidy (d : Deed) : Prop := d.Scripted ∧ ∀ t, d = .arrange t → t.Canonical

/-- The turns before a scenario's run, unless its topology is given with links that cannot be
found. -/
theorem chronicle_build {s : Scenario} {w : World} (h : s.build = .ok w)
    (hgiven : ∀ t, s.arrangement = .given t → t.Canonical) :
    ∃ past, Chronicle Deed.Tidy past w :=
  chronicle_build_of h fun _ hd ha =>
    ⟨hd, fun t ht => ha t ht ▸ Topology.canonical_topology s hgiven⟩

def spoken (m : World × Turn) : List (NodeId × Packet) :=
  match m.2 with
  | .event e => (m.1.advanceTo e.time).emissions e.event
  | _ => []

def landed? (m : World × Turn) : Option Copy :=
  match m.2 with
  | .event e => m.1.landing? e.event
  | _ => none

def strayed? (m : World × Turn) : Option Copy :=
  match m.2 with
  | .event e => m.1.stray? e.event
  | _ => none

/-- The copies of all frames that were sent, according to the links of that moment. -/
def copiesSent (past : List (World × Turn)) : List Copy :=
  past.flatMap fun m => (spoken m).flatMap m.1.copiesOf

def linksUsed (past : List (World × Turn)) : Nat :=
  (past.map fun m => ((spoken m).map fun s => m.1.topology.degree s.1).sum).sum

theorem length_copiesSent (past : List (World × Turn)) :
    (copiesSent past).length = linksUsed past := by
  simp only [copiesSent, linksUsed, List.length_flatMap, World.length_copiesOf]

theorem mem_copiesSent {past : List (World × Turn)} {c : Copy} (h : c ∈ copiesSent past) :
    ∃ p : Packet, (c.sender, p) ∈ past.flatMap spoken ∧ c.bytes = p.encode := by
  simp only [copiesSent, World.copiesOf, List.mem_flatMap, List.mem_map] at h
  obtain ⟨m, hm, ⟨id, p⟩, hp, n, -, rfl⟩ := h
  exact ⟨p, List.mem_flatMap.2 ⟨m, hm, hp⟩, rfl⟩

structure Traces (past : List (World × Turn)) (w : World) : Prop where
  quiet : w.Quiet
  canonical : w.topology.Canonical
  copies : ∃ lost, Rises 0 lost.length w.history.lost ∧ (copiesSent past).Perm
    (lost ++ (w.inFlight ++ (past.filterMap landed? ++ past.filterMap strayed?)))
  sent : Rises 0 (past.flatMap spoken).length w.history.sent
  delivered : Rises 0 (past.filterMap landed?).length w.history.delivered
  undecodable : w.history.undecodable = 0

namespace Traces
variable {past : List (World × Turn)} {w v : World}

theorem start (seed : UInt64) (hash : Hash) : Traces [] (World.ofSeed seed hash) := by
  have hzero : Rises 0 0 0 := rises_refl 0
  refine ⟨fun id r hr => ?_, Topology.canonical_empty, ⟨[], hzero, .refl _⟩, hzero, hzero, rfl⟩
  cases hr

/-- A frame that is on its way can be read. -/
theorem readable (h : Traces past w) {c : Copy} (hc : c ∈ w.inFlight) :
    ∃ p, Packet.ofBytes c.bytes = .ok p := by
  obtain ⟨lost, -, hperm⟩ := h.copies
  have hsent : c ∈ copiesSent past := by
    rw [hperm.mem_iff]
    exact List.mem_append_right _ (List.mem_append_left _ hc)
  obtain ⟨p, -, hp⟩ := mem_copiesSent hsent
  exact ⟨p, hp ▸ (Packet.ofBytes_eq_ok_iff ..).2 (Packet.canonical_encode p)⟩

/-- Turns in which nothing is sent and nothing arrives. -/
theorem pass (h : Traces past w) {t : Turn} (hspoken : spoken (w, t) = [])
    (hlanded : landed? (w, t) = none) (hstrayed : strayed? (w, t) = none) (hquiet : v.Quiet)
    (hcanonical : v.topology.Canonical) (hflight : v.inFlight.Perm w.inFlight)
    (hlost : v.history.lost = w.history.lost) (hsent : v.history.sent = w.history.sent)
    (hdelivered : v.history.delivered = w.history.delivered)
    (hundecodable : v.history.undecodable = w.history.undecodable) :
    Traces ((w, t) :: past) v := by
  obtain ⟨lost, hrises, hperm⟩ := h.copies
  refine ⟨hquiet, hcanonical, ⟨lost, hlost ▸ hrises, ?_⟩, ?_, ?_, hundecodable ▸ h.undecodable⟩
  · simp only [copiesSent, List.flatMap_cons, hspoken, List.flatMap_nil, List.nil_append,
      List.filterMap_cons, hlanded, hstrayed]
    exact hperm.trans ((hflight.symm.append_right _).append_left lost)
  · rw [List.flatMap_cons, hspoken, List.nil_append, hsent]
    exact h.sent
  · rw [List.filterMap_cons, hlanded, hdelivered]
    exact h.delivered

theorem event (h : Traces past w) {limit : Instant} {e : Scheduled}
    (hv : w.next? limit = some (e, v)) : Traces ((w, .event e) :: past) v := by
  obtain ⟨agenda, hdue, rfl⟩ := World.next?_eq_some_iff.1 hv
  obtain ⟨ha, -⟩ := Agenda.due?_eq_some_iff.1 hdue
  have hflight : w.inFlight = e.event.copy?.toList ++ brought agenda.entries := by
    rw [World.inFlight, ha, brought_cons]
  have hread : ∀ c, e.event.copy? = some c → ∃ p, Packet.ofBytes c.bytes = .ok p := by
    intro c hc
    refine h.readable ?_
    rw [hflight, hc]
    exact List.mem_cons_self
  have hhandles := World.handles_happen (w := { w with agenda }) h.canonical h.quiet hread
  have hquiet := World.Quiet.happen (w := { w with agenda }) h.quiet e
  obtain ⟨plan, lost', hagenda, hcopies, hlost'⟩ := hhandles.flights
  obtain ⟨lost, hlost, hperm⟩ := h.copies
  -- the copy that the event brings, if any, lands or strays
  have hbrings : e.event.copy?.toList.Perm
      ((landed? (w, .event e)).toList ++ (strayed? (w, .event e)).toList) := by
    simp only [landed?, strayed?, World.landing?, World.stray?]
    cases e.event.copy? with
    | none => exact .refl _
    | some c => cases hc : w.residents.contains c.target <;> simp [Option.filter, hc]
  have hafter : ({ w with agenda }.happen e).inFlight.Perm
      (brought agenda.entries ++ flights plan) := by
    rw [← brought_numbered w.planned plan, ← brought_append, World.inFlight, hagenda]
    exact perm_brought (World.perm_insertAll agenda _)
  refine ⟨hquiet, hhandles.canonical, ⟨lost' ++ lost, ?_, ?_⟩, ?_, ?_, ?_⟩
  · rw [List.length_append, Nat.add_comm]
    exact hlost.trans hlost'
  · have hspoken : (spoken (w, .event e)).flatMap w.copiesOf =
        ((({ w with agenda } : World).advanceTo e.time).emissions e.event).flatMap
          (({ w with agenda } : World).advanceTo e.time).copiesOf := rfl
    rw [← hspoken] at hcopies
    rw [hflight] at hperm
    rw [List.perm_iff_count] at *
    intro c
    have hcopies := hcopies c
    have hperm := hperm c
    have hbrings := hbrings c
    have hafter := hafter c
    have hlands : (((w, .event e) :: past).filterMap landed?) =
        (landed? (w, .event e)).toList ++ past.filterMap landed? := by
      rw [List.filterMap_cons]
      cases landed? (w, .event e) <;> rfl
    have hstrays : (((w, .event e) :: past).filterMap strayed?) =
        (strayed? (w, .event e)).toList ++ past.filterMap strayed? := by
      rw [List.filterMap_cons]
      cases strayed? (w, .event e) <;> rfl
    rw [hlands, hstrays]
    simp only [copiesSent, List.flatMap_cons, List.count_append] at *
    omega
  · rw [List.flatMap_cons, List.length_append, Nat.add_comm]
    exact h.sent.trans hhandles.sent
  · have hlands : (((w, .event e) :: past).filterMap landed?).length =
        (past.filterMap landed?).length + (w.landing? e.event).toList.length := by
      rw [List.filterMap_cons]
      simp only [landed?]
      cases w.landing? e.event <;> rfl
    rw [hlands]
    exact h.delivered.trans hhandles.delivered
  · exact hhandles.undecodable.trans h.undecodable

theorem undergo (h : Traces past w) {d : Deed} (hd : d.Tidy) :
    Traces ((w, .deed d) :: past) (w.undergo d) := by
  have hpass {v : World} (hquiet : v.Quiet) (hcanonical : v.topology.Canonical)
      (hflight : v.inFlight.Perm w.inFlight) (hlost : v.history.lost = w.history.lost)
      (hsent : v.history.sent = w.history.sent)
      (hdelivered : v.history.delivered = w.history.delivered)
      (hundecodable : v.history.undecodable = w.history.undecodable) :
      Traces ((w, .deed d) :: past) v :=
    h.pass rfl rfl rfl hquiet hcanonical hflight hlost hsent hdelivered hundecodable
  have hscheduled {e : Scheduled} (he : e.event.copy? = none) :
      (brought (w.agenda.insert e).entries).Perm w.inFlight := by
    have hperm := perm_brought (w.agenda.perm_insert e)
    rw [brought_cons, he] at hperm
    exact hperm
  obtain ⟨hscripted, harranged⟩ := hd
  cases d with
  | add id =>
    cases hv : w.add id with
    | error e =>
      rw [World.undergo_add_of_error hv]
      exact hpass h.quiet h.canonical (.refl _) rfl rfl rfl rfl
    | ok v =>
      rw [World.undergo_add_of_ok hv]
      obtain ⟨r, s, hr, hs, rfl⟩ := World.add_eq hv
      obtain ⟨c, -, hstart⟩ := Resident.start_eq hr
      have hfresh : r.station.outbox.packets = #[] := by
        obtain ⟨-, he⟩ := Station.start_eq hstart
        rw [he]
        rfl
      have hsilent : s.station.outbox.packets = #[] := by
        obtain rfl | ⟨p, rfl⟩ := hs
        · exact hfresh
        · exact hfresh
      exact hpass (h.quiet.insert hsilent) h.canonical (hscheduled rfl) rfl rfl rfl rfl
  | plan time event =>
    cases event with
    | action a => exact hpass h.quiet h.canonical (hscheduled rfl) rfl rfl rfl rfl
    | delivery | tick => exact hscripted.elim
  | arrange t => exact hpass h.quiet (harranged t rfl) (.refl _) rfl rfl rfl rfl
  | equip | watch | look => exact hpass h.quiet h.canonical (.refl _) rfl rfl rfl rfl
  | operate | replace | takeFrames | takeTraces | takeNotices => exact hscripted.elim

theorem takes (h : Traces past w) {t : Turn} (ht : w.Takes Deed.Tidy t v) :
    Traces ((w, t) :: past) v := by
  cases ht with
  | deed d hd => exact h.undergo hd
  | event hv => exact h.event hv
  | rest => exact h.pass rfl rfl rfl h.quiet h.canonical (.refl _) rfl rfl rfl rfl

end Traces

theorem Chronicle.traces {past : List (World × Turn)} {w : World}
    (h : Chronicle Deed.Tidy past w) : Traces past w := by
  induction h with
  | start seed hash => exact .start seed hash
  | turn _ ht ih => exact ih.takes ht

/-- Every copy of a frame is accounted for, and no frame reads differently from the packet that it
was made from. -/
structure Accounted (past : List (World × Turn)) (w : World) : Prop where
  undecodable : w.history.undecodable = 0
  faithful : ∀ c ∈ past.filterMap landed?, ∃ p : Packet, (c.sender, p) ∈ past.flatMap spoken ∧
    Packet.ofBytes c.bytes = .ok p
  sent : w.history.sent.toNat = (past.flatMap spoken).length
  delivered : w.history.delivered.toNat = (past.filterMap landed?).length
  copies : ∃ lost : List Copy, w.history.lost.toNat = lost.length ∧ (copiesSent past).Perm
    (lost ++ (w.inFlight ++ (past.filterMap landed? ++ past.filterMap strayed?)))
  total : linksUsed past = w.history.lost.toNat + w.inFlight.length +
    w.history.delivered.toNat + (past.filterMap strayed?).length

/-- As long as no count is at its limit, a simulation whose user adds nodes, changes what is around
them and schedules actions accounts for all copies of the frames that its nodes send: each is lost,
on its way, heard, or where no node is. None is unreadable. -/
theorem frames_accounted {past : List (World × Turn)} {w : World}
    (h : Chronicle Deed.Tidy past w) (hsent : w.history.sent < 0xffffffffffffffff)
    (hlost : w.history.lost < 0xffffffffffffffff)
    (hdelivered : w.history.delivered < 0xffffffffffffffff) : Accounted past w := by
  have ht := h.traces
  obtain ⟨lost, hrises, hperm⟩ := ht.copies
  have hlength := hperm.length_eq
  simp only [List.length_append, length_copiesSent] at hlength
  have hlostCount := hrises.toNat_eq hlost
  have hdeliveredCount := ht.delivered.toNat_eq hdelivered
  refine ⟨ht.undecodable, fun c hc => ?_, ht.sent.toNat_eq hsent, hdeliveredCount,
    ⟨lost, hlostCount, hperm⟩, by omega⟩
  have hmem : c ∈ copiesSent past := by
    rw [hperm.mem_iff]
    exact List.mem_append_right _ (List.mem_append_right _ (List.mem_append_left _ hc))
  obtain ⟨p, hp, hbytes⟩ := mem_copiesSent hmem
  exact ⟨p, hp, hbytes ▸ (Packet.ofBytes_eq_ok_iff ..).2 (Packet.canonical_encode p)⟩

/-- Two nodes with a link that loses every other copy. Of their first three frames one is lost,
one is heard and one is on its way. -/
theorem frames_accounted_of_two_nodes :
    let scenario : Scenario := { size := 2, seed := 66, plan := ⟨1, 5, 1, 5⟩, loss := 0.5 }
    ∃ w v past, scenario.build = .ok w ∧ v = w.goOn ⟨10⟩ 5 ∧ Chronicle Deed.Tidy past v ∧
      v.history.sent = 3 ∧ v.history.lost = 1 ∧ v.history.delivered = 1 ∧ v.inFlight.length = 1 ∧
      Accounted past v := by
  intro scenario
  have hbuilt : scenario.build = .ok _ := rfl
  obtain ⟨past, hpast⟩ := chronicle_build hbuilt nofun
  obtain ⟨es, hes⟩ := World.passes_goOn ⟨10⟩ 5 _
  obtain ⟨between, hv⟩ := hpast.passes hes
  exact ⟨_, _, _, hbuilt, rfl, hv, by decide +kernel, by decide +kernel, by decide +kernel,
    by decide +kernel,
    frames_accounted hv (by decide +kernel) (by decide +kernel) (by decide +kernel)⟩

end Net
end ClusterMesh
