import ClusterMesh.Proofs.Net.Story

/-! Runs come to an end. A slot is followed by one that begins later, so that a run has finitely
many of them. Frames are sent in slots, and by an event of another kind only if they waited
before it; then that node has none left. -/
namespace ClusterMesh

namespace Station

/-- Nothing but a slot puts a packet into the outbox. -/
theorem packets_step {s : Station} {op : Op} (h : ∀ now, op ≠ .tick now) :
    (s.step op).outbox.packets = s.outbox.packets := by
  obtain ⟨now, rfl⟩ | rfl | ⟨p, hp⟩ | hp := op.kinds
  · exact absurd rfl (h now)
  · rfl
  · obtain ⟨rssi, now, hs⟩ := step_of_packet? s hp
    rw [hs]
    obtain ht | ⟨time, ht⟩ := traffic_receive s p rssi now
    · exact congrArg Traffic.sent ht
    · exact congrArg Traffic.sent ht
  · exact congrArg Traffic.sent (step_plain s hp).2.1

/-- No slot is empty. -/
theorem Equipped.slotSpan_pos {s : Station} (h : s.Equipped) : 0 < s.slotSpan.ms.toNat := by
  have hpos {n : UInt32} (hn : n ≠ 0) : 0 < (Span.ofWord n).ms.toNat := by
    change 0 < n.toUInt64.toNat
    rw [UInt32.toNat_toUInt64]
    exact Nat.pos_of_ne_zero fun h0 => hn (UInt32.toNat.inj h0)
  unfold slotSpan
  split
  · exact hpos h.valid.noisyMs_ne
  · exact hpos h.valid.neighborMs_ne
  · exact hpos h.valid.slotMs_ne

end Station

/-- The number of values with a property changes by that of the value replaced. -/
theorem Table.countP_insert {κ ν : Type} [DecidableEq κ] {t : Table κ ν} {k : κ} {v : ν}
    (h : t.get? k = some v) (p : ν → Bool) (v' : ν) :
    (t.insert k v').values.countP p + (p v).toNat = t.values.countP p + (p v').toNat := by
  have hplace (es : List (κ × ν)) (hes : (es.find? fun e => e.1 = k).map Prod.snd = some v) :
      ((place k v' es).map Prod.snd).countP p + (p v).toNat =
        (es.map Prod.snd).countP p + (p v').toNat := by
    induction es with
    | nil => cases hes
    | cons e es ih =>
      unfold place
      by_cases he : e.1 = k
      · have hv : e.2 = v := by simpa [he] using hes
        rw [if_pos he, List.map_cons, List.map_cons, List.countP_cons, List.countP_cons, hv]
        cases p v <;> cases p v' <;> simp
      · have hrest := ih (by simpa [he] using hes)
        rw [if_neg he, List.map_cons, List.map_cons, List.countP_cons, List.countP_cons]
        omega
  exact hplace t.entries h

namespace Net

theorem Resident.frames_act (r : Resident) {op : Station.Op} (h : ∀ now, op ≠ .tick now) :
    (r.act op).frames = r.frames :=
  congrArg (fun ps : Array Packet => ps.toList.map Packet.encode) (Station.packets_step h)

theorem Airborne.eq_nil {now : Instant} {sender : NodeId} {plan : List (Instant × Event)}
    (h : Airborne now sender [] plan) : plan = [] := by
  refine List.eq_nil_iff_forall_not_mem.2 fun p hp => ?_
  obtain ⟨-, _, _, _, hb, -⟩ := h p hp
  cases hb

/-! ## What is left to do -/

/-- Milliseconds within which the slot of a tick and those after it can begin. -/
def timeLeft (limit time : Instant) : Event → Nat
  | .tick _ => limit.ms.toNat + 1 - time.ms.toNat
  | _ => 0

def chore (_ : Instant) : Event → Nat
  | .tick _ => 0
  | _ => 1

theorem timeLeft_of_ne (limit : Instant) {e : Scheduled} (h : ∀ id, e.event ≠ .tick id) :
    timeLeft limit e.time e.event = 0 := by
  cases he : e.event with
  | tick id => exact absurd he (h id)
  | delivery | action => rfl

theorem chore_of_ne {e : Scheduled} (h : ∀ id, e.event ≠ .tick id) :
    chore e.time e.event = 1 := by
  cases he : e.event with
  | tick id => exact absurd he (h id)
  | delivery | action => rfl

def burden (weight : Instant → Event → Nat) (plan : List (Instant × Event)) : Nat :=
  (plan.map fun p => weight p.1 p.2).sum

theorem burden_append (weight : Instant → Event → Nat) (p q : List (Instant × Event)) :
    burden weight (p ++ q) = burden weight p + burden weight q := by
  rw [burden, List.map_append, List.sum_append, burden, burden]

theorem Airborne.burden_timeLeft {now : Instant} {sender : NodeId} {frames : List (List UInt8)}
    {plan : List (Instant × Event)} (h : Airborne now sender frames plan) (limit : Instant) :
    burden (timeLeft limit) plan = 0 := by
  refine List.sum_eq_zero fun n hn => ?_
  obtain ⟨p, hp, rfl⟩ := List.mem_map.1 hn
  obtain ⟨-, target, bytes, rssi, -, he⟩ := h p hp
  rw [he]
  rfl

theorem Station.Op.receiveBytes_ne_tick {bytes : List UInt8} {rssi : Int8} {now : Instant}
    (t : Instant) : Station.Op.receiveBytes bytes rssi now ≠ .tick t := nofun

theorem Action.ne_tick_of_power? {a : Action} {id : NodeId} {op : Station.Op}
    (h : a.power? = some (id, op)) (now : Instant) : op ≠ .tick now := by
  rintro rfl
  cases a <;> cases h

namespace World

def load (weight : Instant → Event → Nat) (w : World) : Nat :=
  (w.agenda.entries.map fun s => weight s.time s.event).sum

def talkers (w : World) : Nat := w.residents.values.countP fun r => !r.frames.isEmpty

/-- What a run still has to do, the weightier kind first. -/
def toDo (limit : Instant) (w : World) : Nat × Nat × Nat :=
  (w.load (timeLeft limit), w.talkers, w.load chore)

def Lighter (limit : Instant) (v w : World) : Prop :=
  Prod.Lex (· < ·) (Prod.Lex (· < ·) (· < ·)) (v.toDo limit) (w.toDo limit)

variable {limit : Instant}

theorem wellFounded_lighter (limit : Instant) : WellFounded (Lighter limit) :=
  InvImage.wf (toDo limit) (Prod.lex ⟨_, Nat.lt_wfRel.wf⟩
    (Prod.lex ⟨_, Nat.lt_wfRel.wf⟩ ⟨_, Nat.lt_wfRel.wf⟩)).wf

theorem lighter_of_slots {v w : World} (h : v.load (timeLeft limit) < w.load (timeLeft limit)) :
    Lighter limit v w :=
  .left _ _ h

theorem lighter_of_talkers {v w : World}
    (ht : v.load (timeLeft limit) = w.load (timeLeft limit)) (h : v.talkers < w.talkers) :
    Lighter limit v w := by
  rw [Lighter, toDo, toDo, ht]
  exact .right _ (.left _ _ h)

theorem lighter_of_chores {v w : World}
    (ht : v.load (timeLeft limit) = w.load (timeLeft limit)) (hs : v.talkers = w.talkers)
    (h : v.load chore < w.load chore) : Lighter limit v w := by
  rw [Lighter, toDo, toDo, ht, hs]
  exact .right _ (.right _ h)

/-- An event takes its own weight off the agenda and puts that of its plan on it. -/
theorem Progress.load_eq {w v : World} {e : Scheduled} {plan : List (Instant × Event)}
    (h : w.Progress [e] v plan) (weight : Instant → Event → Nat) :
    weight e.time e.event + v.load weight = w.load weight + burden weight plan := by
  have hnumbered (n : Nat) (plan : List (Instant × Event)) :
      ((numbered n plan).map fun s => weight s.time s.event).sum = burden weight plan := by
    induction plan generalizing n with
    | nil => rfl
    | cons p plan ih =>
      rw [numbered, List.map_cons, List.sum_cons, ih, burden, burden, List.map_cons,
        List.sum_cons]
  have hsum := (h.entries.map fun s => weight s.time s.event).sum_eq
  rw [List.singleton_append, List.map_cons, List.sum_cons, List.map_append, List.sum_append,
    hnumbered] at hsum
  exact hsum

theorem talkers_silenced {w v : World} {id : NodeId} {r s : Resident}
    (h : w.residents.get? id = some r) (hv : v.residents = w.residents.insert id s.silent) :
    v.talkers + (!r.frames.isEmpty).toNat = w.talkers := by
  have hc := Table.countP_insert h (fun r : Resident => !r.frames.isEmpty) s.silent
  have hs : (!s.silent.frames.isEmpty) = false := rfl
  rw [hs] at hc
  unfold talkers
  rw [hv]
  exact hc

theorem talkers_powered {w v : World} {id : NodeId} {op : Station.Op}
    (hop : ∀ now, op ≠ .tick now) (hv : v.residents = w.residents.modify id (·.act op)) :
    v.talkers = w.talkers := by
  unfold talkers
  rw [hv, Table.values, Table.values, Table.modify, Table.mapValues, List.map_map,
    List.countP_map, List.countP_map]
  refine List.countP_congr fun e _ => ?_
  dsimp only [Function.comp]
  split
  · rw [Resident.frames_act e.2 hop]
  · rfl

/-- A slot is followed by one that begins later, or not at all within the limit. -/
theorem timeLeft_next (id : NodeId) (hl : limit < .last) {e : Scheduled} (he : e.time ≤ limit)
    {now : Instant} (hn : e.time ≤ now) {d : Span} (hd : 0 < d.ms.toNat) :
    timeLeft limit (now.after d) (.tick id) < limit.ms.toNat + 1 - e.time.ms.toNat := by
  rw [Instant.lt_iff_toNat] at hl
  rw [Instant.le_iff_toNat] at he hn
  have hlast : Instant.last.ms.toNat = 0xffffffffffffffff := rfl
  rw [timeLeft, Instant.toNat_after]
  omega

/-- An event that begins no slot and plans nothing is one chore less. -/
theorem Progress.lighter_of_chore {w v : World} {e : Scheduled} (h : w.Progress [e] v [])
    (he : ∀ id, e.event ≠ .tick id) (ht : v.talkers = w.talkers) : Lighter limit v w := by
  have htime := h.load_eq (timeLeft limit)
  have hchores := h.load_eq chore
  rw [timeLeft_of_ne limit he, burden, List.map_nil, List.sum_nil] at htime
  rw [chore_of_ne he, burden, List.map_nil, List.sum_nil] at hchores
  exact lighter_of_chores (by omega) ht (by omega)

/-- Each event of a run leaves less to do. -/
theorem lighter_next {w v : World} {e : Scheduled} (hw : w.Furnished) (hl : limit < .last)
    (h : w.next? limit = some (e, v)) : Lighter limit v w := by
  obtain ⟨agenda, plan, ha, hdue, hp⟩ := happens_next? h
  have hprogress := hp.progress ha
  have htime := hprogress.load_eq (timeLeft limit)
  have hnow : e.time ≤ w.now.latest e.time := by
    rw [Instant.le_iff_toNat, Instant.toNat_latest]
    omega
  have hleft : 0 < limit.ms.toNat + 1 - e.time.ms.toNat := by
    rw [Instant.le_iff_toNat] at hdue
    omega
  have heffect := hp.effect
  generalize hevent : e.event = event at heffect htime
  generalize hrs : v.residents = rs at heffect
  cases heffect with
  | missed | arranged =>
    have htalk : v.talkers = w.talkers := by rw [talkers, hrs]; rfl
    exact hprogress.lighter_of_chore (by simp [hevent]) htalk
  | powered hpower =>
    have htalk : v.talkers = w.talkers := talkers_powered (Action.ne_tick_of_power? hpower) hrs
    exact hprogress.lighter_of_chore (by simp [hevent]) htalk
  | vacant =>
    rw [timeLeft, burden, List.map_nil, List.sum_nil] at htime
    exact lighter_of_slots (by omega)
  | @heard target sender bytes rssi r s plan hr hs hair =>
    have hframes : s.frames = r.frames := by
      rw [hs]
      exact r.frames_act Station.Op.receiveBytes_ne_tick
    have htalk : v.talkers + (!r.frames.isEmpty).toNat = w.talkers := talkers_silenced hr hrs
    rw [hframes] at hair
    -- either nothing waited at the node, or it is one that does not talk any more
    cases hwaited : r.frames with
    | nil =>
      rw [hwaited] at hair htalk
      have hplan := hair.eq_nil
      subst hplan
      exact hprogress.lighter_of_chore (by simp [hevent]) htalk
    | cons bytes frames =>
      rw [hwaited] at htalk
      have hone : v.talkers + 1 = w.talkers := htalk
      have hzero := timeLeft_of_ne limit (e := e) (by simp [hevent])
      rw [hevent] at hzero
      rw [hair.burden_timeLeft, hzero] at htime
      exact lighter_of_talkers (by omega) (by omega)
  | @ticked id r s plan hr hs hair =>
    have hspan : 0 < s.station.slotSpan.ms.toNat := by
      rw [hs]
      exact ((hw id r hr).step (.tick (w.now.latest e.time))).slotSpan_pos
    have hlater := timeLeft_next id hl hdue hnow hspan
    rw [burden_append, hair.burden_timeLeft, burden, List.map_singleton, List.sum_singleton]
      at htime
    change _ + _ = _ + (0 + timeLeft limit ((w.now.latest e.time).after _) (.tick id)) at htime
    rw [timeLeft] at htime
    exact lighter_of_slots (by omega)

/-! ## Runs -/

/-- The events of a run are determined: two courses from one network begin alike. -/
theorem Passes.isPrefix {w u v : World} {es fs : List Scheduled} (h : Passes limit w es u)
    (hu : u.next? limit = none) (k : Passes limit w fs v) : fs <+: es := by
  induction fs generalizing w es with
  | nil => exact List.nil_prefix
  | cons f fs ih =>
    obtain ⟨t, ht, hv⟩ := k
    cases es with
    | nil =>
      rw [h, ht] at hu
      cases hu
    | cons e es =>
      obtain ⟨t', ht', hu'⟩ := h
      rw [ht] at ht'
      cases ht'
      exact List.cons_prefix_cons.2 ⟨rfl, ih hu' hv⟩

theorem exists_passes {w : World} (hw : w.Furnished) (hl : limit < .last) :
    ∃ es v, Passes limit w es v ∧ v.next? limit = none := by
  induction w using (wellFounded_lighter limit).induction with
  | _ w ih =>
    cases hn : w.next? limit with
    | none => exact ⟨[], w, rfl, hn⟩
    | some due =>
      obtain ⟨e, u⟩ := due
      obtain ⟨es, v, hes, hv⟩ := ih u (lighter_next hw hl hn) (hw.next hn)
      exact ⟨e :: es, v, ⟨u, hn, hes⟩, hv⟩

/-- In every state of a simulation and for every limit before the last instant there is only a
finite list of events that can happen within the limit, and a run up to it has a result: that
after the last one of them. -/
theorem run_comes_to_end {w : World} (h : w.Reachable) {limit : Instant} (hl : limit < .last) :
    ∃ es u, Passes limit w es u ∧ u.next? limit = none ∧
      (∀ fs v, Passes limit w fs v → fs <+: es) ∧
      w.runUntil limit = some ((u.settle limit).outcome, u.settle limit) := by
  obtain ⟨past, hpast⟩ := h
  have hw := hpast.furnished w List.mem_cons_self
  obtain ⟨es, u, hes, hu⟩ := exists_passes hw hl
  refine ⟨es, u, hes, hu, fun fs v hfs => hes.isPrefix hu hfs, ?_⟩
  exact runUntil_eq_some_iff.2 ⟨es, u, hes, hu, rfl, rfl⟩

/-- A single node whose first slot is due. -/
theorem run_comes_to_end_of_single_node :
    let w := (World.ofSeed 42).undergo (.add 1)
    let limit : Instant := ⟨1000⟩
    w.agenda.entries = [⟨.zero, 0, .tick 1⟩] ∧ (w.residents.get? 1).isSome = true ∧
      w.Reachable ∧ limit < .last ∧
      ∃ es u, Passes limit w es u ∧ u.next? limit = none ∧
        (∀ fs v, Passes limit w fs v → fs <+: es) ∧
        w.runUntil limit = some ((u.settle limit).outcome, u.settle limit) := by
  intro w limit
  have hw : w.Reachable := (reachable_ofSeed 42 hashWord).undergo _
  have hl : limit < .last := by decide
  exact ⟨rfl, rfl, hw, hl, run_comes_to_end hw hl⟩

end World
end Net
end ClusterMesh
