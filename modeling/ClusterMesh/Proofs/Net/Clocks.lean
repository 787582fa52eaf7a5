import ClusterMesh.Proofs.Net.Chronicle
import ClusterMesh.Proofs.Net.Ending

/-! The slots that are planned for a node. Each slot plans the next one, so that every addition of
a node starts a series of slots of its own: a node that is added once has one slot planned, and one
that is added again has as many as it was added. -/
namespace ClusterMesh

/-- Nothing but a slot or a reset changes how long the next slot is. -/
theorem Station.slotSpan_step (s : Station) {op : Op} (ht : ∀ now, op ≠ .tick now)
    (hr : op.isReset = false) : (s.step op).slotSpan = s.slotSpan := by
  have hsame {t : Station} (hp : t.phase = s.phase) (hs : t.settings = s.settings) :
      t.slotSpan = s.slotSpan := by
    unfold slotSpan
    rw [hp, hs]
  obtain ⟨now, rfl⟩ | rfl | ⟨p, hp⟩ | hp := op.kinds
  · exact absurd rfl (ht now)
  · cases hr
  · obtain ⟨rssi, now, hs⟩ := step_of_packet? s hp
    have hc := clockwork_receive s p rssi now
    rw [hs]
    exact hsame (congrArg Clockwork.phase hc) (congrArg Clockwork.settings hc)
  · obtain ⟨-, -, enabled, hc⟩ := step_plain s hp
    exact hsame (congrArg Clockwork.phase hc) (congrArg Clockwork.settings hc)

namespace Net

def Event.ticks? : Event → Option NodeId
  | .tick id => some id
  | _ => none

def slotTimes (id : NodeId) (es : List Scheduled) : List Instant :=
  (es.filter fun e => e.event.ticks? = some id).map Scheduled.time

def World.clocks (w : World) (id : NodeId) : List Instant := slotTimes id w.agenda.entries

def World.pace? (w : World) (id : NodeId) : Option (Instant × Span) :=
  (w.residents.get? id).map fun r => (r.joined, r.station.slotSpan)

def adds (id : NodeId) (m : World × Turn) : Bool :=
  match m.2 with
  | .deed (.add id') => id' = id && (m.1.add id).isOk
  | _ => false

def slotBegun? (id : NodeId) (m : World × Turn) : Option Instant :=
  match m.2 with
  | .event e => if e.event.ticks? = some id then some (m.1.now.latest e.time) else none
  | _ => none

def additions (past : List (World × Turn)) (id : NodeId) : Nat := past.countP (adds id)

def lastSlot? (past : List (World × Turn)) (id : NodeId) : Option Instant :=
  past.findSome? (slotBegun? id)

/-- What is planned for a node goes by how it came to be. -/
structure Clocked (past : List (World × Turn)) (w : World) (id : NodeId) : Prop where
  count : (w.clocks id).length = additions past id
  known : w.residents.contains id = true ↔ 0 < additions past id
  ahead : ∀ t ∈ w.clocks id, w.now ≤ t
  idle : additions past id = 0 → lastSlot? past id = none
  /-- A node that was added once has one slot planned: the first one for when it was added, and
  each later one for when the slot before it is over. -/
  once : additions past id = 1 → ∃ r, w.residents.get? id = some r ∧
    w.clocks id = [(lastSlot? past id).elim r.joined (·.after r.station.slotSpan)]

/-! ## Times of slots -/

section times
variable {id : NodeId}

theorem slotTimes_append (es fs : List Scheduled) :
    slotTimes id (es ++ fs) = slotTimes id es ++ slotTimes id fs := by
  simp only [slotTimes, List.filter_append, List.map_append]

theorem slotTimes_cons_of_ne {e : Scheduled} (h : e.event.ticks? ≠ some id)
    (es : List Scheduled) : slotTimes id (e :: es) = slotTimes id es := by
  rw [slotTimes, List.filter_cons_of_neg (by simpa using h), slotTimes]

theorem slotTimes_cons_of_eq {e : Scheduled} (h : e.event.ticks? = some id)
    (es : List Scheduled) : slotTimes id (e :: es) = e.time :: slotTimes id es := by
  rw [slotTimes, List.filter_cons_of_pos (by simpa using h), List.map_cons, slotTimes]

theorem perm_slotTimes (id : NodeId) {es fs : List Scheduled} (h : es.Perm fs) :
    (slotTimes id es).Perm (slotTimes id fs) :=
  (h.filter _).map _

theorem mem_slotTimes {es : List Scheduled} {t : Instant} (h : t ∈ slotTimes id es) :
    ∃ e ∈ es, e.time = t := by
  obtain ⟨e, he, rfl⟩ := List.mem_map.1 h
  exact ⟨e, (List.mem_filter.1 he).1, rfl⟩

theorem slotTimes_numbered_of_ne {plan : List (Instant × Event)}
    (h : ∀ p ∈ plan, p.2.ticks? ≠ some id) (n : Nat) : slotTimes id (numbered n plan) = [] := by
  rw [slotTimes, List.map_eq_nil_iff, List.filter_eq_nil_iff]
  intro e he
  simpa using h _ (mem_numbered he)

theorem slotTimes_numbered_concat {plan : List (Instant × Event)}
    (h : ∀ p ∈ plan, p.2.ticks? ≠ some id) (n : Nat) (t : Instant) :
    slotTimes id (numbered n (plan ++ [(t, .tick id)])) = [t] := by
  rw [numbered_append, slotTimes_append, slotTimes_numbered_of_ne h, List.nil_append, numbered,
    slotTimes_cons_of_eq rfl]
  rfl

theorem perm_slotTimes_insertAll (id : NodeId) (agenda : Agenda) (es : List Scheduled) :
    (slotTimes id (agenda.insertAll es).entries).Perm
      (slotTimes id agenda.entries ++ slotTimes id es) := by
  rw [← slotTimes_append]
  exact perm_slotTimes id (World.perm_insertAll agenda es)

theorem Airborne.ticks?_ne {now : Instant} {sender : NodeId} {frames : List (List UInt8)}
    {plan : List (Instant × Event)} (h : Airborne now sender frames plan) :
    ∀ p ∈ plan, p.2.ticks? ≠ some id := by
  intro p hp
  obtain ⟨-, _, _, _, -, he⟩ := h p hp
  rw [he]
  nofun

end times

theorem Resident.joined_start {settings : Settings} {seed : UInt64} {joined : Instant}
    {hash : Hash} {r : Resident} (h : Resident.start settings seed joined hash = .ok r) :
    r.joined = joined := by
  unfold Resident.start at h
  dsimp only at h
  cases hs : Station.start _ { measures := false } with
  | error e =>
    rw [hs] at h
    cases h
  | ok station =>
    rw [hs] at h
    cases h
    rfl

theorem Action.isReset_of_power? {a : Action} {id : NodeId} {op : Station.Op}
    (h : a.power? = some (id, op)) : op.isReset = false := by
  cases a <;> cases h <;> rfl

namespace World
variable {w v : World} {id : NodeId}

theorem isSome_pace? (w : World) (id : NodeId) :
    (w.pace? id).isSome = w.residents.contains id := by
  rw [pace?, Option.isSome_map, Table.contains]

/-! ## Events -/

/-- Nothing but a slot of a node changes how long its next slot is. -/
theorem Effect.pace_eq {e : Event} {plan : List (Instant × Event)}
    (h : w.Effect e v.residents plan) (hne : e.ticks? ≠ some id) : v.pace? id = w.pace? id := by
  unfold pace?
  generalize v.residents = rs at h
  cases h with
  | missed | vacant | arranged => rfl
  | @heard target _ bytes rssi r s _ hr hs _ =>
    rw [Table.get?_insert]
    split
    · next he =>
      have hspan : s.silent.station.slotSpan = r.station.slotSpan := by
        rw [hs]
        exact r.station.slotSpan_step Station.Op.receiveBytes_ne_tick rfl
      rw [← he, hr, Option.map_some, Option.map_some, hspan, hs]
      rfl
    · rfl
  | @ticked id' =>
    rw [Table.get?_insert, if_neg]
    rintro rfl
    exact hne rfl
  | @powered a id' op hpower =>
    rw [Table.get?_modify]
    split
    · rw [Option.map_map]
      refine congrArg (Option.map · _) (funext fun r => ?_)
      have hspan : (r.act op).station.slotSpan = r.station.slotSpan :=
        r.station.slotSpan_step (Action.ne_tick_of_power? hpower) (Action.isReset_of_power? hpower)
      dsimp only [Function.comp]
      rw [hspan]
      rfl
    · rfl

theorem Effect.ticks?_ne {e : Event} {rs : Table NodeId Resident} {plan : List (Instant × Event)}
    (h : w.Effect e rs plan) (hne : e.ticks? ≠ some id) : ∀ p ∈ plan, p.2.ticks? ≠ some id := by
  cases h with
  | missed | vacant | arranged | powered => nofun
  | heard _ _ hp => exact hp.ticks?_ne
  | ticked _ _ hp =>
    intro p hmem
    obtain hmem | hmem := List.mem_append.1 hmem
    · exact hp.ticks?_ne p hmem
    · rw [List.mem_singleton.1 hmem]
      exact hne

/-- What is pending at an event is not overdue after it. -/
theorem now_le_of_mem {limit : Instant} {e d : Scheduled} (hv : w.next? limit = some (e, v))
    (hd : d ∈ w.agenda.entries) (hw : w.now ≤ d.time) : v.now ≤ d.time := by
  obtain ⟨agenda, hdue, -⟩ := next?_eq_some_iff.1 hv
  have hbefore := Agenda.not_before_of_due? hdue hd
  rw [Scheduled.before_iff] at hbefore
  rw [now_next? hv]
  simp only [Instant.le_iff_toNat, Instant.toNat_latest] at *
  omega

end World

/-! ## Turns -/

namespace Clocked
variable {past : List (World × Turn)} {w v : World} {id : NodeId}

theorem start (seed : UInt64) (hash : Hash) (id : NodeId) :
    Clocked [] (World.ofSeed seed hash) id :=
  ⟨rfl, ⟨nofun, nofun⟩, nofun, fun _ => rfl, nofun⟩

/-- Turns that neither add the node nor begin a slot of it. -/
theorem pass (h : Clocked past w id) {t : Turn} (hadds : adds id (w, t) = false)
    (hslot : slotBegun? id (w, t) = none) (hclocks : (v.clocks id).Perm (w.clocks id))
    (hpace : v.pace? id = w.pace? id) (hnow : ∀ t ∈ w.clocks id, v.now ≤ t) :
    Clocked ((w, t) :: past) v id := by
  have hadditions : additions ((w, t) :: past) id = additions past id := by
    rw [additions, List.countP_cons_of_neg (by simp [hadds]), additions]
  have hlast : lastSlot? ((w, t) :: past) id = lastSlot? past id := by
    rw [lastSlot?, List.findSome?_cons, hslot, lastSlot?]
  refine ⟨?_, ?_, fun t ht => hnow t (hclocks.mem_iff.1 ht), ?_, ?_⟩
  · rw [hclocks.length_eq, hadditions]
    exact h.count
  · rw [← World.isSome_pace?, hpace, World.isSome_pace?, hadditions]
    exact h.known
  · rw [hadditions, hlast]
    exact h.idle
  · rw [hadditions, hlast]
    intro hone
    obtain ⟨r, hr, hclock⟩ := h.once hone
    rw [World.pace?, World.pace?, hr, Option.map_some, Option.map_eq_some_iff] at hpace
    obtain ⟨s, hs, he⟩ := hpace
    obtain ⟨hjoined, hspan⟩ := Prod.mk.inj he
    refine ⟨s, hs, ?_⟩
    rw [hjoined, hspan]
    exact List.perm_singleton.1 (hclock ▸ hclocks)

/-- A slot of the node begins, and the one after it is planned. -/
theorem tick (h : Clocked past w id) {limit : Instant} {e : Scheduled}
    (hv : w.next? limit = some (e, v)) (he : e.event = .tick id) :
    Clocked ((w, .event e) :: past) v id := by
  obtain ⟨agenda, plan, ha, -, hp⟩ := World.happens_next? hv
  have hticks : e.event.ticks? = some id := by rw [he]; rfl
  have hadditions : additions ((w, .event e) :: past) id = additions past id :=
    List.countP_cons_of_neg (by simp [adds])
  have hslot : slotBegun? id (w, .event e) = some (w.now.latest e.time) := if_pos hticks
  have hlast : lastSlot? ((w, .event e) :: past) id = some (w.now.latest e.time) := by
    rw [lastSlot?, List.findSome?_cons, hslot]
  have hbefore : w.clocks id = e.time :: slotTimes id agenda.entries := by
    rw [World.clocks, ha, slotTimes_cons_of_eq hticks]
  have hcount := h.count
  rw [hbefore, List.length_cons] at hcount
  have hadded : 0 < additions past id := by omega
  have hknown := h.known.2 hadded
  have heffect := hp.effect
  rw [he] at heffect
  generalize hrs : v.residents = rs at heffect
  cases heffect with
  | vacant hnone =>
    change w.residents.get? id = none at hnone
    rw [Table.contains, hnone] at hknown
    cases hknown
  | @ticked id r s air hr hs hair =>
    have hspan : s.silent.station.slotSpan = s.station.slotSpan := rfl
    have hjoined : s.silent.joined = r.joined := by rw [hs]; rfl
    have hget : v.residents.get? id = some s.silent := by
      rw [hrs, Table.get?_insert, if_pos rfl]
    -- of the slot planned before and the one planned now, the first has begun
    have hafter : (v.clocks id).Perm
        (slotTimes id agenda.entries ++ [(w.now.latest e.time).after s.station.slotSpan]) := by
      rw [← slotTimes_numbered_concat hair.ticks?_ne w.planned, World.clocks, hp.agenda]
      exact perm_slotTimes_insertAll id agenda _
    refine ⟨?_, ?_, fun t ht => ?_, fun hnone => by omega, fun hone => ?_⟩
    · rw [hafter.length_eq, List.length_append, List.length_singleton, hadditions]
      exact hcount
    · rw [Table.contains, hget, hadditions]
      exact iff_of_true rfl hadded
    · obtain ht | ht := List.mem_append.1 (hafter.mem_iff.1 ht)
      · have hpending : t ∈ w.clocks id := by
          rw [hbefore]
          exact List.mem_cons_of_mem _ ht
        obtain ⟨d, hd, rfl⟩ := mem_slotTimes hpending
        exact World.now_le_of_mem hv hd (h.ahead _ hpending)
      · rw [List.mem_singleton.1 ht, World.now_next? hv]
        exact le_after _ _
    · rw [hadditions] at hone
      have hnil : slotTimes id agenda.entries = [] := List.length_eq_zero_iff.1 (by omega)
      refine ⟨s.silent, hget, ?_⟩
      rw [hlast, hspan]
      rw [hnil, List.nil_append] at hafter
      exact List.perm_singleton.1 hafter

theorem event (h : Clocked past w id) {limit : Instant} {e : Scheduled}
    (hv : w.next? limit = some (e, v)) : Clocked ((w, .event e) :: past) v id := by
  by_cases hticks : e.event.ticks? = some id
  · refine h.tick hv ?_
    cases he : e.event with
    | tick id' =>
      rw [he] at hticks
      cases hticks
      rfl
    | delivery | action => simp [he, Event.ticks?] at hticks
  · obtain ⟨agenda, plan, ha, -, hp⟩ := World.happens_next? hv
    have hpace := World.Effect.pace_eq hp.effect hticks
    refine h.pass rfl (if_neg hticks) ?_ hpace ?_
    · have hperm := perm_slotTimes_insertAll id agenda (numbered w.planned plan)
      rw [slotTimes_numbered_of_ne (hp.effect.ticks?_ne hticks), List.append_nil] at hperm
      rw [World.clocks, World.clocks, hp.agenda, ha, slotTimes_cons_of_ne hticks]
      exact hperm
    · intro t ht
      obtain ⟨d, hd, rfl⟩ := mem_slotTimes ht
      exact World.now_le_of_mem hv hd (h.ahead _ ht)

theorem add (h : Clocked past w id) (hv : w.add id = .ok v) :
    Clocked ((w, .deed (.add id)) :: past) v id := by
  have hadditions : additions ((w, .deed (.add id)) :: past) id = additions past id + 1 :=
    List.countP_cons_of_pos (by simp [adds, hv, Except.isOk, Except.toBool])
  have hlast : lastSlot? ((w, .deed (.add id)) :: past) id = lastSlot? past id := by
    rw [lastSlot?, List.findSome?_cons, slotBegun?, lastSlot?]
  obtain ⟨r, s, hr, hs, rfl⟩ := World.add_eq hv
  have hjoined : s.joined = w.now := by
    have hstart : r.joined = w.now := Resident.joined_start hr
    obtain rfl | ⟨p, rfl⟩ := hs
    · exact hstart
    · exact hstart
  have hget : (w.residents.insert id s).get? id = some s := by rw [Table.get?_insert, if_pos rfl]
  have hafter := perm_slotTimes id
    (w.agenda.perm_insert ⟨w.now, .ofNat w.planned, .tick id⟩)
  rw [slotTimes_cons_of_eq rfl] at hafter
  have hcount := h.count
  refine ⟨?_, ?_, fun t ht => ?_, fun hnone => by omega, fun hone => ⟨s, hget, ?_⟩⟩
  · rw [hadditions, ← hcount]
    exact hafter.length_eq
  · rw [hadditions, Table.contains]
    change (Option.isSome ((w.residents.insert id s).get? id)) = true ↔ _
    rw [hget]
    exact iff_of_true rfl (Nat.succ_pos _)
  · obtain rfl | ht := List.mem_cons.1 (hafter.mem_iff.1 ht)
    · exact UInt64.le_refl _
    · exact h.ahead t ht
  · have hnone : additions past id = 0 := by omega
    have hnil : slotTimes id w.agenda.entries = [] :=
      List.length_eq_zero_iff.1 (hcount.trans hnone)
    rw [hlast, h.idle hnone, Option.elim_none, hjoined]
    rw [hnil] at hafter
    exact List.perm_singleton.1 hafter

theorem undergo (h : Clocked past w id) {d : Deed} (hd : d.Scripted) :
    Clocked ((w, .deed d) :: past) (w.undergo d) id := by
  have hpass {v : World} (hadds : adds id (w, .deed d) = false)
      (hclocks : (v.clocks id).Perm (w.clocks id)) (hpace : v.pace? id = w.pace? id)
      (hnow : v.now = w.now) : Clocked ((w, .deed d) :: past) v id :=
    h.pass hadds rfl hclocks hpace fun t ht => hnow ▸ h.ahead t ht
  cases d with
  | add id' =>
    cases hv : w.add id' with
    | error e =>
      rw [World.undergo_add_of_error hv]
      refine hpass ?_ (.refl _) rfl rfl
      by_cases he : id' = id
      · rw [← he]
        simp [adds, hv, Except.isOk, Except.toBool]
      · simp [adds, he]
    | ok v =>
      rw [World.undergo_add_of_ok hv]
      by_cases he : id' = id
      · subst he
        exact h.add hv
      · obtain ⟨r, s, -, -, rfl⟩ := World.add_eq hv
        refine hpass (by simp [adds, he]) ?_ ?_ rfl
        · have hafter := perm_slotTimes id
            (w.agenda.perm_insert ⟨w.now, .ofNat w.planned, .tick id'⟩)
          rw [slotTimes_cons_of_ne (by simpa [Event.ticks?] using he)] at hafter
          exact hafter
        · change ((w.residents.insert id' s).get? id).map _ = _
          rw [Table.get?_insert, if_neg he]
          rfl
  | plan time event =>
    cases event with
    | action a =>
      have hne : (Event.action a).ticks? ≠ some id := by simp [Event.ticks?]
      have hafter := perm_slotTimes id
        (w.agenda.perm_insert ⟨time, .ofNat w.planned, .action a⟩)
      rw [slotTimes_cons_of_ne hne] at hafter
      exact hpass rfl hafter rfl rfl
    | delivery | tick => exact hd.elim
  | arrange | equip | watch | look => exact hpass rfl (.refl _) rfl rfl
  | operate | replace | takeFrames | takeTraces | takeNotices => exact hd.elim

theorem takes (h : Clocked past w id) {t : Turn} (ht : w.Takes Deed.Scripted t v) :
    Clocked ((w, t) :: past) v id := by
  cases ht with
  | deed d hd => exact h.undergo hd
  | event hv => exact h.event hv
  | @rest limit hn =>
    refine h.pass rfl rfl (.refl _) rfl fun t ht => ?_
    obtain ⟨e, he, rfl⟩ := mem_slotTimes ht
    have hlater := World.next?_eq_none_iff.1 hn e he
    have hahead := h.ahead _ ht
    change w.now.latest limit ≤ e.time
    rw [Instant.lt_iff_toNat] at hlater
    rw [Instant.le_iff_toNat] at hahead ⊢
    rw [Instant.toNat_latest]
    omega

end Clocked

/-- In every state of a simulation whose user adds nodes, changes what is around them and schedules
actions there is a slot planned for each time that a node was added, none of them overdue. A node
that was added once has its slots one after the other, each as long as the node decides at the
beginning; one that was added again has several series of slots at once. -/
theorem slots_planned {past : List (World × Turn)} {w : World}
    (h : Chronicle Deed.Scripted past w) (id : NodeId) : Clocked past w id := by
  induction h with
  | start seed hash => exact .start seed hash id
  | turn _ ht ih => exact ih.takes ht

/-- One node whose first slot has begun. -/
theorem slots_planned_for_single_node : ∃ past w, Chronicle Deed.Scripted past w ∧
    additions past 1 = 1 ∧ lastSlot? past 1 = some .zero ∧ w.clocks 1 = [⟨200⟩] ∧
    Clocked past w 1 := by
  have hadded : Chronicle Deed.Scripted _ _ :=
    (Chronicle.start 42 hashWord).turn (.deed (.add 1) trivial)
  have hbegun : Chronicle Deed.Scripted _ _ :=
    hadded.turn (.event (rfl : World.next? .zero _ = some (_, _)))
  exact ⟨_, _, hbegun, rfl, rfl, rfl, slots_planned hbegun 1⟩

/-- A node that is added while it is there has two slots planned. -/
theorem two_clocks_of_one_node : ∃ past w, Chronicle Deed.Scripted past w ∧
    w.residents.keys = [1] ∧ w.clocks 1 = [.zero, .zero] := by
  have hadded : Chronicle Deed.Scripted _ _ :=
    (Chronicle.start 42 hashWord).turn (.deed (.add 1) trivial)
  have hagain := hadded.turn (.deed (.add 1) trivial)
  exact ⟨_, _, hagain, rfl, rfl⟩

end Net
end ClusterMesh
