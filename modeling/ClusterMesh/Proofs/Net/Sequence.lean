import ClusterMesh.Proofs.Net.Story

/-! The order in which a run lets events happen. Events are numbered as they are scheduled, so
that no two of them are simultaneous, and what an event brings about comes after it: later, or
at the same time with a greater number. -/
namespace ClusterMesh.Net

/-! ## Numbers of events -/

def numbers (es : List Scheduled) : List Nat := es.map fun e => e.seq.toNat

theorem numbers_append (es fs : List Scheduled) :
    numbers (es ++ fs) = numbers es ++ numbers fs := List.map_append

/-- As long as the numbers last, new events have those that follow. -/
theorem numbers_numbered {n : Nat} {plan : List (Instant × Event)}
    (h : n + plan.length ≤ UInt64.size) :
    numbers (numbered n plan) = List.range' n plan.length := by
  induction plan generalizing n with
  | nil => rfl
  | cons p plan ih =>
    rw [List.length_cons] at h
    have hn : (UInt64.ofNat n).toNat = n := UInt64.toNat_ofNat_of_lt' (by omega)
    rw [numbered, numbers, List.map_cons, hn, List.length_cons, List.range'_succ, ← ih (by omega)]
    rfl

theorem mem_numbered {n : Nat} {plan : List (Instant × Event)} {e : Scheduled}
    (h : e ∈ numbered n plan) : (e.time, e.event) ∈ plan := by
  induction plan generalizing n with
  | nil => cases h
  | cons p plan ih =>
    obtain rfl | h := List.mem_cons.1 h
    · exact List.mem_cons_self
    · exact List.mem_cons_of_mem p (ih h)

namespace World
variable {limit : Instant}

/-! ## What a simulation keeps -/

/-- As long as the numbers last, pending events have different ones, all of them given out
before. Snapshots stand in the order of their times, none of which is ahead. -/
structure Orderly (w : World) : Prop where
  given : w.planned ≤ UInt64.size → ∀ n ∈ numbers w.agenda.entries, n < w.planned
  distinct : w.planned ≤ UInt64.size → (numbers w.agenda.entries).Nodup
  past : ∀ s ∈ w.history.snapshots, s.time ≤ w.now
  inOrder : w.history.snapshots.toList.Pairwise fun s t => s.time ≤ t.time

theorem orderly_ofSeed (seed : UInt64) (hash : Hash) : (ofSeed seed hash).Orderly :=
  ⟨fun _ _ h => absurd h List.not_mem_nil, fun _ => List.nodup_nil,
    fun _ h => absurd h (Array.not_mem_empty _), .nil⟩

theorem Progress.perm_numbers {w v : World} {es : List Scheduled} {plan : List (Instant × Event)}
    (h : w.Progress es v plan) (hv : v.planned ≤ UInt64.size) :
    (numbers (es ++ v.agenda.entries)).Perm
      (numbers w.agenda.entries ++ List.range' w.planned plan.length) := by
  rw [← numbers_numbered (h.planned ▸ hv), ← numbers_append]
  exact h.entries.map _

/-- Events done and events pending have different numbers. -/
theorem Progress.nodup {w v : World} {es : List Scheduled} {plan : List (Instant × Event)}
    (h : w.Progress es v plan) (hw : w.Orderly) (hv : v.planned ≤ UInt64.size) :
    (numbers (es ++ v.agenda.entries)).Nodup := by
  have hle : w.planned ≤ UInt64.size := by
    have hplanned := h.planned
    omega
  rw [(h.perm_numbers hv).nodup_iff, List.nodup_append]
  refine ⟨hw.distinct hle, List.nodup_range', fun n hn m hm he => ?_⟩
  have hlt := hw.given hle n hn
  have hge := (List.mem_range'_1.1 hm).1
  omega

theorem Orderly.progress {w v : World} {es : List Scheduled} {plan : List (Instant × Event)}
    (h : w.Orderly) (hp : w.Progress es v plan) : v.Orderly := by
  obtain ⟨added, hadded, htimes, hsorted⟩ := hp.snapshots
  refine ⟨fun hv n hn => ?_, fun hv => ?_, fun s hs => ?_, ?_⟩
  · have hplanned := hp.planned
    have hmem : n ∈ numbers (es ++ v.agenda.entries) := by
      rw [numbers_append]
      exact List.mem_append_right _ hn
    obtain hold | hnew := List.mem_append.1 ((hp.perm_numbers hv).mem_iff.1 hmem)
    · have hlt := h.given (by omega) n hold
      omega
    · have hlt := (List.mem_range'_1.1 hnew).2
      omega
  · have hnodup := hp.nodup h hv
    rw [numbers_append, List.nodup_append] at hnodup
    exact hnodup.2.1
  · rw [hadded] at hs
    obtain hs | hs := Array.mem_append.1 hs
    · exact UInt64.le_trans (h.past s hs) hp.now
    · exact (htimes s hs).2
  · rw [hadded, Array.toList_append, List.pairwise_append]
    refine ⟨h.inOrder, hsorted, fun s hs t ht => ?_⟩
    exact UInt64.le_trans (h.past s (Array.mem_toList_iff.1 hs))
      (htimes t (Array.mem_toList_iff.1 ht)).1

/-! ## Moves -/

theorem progress_planAll (w : World) (plan : List (Instant × Event)) :
    w.Progress [] (w.planAll plan) plan := by
  refine ⟨rfl, ?_, UInt64.le_refl _, #[], by simp [planAll]⟩
  exact perm_insertAll w.agenda _

theorem progress_takeSnapshot (w : World) {now : Instant} (h : w.now ≤ now) :
    w.Progress [] { w with now }.takeSnapshot [] := by
  refine ⟨rfl, by simp [numbered, takeSnapshot], h, #[{ w with now }.snapshot], rfl, ?_, ?_⟩
  · intro s hs
    rw [Array.mem_singleton.1 hs]
    exact ⟨h, UInt64.le_refl _⟩
  · exact List.pairwise_singleton _ _

theorem progress_settle (w : World) (limit : Instant) : w.Progress [] (w.settle limit) [] := by
  refine w.progress_takeSnapshot ?_
  rw [Instant.le_iff_toNat, Instant.toNat_latest]
  omega

/-- A deed plans nothing but what the user schedules and the first slot of a node. -/
theorem progress_undergo (w : World) (d : Deed) : ∃ plan, w.Progress [] (w.undergo d) plan ∧
    ∀ p ∈ plan, d = .plan p.1 p.2 ∨ ∃ id, p.2 = .tick id := by
  have hrefl := progress_refl w
  cases d with
  | add id =>
    cases hv : w.add id with
    | error e =>
      refine ⟨[], ?_, nofun⟩
      rw [undergo_add_of_error hv]
      exact hrefl
    | ok v =>
      obtain ⟨r, s, -, -, rfl⟩ := add_eq hv
      have hp := progress_planAll { w with residents := w.residents.insert id s }
        [(w.now, .tick id)]
      refine ⟨[(w.now, .tick id)], ?_, fun p hmem => .inr ⟨id, ?_⟩⟩
      · rw [undergo_add_of_ok hv]
        exact ⟨hp.planned, hp.entries, hp.now, hp.snapshots⟩
      · rw [List.mem_singleton.1 hmem]
  | plan time event =>
    refine ⟨_, w.progress_planAll [(time, event)], fun p hmem => .inl ?_⟩
    rw [List.mem_singleton.1 hmem]
  | look => exact ⟨[], w.progress_takeSnapshot (UInt64.le_refl _), nofun⟩
  | _ => exact ⟨[], ⟨hrefl.planned, hrefl.entries, hrefl.now, hrefl.snapshots⟩, nofun⟩

theorem Moves.progress {allowed : Deed → Prop} {w v : World} (h : w.Moves allowed v) :
    ∃ es plan, w.Progress es v plan := by
  cases h with
  | deed d hd =>
    obtain ⟨plan, hp, -⟩ := w.progress_undergo d
    exact ⟨[], plan, hp⟩
  | event hv =>
    obtain ⟨plan, hp, -⟩ := progress_next? hv
    exact ⟨_, plan, hp⟩
  | rest => exact ⟨[], [], w.progress_settle _⟩

end World

theorem Story.orderly {allowed : Deed → Prop} {ws : List World} (h : Story allowed ws) :
    ∀ w ∈ ws, w.Orderly :=
  h.keeps World.orderly_ofSeed fun hw hm => by
    obtain ⟨es, plan, hp⟩ := hm.progress
    exact hw.progress hp

namespace World
variable {limit : Instant}

/-! ## Courses -/

/-- What happens after an event comes after it, whether it was pending then or came up later. -/
theorem before_of_mem_course {w u v : World} {e f : Scheduled} {es : List Scheduled}
    (hw : w.Orderly) (hu : w.next? limit = some (e, u)) (h : Passes limit u es v)
    (hv : v.planned ≤ UInt64.size) (hf : f ∈ es) : e.before f := by
  obtain ⟨p, hp, hpl⟩ := progress_next? hu
  obtain ⟨q, hq, hql⟩ := progress_passes h
  have hall := hp.trans hq
  have hplanned := hall.planned
  have hnodup := hall.nodup hw hv
  have hnumber : e.seq.toNat ≠ f.seq.toNat := by
    rw [numbers_append, List.nodup_append, numbers, List.singleton_append, List.map_cons,
      List.nodup_cons] at hnodup
    exact fun he => hnodup.1.1 (he ▸ List.mem_map_of_mem hf)
  obtain ⟨agenda, hd, -⟩ := next?_eq_some_iff.1 hu
  have hmem : f ∈ w.agenda.entries ++ numbered w.planned (p ++ q) :=
    hall.entries.mem_iff.1 (List.mem_append_left _ (List.mem_cons_of_mem e hf))
  rw [Scheduled.before_iff]
  obtain hold | hnew := List.mem_append.1 hmem
  · have hnot := Agenda.not_before_of_due? hd hold
    rw [Scheduled.before_iff] at hnot
    omega
  · -- it was planned at or after the time of the first one, and with a later number
    have hlater : u.now ≤ f.time := by
      obtain hin | hin := List.mem_append.1 (mem_numbered hnew)
      · exact hpl _ hin
      · exact hql _ hin
    have hgreater : w.planned ≤ f.seq.toNat := by
      have hin : f.seq.toNat ∈ numbers (numbered w.planned (p ++ q)) := List.mem_map_of_mem hnew
      rw [numbers_numbered (hplanned ▸ hv)] at hin
      exact (List.mem_range'_1.1 hin).1
    have hgiven : e.seq.toNat < w.planned := by
      obtain ⟨ha, -⟩ := Agenda.due?_eq_some_iff.1 hd
      have hin : e.seq.toNat ∈ numbers w.agenda.entries :=
        List.mem_map_of_mem (ha ▸ List.mem_cons_self)
      exact hw.given (by omega) _ hin
    rw [now_next? hu, Instant.le_iff_toNat, Instant.toNat_latest] at hlater
    omega

theorem Passes.pairwise_before {w v : World} {es : List Scheduled} (h : Passes limit w es v)
    (hw : w.Orderly) (hv : v.planned ≤ UInt64.size) : es.Pairwise Scheduled.before := by
  induction es generalizing w with
  | nil => exact .nil
  | cons e es ih =>
    obtain ⟨u, hu, hes⟩ := h
    obtain ⟨p, hp, -⟩ := progress_next? hu
    exact List.pairwise_cons.2
      ⟨fun f hf => before_of_mem_course hw hu hes hv hf, ih hes (hw.progress hp)⟩

theorem Passes.le_limit {w v : World} {es : List Scheduled} (h : Passes limit w es v) :
    ∀ e ∈ es, e.time ≤ limit := by
  induction es generalizing w with
  | nil => nofun
  | cons e es ih =>
    obtain ⟨u, hu, hes⟩ := h
    obtain ⟨-, -, -, he, -⟩ := happens_next? hu
    intro f hf
    obtain rfl | hf := List.mem_cons.1 hf
    · exact he
    · exact ih hes f hf

/-- Each event of a course is a most urgent one of those that are pending. -/
theorem Passes.isLE {w v : World} {fs gs : List Scheduled} {e : Scheduled}
    (h : Passes limit w (fs ++ e :: gs) v) :
    ∃ u, Passes limit w fs u ∧ e ∈ u.agenda.entries ∧
      ∀ d ∈ u.agenda.entries, (d.compareUrgency e).isLE = true := by
  obtain ⟨u, hu, x, he, -⟩ := passes_append.1 h
  obtain ⟨agenda, hd, -⟩ := next?_eq_some_iff.1 he
  obtain ⟨ha, -⟩ := Agenda.due?_eq_some_iff.1 hd
  refine ⟨u, hu, ha ▸ List.mem_cons_self, fun d hmem => ?_⟩
  exact (Scheduled.isLE_compareUrgency_iff d e).2 (Agenda.not_before_of_due? hd hmem)

/-! ## Runs -/

/-- A run up to a limit leads from one network to the other. These events happen on the way, one
by one, and this is planned meanwhile. -/
structure RunsInOrder (limit : Instant) (w : World) (es : List Scheduled)
    (plan : List (Instant × Event)) (v : World) : Prop where
  course : ∃ u, Passes limit w es u ∧ v = u.settle limit
  entries : (es ++ v.agenda.entries).Perm (w.agenda.entries ++ numbered w.planned plan)
  due : ∀ e ∈ es, e.time ≤ limit
  later : ∀ e ∈ v.agenda.entries, limit < e.time
  strict : es.Pairwise Scheduled.before
  /-- Each event is a most urgent one of those that are pending when it comes. -/
  urgent : ∀ fs e gs, es = fs ++ e :: gs → ∃ u, Passes limit w fs u ∧ e ∈ u.agenda.entries ∧
    ∀ d ∈ u.agenda.entries, (d.compareUrgency e).isLE = true
  clock : ∀ fs gs t u, Passes limit w fs t → Passes limit t gs u → t.now ≤ u.now ∧ u.now ≤ v.now
  now : v.now = w.now.latest limit
  snapshots : v.history.snapshots.toList.Pairwise fun s t => s.time ≤ t.time

/-- A run in a simulation that has numbers left lets exactly those events happen that are due by
its limit, those included that come up on the way, in the strict order of time and number. The
urgency that it goes by is a total order in which only simultaneous events are equal. -/
theorem run_in_order {w v : World} {o : Outcome} (h : w.Reachable)
    (hr : w.runUntil limit = some (o, v)) (hv : v.planned ≤ UInt64.size) :
    (∃ es plan, RunsInOrder limit w es plan v) ∧ o = v.outcome ∧
      Std.TransCmp Scheduled.compareUrgency ∧
      ∀ a b : Scheduled, a.compareUrgency b = .eq ↔ a.simultaneous b = true := by
  obtain ⟨past, hpast⟩ := h
  have hw := hpast.orderly w List.mem_cons_self
  obtain ⟨es, u, hes, hu, rfl, rfl⟩ := runUntil_eq_some_iff.1 hr
  obtain ⟨plan, hp, -⟩ := progress_passes hes
  have hend := u.progress_settle limit
  have hlater : ∀ e ∈ u.agenda.entries, limit < e.time := next?_eq_none_iff.1 hu
  have hnow : u.now.latest limit = w.now.latest limit := by
    have hle := hes.now_le
    have hge := hp.now
    apply Instant.eq_of_toNat
    simp only [Instant.le_iff_toNat, Instant.toNat_latest] at *
    omega
  have hclock : ∀ fs gs s t, Passes limit w fs s → Passes limit s gs t →
      s.now ≤ t.now ∧ t.now ≤ u.now.latest limit := by
    intro fs gs s t hs ht
    obtain ⟨q, hq, -⟩ := progress_passes ht
    have hle := (passes_append.2 ⟨s, hs, ht⟩).now_le
    rw [← hnow] at hle
    exact ⟨hq.now, hle⟩
  refine ⟨⟨es, plan, ⟨u, hes, rfl⟩, hp.entries, hes.le_limit, hlater, hes.pairwise_before hw hv,
    ?_, hclock, hnow, ((hw.progress hp).progress hend).inOrder⟩, rfl, inferInstance,
    Scheduled.compareUrgency_eq_eq_iff⟩
  rintro fs e gs rfl
  exact hes.isLE

/-- Two actions are scheduled for the same time, which has passed, and a disabled node has a
slot: three events are due, and the next slot of the node stays pending. -/
theorem run_in_order_after_rest :
    let w := (((((World.ofSeed 42).settle ⟨150⟩).undergo (.plan ⟨100⟩ (.action .heal))).undergo
      (.plan ⟨100⟩ (.action .snapshot))).undergo (.add 1)).undergo (.operate 1 .disable)
    let limit : Instant := ⟨200⟩
    let due : List Scheduled :=
      [⟨⟨100⟩, 0, .action .heal⟩, ⟨⟨100⟩, 1, .action .snapshot⟩, ⟨⟨150⟩, 2, .tick 1⟩]
    ∃ o v, w.Reachable ∧ w.runUntil limit = some (o, v) ∧ v.planned ≤ UInt64.size ∧
      (∃ u, Passes limit w due u ∧ v = u.settle limit) ∧
      v.agenda.entries = [⟨⟨350⟩, 3, .tick 1⟩] ∧
      (∃ es plan, RunsInOrder limit w es plan v) ∧ o = v.outcome ∧
      Std.TransCmp Scheduled.compareUrgency ∧
      ∀ a b : Scheduled, a.compareUrgency b = .eq ↔ a.simultaneous b = true := by
  intro w limit due
  have hrest : ((World.ofSeed 42).settle ⟨150⟩).Reachable :=
    (reachable_ofSeed 42 hashWord).settle rfl
  have hw : w.Reachable := (((hrest.undergo _).undergo _).undergo _).undergo _
  have hslot : (⟨150⟩ : Instant).after ⟨200⟩ = ⟨350⟩ := by decide
  obtain ⟨u, hu, hpending, hplanned⟩ : ∃ u, Passes limit w due u ∧
      u.agenda.entries = [⟨⟨350⟩, 3, .tick 1⟩] ∧ u.planned = 4 := by
    rw [← hslot]
    exact ⟨_, ⟨_, rfl, _, rfl, _, rfl, rfl⟩, rfl, rfl⟩
  have hnext : u.next? limit = none := by
    rw [next?_eq_none_iff, hpending]
    decide
  have hr : w.runUntil limit = some ((u.settle limit).outcome, u.settle limit) :=
    runUntil_eq_some_iff.2 ⟨due, u, hu, hnext, rfl, rfl⟩
  have hv : (u.settle limit).planned ≤ UInt64.size := by
    change u.planned ≤ UInt64.size
    rw [hplanned]
    decide
  exact ⟨_, _, hw, hr, hv, ⟨u, hu, rfl⟩, hpending, run_in_order hw hr hv⟩

end World
end ClusterMesh.Net
