import ClusterMesh.Proofs.Net.Agenda
import ClusterMesh.Proofs.Net.Happen

/-! The course of a run: the events that it takes off the agenda, one by one. A run has a
result exactly if its course comes to an end, and from one moment of a course to a later one
events are done or still pending, the clock and the snapshots only go on. -/
namespace ClusterMesh.Net.World
variable {limit : Instant}

/-! ## One event -/

theorem next?_eq_some_iff {w v : World} {e : Scheduled} :
    w.next? limit = some (e, v) ↔
      ∃ agenda, w.agenda.due? limit = some (e, agenda) ∧ v = { w with agenda }.happen e := by
  unfold next?
  rw [Option.map_eq_some_iff]
  constructor
  · rintro ⟨⟨e, agenda⟩, hd, he⟩
    cases he
    exact ⟨agenda, hd, rfl⟩
  · rintro ⟨agenda, hd, rfl⟩
    exact ⟨(e, agenda), hd, rfl⟩

theorem next?_eq_none_iff {w : World} :
    w.next? limit = none ↔ ∀ e ∈ w.agenda.entries, limit < e.time := by
  rw [next?, Option.map_eq_none_iff, Agenda.due?_eq_none_iff]

/-- The event that is due is the first entry of the agenda, and happens to the network that has
all others on its agenda. -/
theorem happens_next? {w v : World} {e : Scheduled} (h : w.next? limit = some (e, v)) :
    ∃ agenda plan, w.agenda.entries = e :: agenda.entries ∧ e.time ≤ limit ∧
      ({ w with agenda }.advanceTo e.time).Happens e.event v plan := by
  obtain ⟨agenda, hd, rfl⟩ := next?_eq_some_iff.1 h
  obtain ⟨ha, he⟩ := Agenda.due?_eq_some_iff.1 hd
  obtain ⟨plan, hp⟩ := happens_happen { w with agenda } e
  exact ⟨agenda, plan, ha, he, hp⟩

/-! ## Courses -/

/-- The events happen in turn, each being the first that is due, and lead from one network to
the other. -/
def Passes (limit : Instant) : World → List Scheduled → World → Prop
  | w, [], v => v = w
  | w, e :: es, v => ∃ u, w.next? limit = some (e, u) ∧ Passes limit u es v

theorem passes_append {w v : World} {es fs : List Scheduled} :
    Passes limit w (es ++ fs) v ↔ ∃ u, Passes limit w es u ∧ Passes limit u fs v := by
  induction es generalizing w with
  | nil => simp [Passes]
  | cons e es ih =>
    simp only [List.cons_append, Passes, ih]
    constructor
    · rintro ⟨t, ht, u, hu, hv⟩
      exact ⟨u, ⟨t, ht, hu⟩, hv⟩
    · rintro ⟨u, ⟨t, ht, hu⟩, hv⟩
      exact ⟨t, ht, u, hu, hv⟩

theorem round_of_none {w : World} (h : w.next? limit = none) : w.round limit = .inr w := by
  rw [round, h]

theorem round_of_some {w v : World} {e : Scheduled} (h : w.next? limit = some (e, v)) :
    w.round limit = .inl v := by
  rw [round, h]

theorem drain_of_none {w : World} (h : w.next? limit = none) : w.drain limit = some w :=
  Loop.result?_of_inr (round_of_none h)

theorem drain_of_some {w v : World} {e : Scheduled} (h : w.next? limit = some (e, v)) :
    w.drain limit = v.drain limit :=
  Loop.result?_of_inl (round_of_some h)

theorem Passes.drain {w v : World} {es : List Scheduled} (h : Passes limit w es v) :
    w.drain limit = v.drain limit := by
  induction es generalizing w with
  | nil => rw [h]
  | cons e es ih =>
    obtain ⟨u, hu, hv⟩ := h
    exact (drain_of_some hu).trans (ih hv)

/-- A run has a result exactly if finitely many events lead to where nothing is due. -/
theorem drain_eq_some_iff {w v : World} :
    w.drain limit = some v ↔ ∃ es, Passes limit w es v ∧ v.next? limit = none := by
  constructor
  · intro h
    have hends := Loop.result?_eq_some_iff.1 h
    clear h
    induction hends with
    | @done w v hr =>
      cases hn : w.next? limit with
      | none =>
        cases (round_of_none hn).symm.trans hr
        exact ⟨[], rfl, hn⟩
      | some due => cases (round_of_some hn).symm.trans hr
    | @next w u v hr _ ih =>
      obtain ⟨es, hes, hv⟩ := ih
      cases hn : w.next? limit with
      | none => cases (round_of_none hn).symm.trans hr
      | some due =>
        cases (round_of_some hn).symm.trans hr
        exact ⟨due.1 :: es, ⟨due.2, hn, hes⟩, hv⟩
  · rintro ⟨es, hes, hv⟩
    exact hes.drain.trans (drain_of_none hv)

theorem runUntil_eq_some_iff {w v : World} {o : Outcome} :
    w.runUntil limit = some (o, v) ↔
      ∃ es u, Passes limit w es u ∧ u.next? limit = none ∧ v = u.settle limit ∧
        o = v.outcome := by
  unfold runUntil
  rw [Option.map_eq_some_iff]
  constructor
  · rintro ⟨u, hu, he⟩
    obtain ⟨es, hes, hn⟩ := drain_eq_some_iff.1 hu
    cases he
    exact ⟨es, u, hes, hn, rfl, rfl⟩
  · rintro ⟨es, u, hes, hn, rfl, rfl⟩
    exact ⟨u, drain_eq_some_iff.2 ⟨es, hes, hn⟩, rfl⟩

/-- What happens within a limit happens within a later one. -/
theorem Passes.extend {w v : World} {es : List Scheduled} (h : Passes limit w es v)
    {limit' : Instant} (hl : limit ≤ limit') : Passes limit' w es v := by
  induction es generalizing w with
  | nil => exact h
  | cons e es ih =>
    obtain ⟨u, hu, hv⟩ := h
    obtain ⟨agenda, hd, rfl⟩ := next?_eq_some_iff.1 hu
    obtain ⟨ha, he⟩ := Agenda.due?_eq_some_iff.1 hd
    refine ⟨_, next?_eq_some_iff.2 ⟨agenda, Agenda.due?_eq_some_iff.2 ⟨ha, ?_⟩, rfl⟩, ih hv⟩
    rw [Instant.le_iff_toNat] at *
    omega

def goOn (limit : Instant) : Nat → World → World
  | 0, w => w
  | n + 1, w =>
    match w.next? limit with
    | none => w
    | some (_, v) => v.goOn limit n

theorem passes_goOn (limit : Instant) (n : Nat) (w : World) :
    ∃ es, Passes limit w es (w.goOn limit n) := by
  induction n generalizing w with
  | zero => exact ⟨[], rfl⟩
  | succ n ih =>
    rw [goOn]
    cases hn : w.next? limit with
    | none => exact ⟨[], rfl⟩
    | some due =>
      obtain ⟨es, hes⟩ := ih due.2
      exact ⟨due.1 :: es, due.2, hn, hes⟩

/-! ## What a course keeps -/

theorem perm_insertAll (a : Agenda) (es : List Scheduled) :
    (a.insertAll es).entries.Perm (a.entries ++ es) := by
  induction es generalizing a with
  | nil => simp [Agenda.insertAll]
  | cons e es ih =>
    have hi := ih (a.insert e)
    have he := (a.perm_insert e).append_right es
    exact (hi.trans he).trans List.perm_middle.symm

/-- From the first network to the second one the events have been done, and those of the plan
have come up. -/
structure Progress (w : World) (es : List Scheduled) (v : World)
    (plan : List (Instant × Event)) : Prop where
  planned : v.planned = w.planned + plan.length
  entries : (es ++ v.agenda.entries).Perm (w.agenda.entries ++ numbered w.planned plan)
  now : w.now ≤ v.now
  snapshots : ∃ added, v.history.snapshots = w.history.snapshots ++ added ∧
    (∀ s ∈ added, w.now ≤ s.time ∧ s.time ≤ v.now) ∧
    added.toList.Pairwise fun s t => s.time ≤ t.time

theorem progress_refl (w : World) : w.Progress [] w [] :=
  ⟨rfl, by simp [numbered], UInt64.le_refl _, #[], by simp⟩

theorem Progress.trans {u v w : World} {es fs : List Scheduled} {p q : List (Instant × Event)}
    (h : u.Progress es v p) (k : v.Progress fs w q) : u.Progress (es ++ fs) w (p ++ q) := by
  have hle {a b c : Instant} (h : a ≤ b) (k : b ≤ c) : a ≤ c := UInt64.le_trans h k
  refine ⟨?_, ?_, hle h.now k.now, ?_⟩
  · rw [k.planned, h.planned, List.length_append, Nat.add_assoc]
  · rw [numbered_append, ← h.planned, List.append_assoc, ← List.append_assoc u.agenda.entries]
    calc
      (es ++ (fs ++ w.agenda.entries)).Perm (es ++ (v.agenda.entries ++ numbered v.planned q)) :=
        k.entries.append_left es
      _ = es ++ v.agenda.entries ++ numbered v.planned q := (List.append_assoc ..).symm
      List.Perm _ _ := h.entries.append_right _
  · obtain ⟨a, ha, hat, hap⟩ := h.snapshots
    obtain ⟨b, hb, hbt, hbp⟩ := k.snapshots
    refine ⟨a ++ b, by rw [hb, ha, Array.append_assoc], fun s hs => ?_, ?_⟩
    · obtain hs | hs := Array.mem_append.1 hs
      · exact ⟨(hat s hs).1, hle (hat s hs).2 k.now⟩
      · exact ⟨hle h.now (hbt s hs).1, (hbt s hs).2⟩
    · rw [Array.toList_append, List.pairwise_append]
      refine ⟨hap, hbp, fun s hs t ht => ?_⟩
      exact hle (hat s (Array.mem_toList_iff.1 hs)).2 (hbt t (Array.mem_toList_iff.1 ht)).1

theorem Happens.progress {w v : World} {e : Scheduled} {agenda : Agenda}
    {plan : List (Instant × Event)} (ha : w.agenda.entries = e :: agenda.entries)
    (h : ({ w with agenda }.advanceTo e.time).Happens e.event v plan) : w.Progress [e] v plan := by
  have hnow : w.now ≤ v.now := by
    rw [h.now, Instant.le_iff_toNat]
    change _ ≤ (w.now.latest e.time).ms.toNat
    rw [Instant.toNat_latest]
    omega
  refine ⟨h.planned, ?_, hnow, ?_⟩
  · rw [h.agenda, ha]
    exact (perm_insertAll agenda _).cons e
  · obtain ⟨n, hn⟩ := h.snapshots
    refine ⟨_, hn, fun s hs => ?_, ?_⟩
    · rw [Array.eq_of_mem_replicate hs]
      exact ⟨hnow, UInt64.le_refl _⟩
    · rw [Array.toList_replicate, List.pairwise_replicate]
      exact .inr (UInt64.le_refl _)

theorem progress_next? {w v : World} {e : Scheduled} (h : w.next? limit = some (e, v)) :
    ∃ plan, w.Progress [e] v plan ∧ ∀ p ∈ plan, v.now ≤ p.1 := by
  obtain ⟨agenda, plan, ha, -, hp⟩ := happens_next? h
  refine ⟨plan, hp.progress ha, fun p hmem => ?_⟩
  rw [hp.now]
  exact hp.effect.le_of_mem hmem

/-- Nothing is planned for a time before the course began. -/
theorem progress_passes {w v : World} {es : List Scheduled} (h : Passes limit w es v) :
    ∃ plan, w.Progress es v plan ∧ ∀ p ∈ plan, w.now ≤ p.1 := by
  induction es generalizing w with
  | nil =>
    rw [h]
    exact ⟨[], progress_refl w, nofun⟩
  | cons e es ih =>
    obtain ⟨u, hu, hv⟩ := h
    obtain ⟨p, hp, hpl⟩ := progress_next? hu
    obtain ⟨q, hq, hql⟩ := ih hv
    refine ⟨p ++ q, hp.trans hq, fun a ha => UInt64.le_trans hp.now ?_⟩
    obtain ha | ha := List.mem_append.1 ha
    · exact hpl a ha
    · exact hql a ha

/-! ## The clock -/

/-- The clock goes to the time of each event, unless it is there already. -/
theorem now_next? {w v : World} {e : Scheduled} (h : w.next? limit = some (e, v)) :
    v.now = w.now.latest e.time := by
  obtain ⟨agenda, plan, -, -, hp⟩ := happens_next? h
  exact hp.now

theorem Passes.now_le {w v : World} {es : List Scheduled} (h : Passes limit w es v) :
    v.now ≤ w.now.latest limit := by
  induction es generalizing w with
  | nil =>
    rw [h, Instant.le_iff_toNat, Instant.toNat_latest]
    omega
  | cons e es ih =>
    obtain ⟨u, hu, hv⟩ := h
    obtain ⟨agenda, plan, -, he, hp⟩ := happens_next? hu
    have hle := ih hv
    rw [now_next? hu] at hle
    simp only [Instant.le_iff_toNat, Instant.toNat_latest] at *
    omega

end ClusterMesh.Net.World
