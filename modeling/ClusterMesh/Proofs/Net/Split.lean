import ClusterMesh.Proofs.Net.Ending

/-! A run in two parts. The snapshots taken before play no part in what happens, and the clock
of a network at rest only matters until the next event, so that a run may stop on its way and
go on: all that is left of the stop is a snapshot. -/
namespace ClusterMesh.Net.World

def withSnapshots (w : World) (snapshots : Array Snapshot) : World :=
  { w with history := { w.history with snapshots } }

def onto (w : World) (before : Array Snapshot) : World :=
  w.withSnapshots (before ++ w.history.snapshots)

theorem withSnapshots_onto (w : World) :
    (w.withSnapshots #[]).onto w.history.snapshots = w := by
  unfold onto
  exact congrArg w.withSnapshots Array.append_empty

/-! ## Snapshots that were taken before -/

section onto
variable (w : World) (before : Array Snapshot)

theorem takeSnapshot_onto : (w.onto before).takeSnapshot = w.takeSnapshot.onto before := by
  have hpush : (before ++ w.history.snapshots).push w.snapshot =
      before ++ w.history.snapshots.push w.snapshot := Array.append_push.symm
  exact congrArg w.withSnapshots hpush

theorem snapshotIfDue_onto :
    (w.onto before).snapshotIfDue = w.snapshotIfDue.onto before := by
  have hnext : (w.onto before).nextSnapshot? = w.nextSnapshot? := rfl
  unfold snapshotIfDue
  rw [hnext]
  cases w.nextSnapshot? with
  | none => rfl
  | some next =>
    dsimp only
    by_cases hdue : next ≤ w.now
    · have hdue' : next ≤ (w.onto before).now := hdue
      rw [if_pos hdue, if_pos hdue', takeSnapshot_onto]
      rfl
    · have hdue' : ¬ next ≤ (w.onto before).now := hdue
      rw [if_neg hdue, if_neg hdue']

theorem survives_onto (l : Link) :
    (w.onto before).survives l = ((w.survives l).1, (w.survives l).2.onto before) := by
  have hdraw : (w.onto before).draw = (w.draw.1, w.draw.2.onto before) := rfl
  unfold survives
  rw [hdraw]
  generalize w.draw = d
  obtain ⟨draw, u⟩ := d
  dsimp only
  split
  · split
    · rfl
    · rfl
  · rfl

theorem reached_onto (sender : NodeId) (ns : List NodeId) :
    (w.onto before).reached sender ns =
      ((w.reached sender ns).1, (w.reached sender ns).2.onto before) := by
  induction ns generalizing w with
  | nil => rfl
  | cons n ns ih =>
    have hlink : (w.onto before).topology = w.topology := rfl
    unfold reached
    rw [hlink]
    cases w.topology.link? sender n with
    | none => exact ih w
    | some l =>
      dsimp only
      rw [survives_onto, ih]

theorem broadcast_onto (sender : NodeId) (bytes : List UInt8) :
    (w.onto before).broadcast sender bytes = (w.broadcast sender bytes).onto before := by
  have hcopies : (w.onto before).copies sender =
      ((w.copies sender).1, (w.copies sender).2.onto before) :=
    reached_onto w.sending before sender (w.topology.neighbors sender)
  rw [broadcast_eq, broadcast_eq, hcopies]
  rfl

theorem broadcasts_onto (sender : NodeId) (frames : List (List UInt8)) :
    frames.foldl (fun w bytes => w.broadcast sender bytes) (w.onto before) =
      (frames.foldl (fun w bytes => w.broadcast sender bytes) w).onto before := by
  induction frames generalizing w with
  | nil => rfl
  | cons bytes frames ih =>
    rw [List.foldl_cons, List.foldl_cons, broadcast_onto, ih]

theorem collect_onto (id : NodeId) : (w.onto before).collect id = (w.collect id).onto before := by
  have hresidents : (w.onto before).residents = w.residents := rfl
  unfold collect
  rw [hresidents]
  cases w.residents.get? id with
  | none => rfl
  | some r =>
    exact broadcasts_onto { w with residents := w.residents.insert id r.silent } before id r.frames

theorem deliver_onto (target : NodeId) (bytes : List UInt8) (rssi : Int8) :
    (w.onto before).deliver target bytes rssi = (w.deliver target bytes rssi).onto before := by
  have hresidents : (w.onto before).residents = w.residents := rfl
  unfold deliver
  rw [hresidents]
  cases w.residents.get? target with
  | none => rfl
  | some r =>
    dsimp only
    rw [← collect_onto]
    have hnow : (w.onto before).now = w.now := rfl
    rw [hnow]
    cases (r.station.receiveBytes bytes rssi w.now).1 with
    | ok | error => rfl

theorem fireTick_onto (id : NodeId) :
    (w.onto before).fireTick id = (w.fireTick id).onto before := by
  have hresidents : (w.onto before).residents = w.residents := rfl
  unfold fireTick
  rw [hresidents]
  cases hr : w.residents.get? id with
  | none => rfl
  | some r =>
    let t : World := { w with residents := w.residents.insert id (r.act (.tick w.now)) }
    have hcollect : (t.onto before).collect id = (t.collect id).onto before :=
      collect_onto t before id
    exact congrArg (schedule · _ _) hcollect

theorem perform_onto (a : Action) : (w.onto before).perform a = (w.perform a).onto before := by
  cases a with
  | snapshot => exact takeSnapshot_onto w before
  | _ => rfl

theorem happen_onto (e : Scheduled) : (w.onto before).happen e = (w.happen e).onto before := by
  have hhandle : ((w.advanceTo e.time).onto before).handle e.event =
      ((w.advanceTo e.time).handle e.event).onto before := by
    cases e.event with
    | delivery target sender bytes rssi => exact deliver_onto ..
    | tick id => exact fireTick_onto ..
    | action a => exact perform_onto ..
  unfold happen
  rw [← snapshotIfDue_onto, ← hhandle]
  rfl

theorem settle_onto (limit : Instant) :
    (w.onto before).settle limit = (w.settle limit).onto before :=
  takeSnapshot_onto (w.advanceTo limit) before

theorem next?_onto (limit : Instant) :
    (w.onto before).next? limit = (w.next? limit).map fun due => (due.1, due.2.onto before) := by
  have hagenda : (w.onto before).agenda = w.agenda := rfl
  unfold next?
  rw [hagenda, Option.map_map]
  refine congrArg (fun f => (w.agenda.due? limit).map f) (funext fun due => ?_)
  exact congrArg (Prod.mk due.1) (happen_onto { w with agenda := due.2 } before due.1)

end onto

/-- The same events happen, whatever snapshots were taken before. -/
theorem passes_onto {limit : Instant} {w v : World} {es : List Scheduled}
    {before : Array Snapshot} :
    Passes limit (w.onto before) es v ↔ ∃ u, Passes limit w es u ∧ v = u.onto before := by
  induction es generalizing w with
  | nil =>
    constructor
    · intro h
      exact ⟨w, rfl, h⟩
    · rintro ⟨u, rfl, rfl⟩
      rfl
  | cons e es ih =>
    simp only [Passes, next?_onto]
    constructor
    · rintro ⟨t, ht, hv⟩
      obtain ⟨⟨d, u⟩, hu, he⟩ := Option.map_eq_some_iff.1 ht
      cases he
      obtain ⟨x, hx, rfl⟩ := ih.1 hv
      exact ⟨x, ⟨u, hu, hx⟩, rfl⟩
    · rintro ⟨x, ⟨u, hu, hx⟩, rfl⟩
      exact ⟨u.onto before, by rw [hu]; rfl, ih.2 ⟨x, hx, rfl⟩⟩

/-! ## The clock between two events -/

/-- Until the next event the clock may go on. -/
theorem advanceTo_advanceTo (w : World) {t u : Instant} (h : t ≤ u) :
    (w.advanceTo t).advanceTo u = w.advanceTo u := by
  have hnow : (w.now.latest t).latest u = w.now.latest u := by
    apply Instant.eq_of_toNat
    rw [Instant.le_iff_toNat] at h
    simp only [Instant.toNat_latest]
    omega
  exact congrArg (fun now => { w with now }) hnow

theorem next?_advanceTo {w : World} {t limit : Instant} (h : w.next? t = none) :
    (w.advanceTo t).next? limit = w.next? limit := by
  rw [next?_eq_none_iff] at h
  have hagenda : (w.advanceTo t).agenda = w.agenda := rfl
  unfold next?
  rw [hagenda]
  cases hd : w.agenda.due? limit with
  | none => rfl
  | some due =>
    obtain ⟨e, agenda⟩ := due
    obtain ⟨ha, -⟩ := Agenda.due?_eq_some_iff.1 hd
    have hlater : t ≤ e.time := by
      have hlt := h e (by rw [ha]; exact List.mem_cons_self)
      rw [Instant.lt_iff_toNat] at hlt
      rw [Instant.le_iff_toNat]
      omega
    have hsame := advanceTo_advanceTo { w with agenda } hlater
    have hhappen : ({ w.advanceTo t with agenda } : World).happen e =
        { w with agenda }.happen e := by
      unfold happen
      rw [← hsame]
      rfl
    exact congrArg (fun u => some (e, u)) hhappen

/-- From a network at rest the same course leads on as from the network before it came to
rest there, and to the same end. -/
theorem Passes.advanceTo {w v : World} {t limit : Instant} {es : List Scheduled}
    (hr : w.next? t = none) (ht : t ≤ limit) (h : Passes limit w es v)
    (hv : v.next? limit = none) :
    ∃ u, Passes limit (w.advanceTo t) es u ∧ u.next? limit = none ∧
      u.settle limit = v.settle limit := by
  cases es with
  | nil =>
    subst h
    refine ⟨_, rfl, ?_, ?_⟩
    · rw [next?_advanceTo hr]
      exact hv
    · exact congrArg takeSnapshot (advanceTo_advanceTo _ ht)
  | cons e es =>
    obtain ⟨u, hu, hes⟩ := h
    exact ⟨v, ⟨u, by rw [next?_advanceTo hr]; exact hu, hes⟩, hv, rfl⟩

/-! ## A stop on the way -/

theorem next?_onto_eq_none {w : World} {before : Array Snapshot} {limit : Instant} :
    (w.onto before).next? limit = none ↔ w.next? limit = none := by
  rw [next?_onto, Option.map_eq_none_iff]

/-- A network that comes to rest has gone on to the limit, and has the new snapshot after those
taken before. -/
theorem settle_eq_onto (w : World) (limit : Instant) :
    w.settle limit = ((w.withSnapshots #[]).advanceTo limit).onto
      (w.history.snapshots.push (w.advanceTo limit).snapshot) :=
  congrArg (w.advanceTo limit).withSnapshots Array.append_empty.symm

/-- From a network at rest, its snapshots apart, a run comes to the same end as from the network
before it came to rest there. -/
theorem passes_settle {w x : World} {t limit : Instant} {es : List Scheduled}
    (hr : w.next? t = none) (ht : t ≤ limit) (h : Passes limit w es x)
    (hx : x.next? limit = none) :
    ∃ u late, Passes limit (w.settle t) es u ∧ u.next? limit = none ∧
      (x.settle limit).history.snapshots = w.history.snapshots ++ late ∧
      u.settle limit = (x.settle limit).withSnapshots
        (w.history.snapshots.push (w.advanceTo t).snapshot ++ late) := by
  let bare := w.withSnapshots #[]
  let early := w.history.snapshots
  have hbare : bare.onto early = w := withSnapshots_onto w
  rw [← hbare, next?_onto_eq_none] at hr
  rw [← hbare, passes_onto] at h
  obtain ⟨y, hy, rfl⟩ := h
  rw [next?_onto_eq_none] at hx
  obtain ⟨z, hz, hzn, hzy⟩ := hy.advanceTo hr ht hx
  let stop := (w.advanceTo t).snapshot
  refine ⟨z.onto (early.push stop), (y.settle limit).history.snapshots, ?_, ?_, ?_, ?_⟩
  · rw [settle_eq_onto]
    exact passes_onto.2 ⟨z, hz, rfl⟩
  · exact next?_onto_eq_none.2 hzn
  · rw [settle_onto]
    rfl
  · rw [settle_onto, settle_onto, hzy]
    rfl

/-- A run that stops on its way and goes on comes to the same network as the run without the
stop, with one more snapshot: that of the network at the stop, after those taken until then. -/
theorem stop_adds_snapshot {w : World} (h : w.Reachable) {t₁ t₂ : Instant} (h₁ : w.now ≤ t₁)
    (h₁₂ : t₁ ≤ t₂) (h₂ : t₂ < .last) :
    ∃ o₁ w₁ o₂ w₂ o v, w.runUntil t₁ = some (o₁, w₁) ∧ w₁.runUntil t₂ = some (o₂, w₂) ∧
      w.runUntil t₂ = some (o, v) ∧
      ∃ early late, v.history.snapshots = early ++ late ∧
        w₁.history.snapshots = early.push w₁.snapshot ∧ w₁.snapshot.time = t₁ ∧
        w₂ = v.withSnapshots (early.push w₁.snapshot ++ late) ∧
        o₂ = { o with history := w₂.history } := by
  obtain ⟨past, hpast⟩ := h
  have hl₁ : t₁ < .last := by
    rw [Instant.lt_iff_toNat] at *
    rw [Instant.le_iff_toNat] at h₁₂
    omega
  have hw := hpast.furnished w List.mem_cons_self
  obtain ⟨es, r, hes, hr⟩ := exists_passes hw hl₁
  have hfurnished : r.Furnished := by
    obtain ⟨between, hb⟩ := hpast.passes hes
    exact hb.furnished r List.mem_cons_self
  obtain ⟨fs, x, hfs, hx⟩ := exists_passes hfurnished h₂
  obtain ⟨u, late, hu, hun, hlate, hsettle⟩ := passes_settle hr h₁₂ hfs hx
  have hwhole : Passes t₂ w (es ++ fs) x := passes_append.2 ⟨r, hes.extend h₁₂, hfs⟩
  have hnow : r.now.latest t₁ = t₁ := by
    have hle := hes.now_le
    rw [Instant.latest_eq_right h₁] at hle
    exact Instant.latest_eq_right hle
  refine ⟨_, r.settle t₁, _, u.settle t₂, _, x.settle t₂,
    runUntil_eq_some_iff.2 ⟨es, r, hes, hr, rfl, rfl⟩,
    runUntil_eq_some_iff.2 ⟨fs, u, hu, hun, rfl, rfl⟩,
    runUntil_eq_some_iff.2 ⟨es ++ fs, x, hwhole, hx, rfl, rfl⟩,
    r.history.snapshots, late, hlate, rfl, hnow, hsettle, ?_⟩
  rw [hsettle]
  rfl

/-- A single node, with a stop between two of its slots. -/
theorem stop_adds_snapshot_of_single_node :
    let w := (World.ofSeed 42).undergo (.add 1)
    let t₁ : Instant := ⟨30⟩
    let t₂ : Instant := ⟨1000⟩
    w.Reachable ∧ w.now ≤ t₁ ∧ t₁ ≤ t₂ ∧ t₂ < .last ∧
      ∃ o₁ w₁ o₂ w₂ o v, w.runUntil t₁ = some (o₁, w₁) ∧ w₁.runUntil t₂ = some (o₂, w₂) ∧
        w.runUntil t₂ = some (o, v) ∧
        ∃ early late, v.history.snapshots = early ++ late ∧
          w₁.history.snapshots = early.push w₁.snapshot ∧ w₁.snapshot.time = t₁ ∧
          w₂ = v.withSnapshots (early.push w₁.snapshot ++ late) ∧
          o₂ = { o with history := w₂.history } := by
  intro w t₁ t₂
  have hw : w.Reachable := (reachable_ofSeed 42 hashWord).undergo _
  have h₁ : w.now ≤ t₁ := by decide
  have h₁₂ : t₁ ≤ t₂ := by decide
  have h₂ : t₂ < .last := by decide
  exact ⟨hw, h₁, h₁₂, h₂, stop_adds_snapshot hw h₁ h₁₂ h₂⟩

end ClusterMesh.Net.World
