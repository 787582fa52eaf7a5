import ClusterMesh.Proofs.Station.Leftovers

/-! A station that was reset cannot be told from one that was just started: the clock and what else
a reset leaves behind has no part in anything that the station does or shows later. -/
namespace ClusterMesh.Station

/-! ## What a host sees -/

inductive Deed
  | operate (op : Op)
  | collect

inductive Reply
  | nothing
  | heard (r : Except Wire.DecodeError Reception)
  | collected (o : Outbox)

def reply (s : Station) : Deed → Reply
  | .operate (.receive p rssi now) => .heard (.ok (s.receive p rssi now).1)
  | .operate (.receiveBytes bytes rssi now) => .heard (s.receiveBytes bytes rssi now).1
  | .operate _ => .nothing
  | .collect => .collected s.collect.1

def act (s : Station) : Deed → Station
  | .operate op => s.step op
  | .collect => s.collect.2

def perform (s : Station) (deeds : List Deed) : Station := deeds.foldl act s

def replies (s : Station) : List Deed → List Reply
  | [] => []
  | d :: deeds => s.reply d :: (s.act d).replies deeds

/-- All that a host can read from a station, what waits in its outbox included, but for the counts
of the queue and the slot of a cycle at rest. The clock and the cells of the window that hold no
sample are out of its sight. -/
@[ext] structure Outlook where
  rest : Station
  samples : List Int8
  slot? : Option (Fin 4)

def outlook (s : Station) : Outlook where
  rest := { s.leave (fresh s.settings s.receivers).leftovers with now := .zero }
  samples := s.survey.window.inOrder
  slot? := if s.phase = .discovery then some s.cycle.slot else none

/-- What a host reads of how far the neighbors are spread, now and in the measures last taken, and
whether these meet the thresholds. The table of those heard has an order of its own to sum them
in. -/
def spreads (s : Station) (order : Position.Order) : Float × Float × Bool :=
  (s.survey.spread order, s.survey.measures.spread order, s.survey.meetsThresholds order)

theorem spreads_of_outlook {s t : Station} (h : t.outlook = s.outlook) (order : Position.Order) :
    t.spreads order = s.spreads order :=
  congrArg (fun o : Outlook => o.rest.spreads order) h

/-! ## Stations that differ in leftovers -/

def Differs (s t : Station) : Prop :=
  ∃ l past, s.Harmless l ∧ t = { s.leave l with now := past }

theorem tick_past (s : Station) (past now : Instant) :
    { s with now := past }.tick now = if s.enabled then s.tick now else { s with now := past } := by
  unfold tick
  cases s.enabled <;> rfl

theorem receive_past (s : Station) (past : Instant) (p : Packet) (rssi : Int8) (now : Instant) :
    { s with now := past }.receive p rssi now =
      if s.enabled then s.receive p rssi now else (.ignored, { s with now := past }) := by
  unfold receive
  cases s.enabled <;> rfl

section differs
variable {s t : Station} (h : s.Differs t)
include h

theorem differs_tick (hs : s.clockwork.InStep) (now : Instant) :
    (s.tick now).Differs (t.tick now) := by
  obtain ⟨l, past, hl, rfl⟩ := h
  rw [tick_past (s.leave l) past, leave_enabled]
  by_cases he : s.enabled = true
  · obtain ⟨l', hl', ht⟩ := tick_leave hs hl now
    rw [if_pos he, ht]
    exact ⟨l', _, hl', rfl⟩
  · rw [if_neg he]
    unfold tick
    rw [if_pos (by simp [he])]
    exact ⟨l, past, hl, rfl⟩

theorem differs_receive (p : Packet) (rssi : Int8) (now : Instant) :
    (t.receive p rssi now).1 = (s.receive p rssi now).1 ∧
      (s.receive p rssi now).2.Differs (t.receive p rssi now).2 := by
  obtain ⟨l, past, hl, rfl⟩ := h
  rw [receive_past (s.leave l) past, leave_enabled]
  by_cases he : s.enabled = true
  · obtain ⟨l', hl', hr⟩ := receive_leave hl p rssi now
    rw [if_pos he, hr]
    exact ⟨rfl, l', _, hl', rfl⟩
  · rw [if_neg he]
    unfold receive
    rw [if_pos (by simp [he])]
    exact ⟨rfl, l, past, hl, rfl⟩

end differs

theorem outlook_of_differs {s t : Station} (h : s.Differs t) : t.outlook = s.outlook := by
  obtain ⟨l, past, hl, rfl⟩ := h
  have hslot : (if s.phase = .discovery then some l.slot else none) = s.outlook.slot? := by
    unfold outlook
    split
    · next hp => rw [hl.slot hp]
    · rfl
  exact Outlook.ext rfl hl.window.inOrder hslot

theorem differs_restart {s t : Station} (h : s.Differs t) : s.reset.Differs t.reset := by
  obtain ⟨l, past, -, rfl⟩ := h
  exact ⟨{ l with window := l.window.clear }, past, ⟨Ring.alike_clear _ _, nofun⟩, rfl⟩

theorem differs_step {s t : Station} (hs : s.clockwork.InStep) (h : s.Differs t) (op : Op) :
    t.reply (.operate op) = s.reply (.operate op) ∧ (s.step op).Differs (t.step op) := by
  cases op with
  | tick now => exact ⟨rfl, differs_tick h hs now⟩
  | receive p rssi now =>
    obtain ⟨hr, hd⟩ := differs_receive h p rssi now
    exact ⟨congrArg (fun r => Reply.heard (.ok r)) hr, hd⟩
  | receiveBytes bytes rssi now =>
    simp only [reply, step, receiveBytes]
    cases Packet.ofBytes bytes with
    | error e => exact ⟨rfl, h⟩
    | ok p =>
      obtain ⟨hr, hd⟩ := differs_receive h p rssi now
      exact ⟨congrArg (fun r => Reply.heard (.ok r)) hr, hd⟩
  | reset => exact ⟨rfl, differs_restart h⟩
  | _ =>
    obtain ⟨l, past, hl, rfl⟩ := h
    exact ⟨rfl, l, past, ⟨hl.window, hl.slot⟩, rfl⟩

theorem differs_act {s t : Station} (hs : s.clockwork.InStep) (h : s.Differs t) (d : Deed) :
    t.reply d = s.reply d ∧ (s.act d).Differs (t.act d) := by
  cases d with
  | operate op => exact differs_step hs h op
  | collect =>
    obtain ⟨l, past, hl, rfl⟩ := h
    exact ⟨rfl, l, past, ⟨hl.window, hl.slot⟩, rfl⟩

theorem inStep_act {s : Station} (hs : s.clockwork.InStep) (d : Deed) :
    (s.act d).clockwork.InStep := by
  cases d with
  | operate op => exact inStep_step hs op
  | collect => exact hs

theorem differs_perform {s t : Station} (hs : s.clockwork.InStep) (h : s.Differs t)
    (deeds : List Deed) :
    t.replies deeds = s.replies deeds ∧ (s.perform deeds).Differs (t.perform deeds) := by
  induction deeds generalizing s t with
  | nil => exact ⟨rfl, h⟩
  | cons d deeds ih =>
    obtain ⟨hr, hd⟩ := differs_act hs h d
    obtain ⟨hrs, hds⟩ := ih (inStep_act hs d) hd
    exact ⟨by rw [replies, replies, hr, hrs], hds⟩

/-! ## The reset -/

theorem Fixed.act {c : Settings} {r : Receivers} {s : Station} (h : s.Fixed c r) (d : Deed) :
    (s.act d).Fixed c r := by
  cases d with
  | operate op => exact h.step op
  | collect => exact ⟨h.inStep, h.settings, h.id_eq, h.slotLength, h.fixtures⟩

theorem Fixed.perform {c : Settings} {r : Receivers} {s : Station} (h : s.Fixed c r)
    (deeds : List Deed) : (s.perform deeds).Fixed c r := by
  induction deeds generalizing s with
  | nil => exact h
  | cons d deeds ih => exact ih (h.act d)

theorem differs_reset {c : Settings} {r : Receivers} {s : Station} (h : s.Fixed c r) :
    Differs { fresh c r with enabled := s.enabled } s.reset.collect.2 := by
  have hr : s.receivers = r := congrArg Fixtures.receivers h.fixtures
  have hsignal : s.survey.directSignal = -85 := congrArg Fixtures.directSignal h.fixtures
  have hthresholds : s.survey.thresholds = {} := congrArg Fixtures.thresholds h.fixtures
  refine ⟨⟨s.queue.counts, s.survey.window.clear, s.cycle.slot⟩, s.now,
    ⟨Ring.alike_clear _ _, nofun⟩, ?_⟩
  have hnode : s.node.reset = (fresh c r).node := congrArg Node.fresh h.id_eq
  have hsurvey : s.survey.reset.beginMeasuring =
      { (fresh c r).survey with window := s.survey.window.clear } := by
    unfold Survey.reset Survey.beginMeasuring
    rw [hsignal, hthresholds]
    rfl
  have hcycle : s.cycle.stop.resetCount = { (fresh c r).cycle with slot := s.cycle.slot } := by
    have hwork : s.cycle.work = (fresh c r).cycle.work := h.inStep.work
    have hcompletion : s.cycle.completion = (fresh c r).cycle.completion := h.inStep.completion
    unfold Cycle.stop Cycle.resetCount
    rw [hwork, hcompletion, h.slotLength]
    rfl
  unfold reset collect
  dsimp only
  rw [h.settings, hr, hnode, hsurvey, hcycle]
  rfl

/-- Once its outbox was collected a station that was reset does what a station does that has just
been started with the same settings and is as much enabled: whatever a host does with both, it gets
the same replies and reads the same. Only the spread of the neighbors, the measured and published
one too, is the same as far as both tables of them have the same order to sum it in. -/
theorem reset_is_restart {settings : Settings} {receivers : Receivers} {s : Station}
    (hs : Station.start settings receivers = .ok s) (before after : List Deed) :
    let used := s.perform before
    let cleared := used.reset.collect.2
    let started := { s with enabled := used.enabled }
    cleared.replies after = started.replies after ∧
      (cleared.perform after).outlook = (started.perform after).outlook ∧
      ∀ order, (cleared.perform after).spreads order = (started.perform after).spreads order := by
  have hused := (fixed_start hs).perform before
  obtain ⟨-, rfl⟩ := start_eq hs
  have hstarted := inStep_fresh settings receivers
  obtain ⟨hreplies, hafter⟩ := differs_perform (s := { fresh settings receivers with
    enabled := ((fresh settings receivers).perform before).enabled })
    ⟨hstarted.work, hstarted.completion, hstarted.running⟩ (differs_reset hused) after
  have houtlook := outlook_of_differs hafter
  exact ⟨hreplies, houtlook, spreads_of_outlook houtlook⟩

/-- A station is reset in the midst of a discovery cycle, with a packet in its queue, and then hears
two neighbors in different places. -/
theorem reset_is_restart_mid_cycle :
    let c : Settings := { id := 1, plan := ⟨1, 50, 1, 10⟩ }
    let p := (fresh { id := 7 } {}).locate (.ofFloats 3.0 0.0 0.0)
    let q := (fresh { id := 8 } {}).locate (.ofFloats 0.0 4.0 0.0)
    let before : List Deed := [.operate (.tick ⟨0⟩), .operate (.tick ⟨10⟩),
      .operate (.receive p.beacon (-50) ⟨110⟩), .operate (.tick ⟨120⟩)]
    let after : List Deed := [.operate (.tick ⟨200⟩), .operate (.tick ⟨210⟩),
      .operate (.receive p.beacon (-50) ⟨310⟩), .operate (.receive q.beacon (-60) ⟨310⟩),
      .collect]
    let s := fresh c {}
    let used := s.perform before
    let cleared := used.reset.collect.2
    let started := { s with enabled := used.enabled }
    Station.start c {} = .ok s ∧
      used.phase = .discovery ∧ used.cycle.slot = 1 ∧ used.queue.size = 1 ∧
      (cleared.perform after).survey.places.length = 2 ∧
      cleared.replies after = started.replies after ∧
      (cleared.perform after).outlook = (started.perform after).outlook ∧
      ∀ order, (cleared.perform after).spreads order = (started.perform after).spreads order := by
  intro c p q before after s used cleared started
  have hs : Station.start c {} = .ok s := rfl
  have hused : used.phase = .discovery ∧ used.cycle.slot = 1 ∧ used.queue.size = 1 := by
    decide +kernel
  have hplaces : (cleared.perform after).survey.places.length = 2 := by decide +kernel
  have hrestart := reset_is_restart hs before after
  exact ⟨hs, hused.1, hused.2.1, hused.2.2, hplaces, hrestart⟩

end ClusterMesh.Station
