import ClusterMesh.Proofs.Relay.Waiting
import ClusterMesh.Proofs.Station.Footprint
import ClusterMesh.Proofs.Station.Laps

/-! The ledger of a station: its queue, the packets that it has sent, and what its node and its
survey count of them. Each operation writes at most one entry, and can be told by its marks. -/
namespace ClusterMesh

structure Ledger where
  queue : Relay.Queue
  packets : Array Packet
  sent : UInt32
  received : UInt32
  relayed : UInt32
  dropped : UInt32
  surveyReceived : UInt32
  surveyRelayed : UInt32

namespace Ledger

def post (l : Ledger) (p : Packet) : Ledger :=
  { l with packets := l.packets.push p, sent := l.sent.succSat }

def gain (l : Ledger) : Ledger :=
  { l with received := l.received.succSat, surveyReceived := l.surveyReceived.succSat }

def pass (l : Ledger) (copy : Packet) : Ledger :=
  { l with
    packets := l.packets.push copy
    relayed := l.relayed.succSat
    surveyRelayed := l.surveyRelayed.succSat }

def lose (l : Ledger) : Ledger := { l with dropped := l.dropped.succSat }

def restart (l : Ledger) : Ledger :=
  { l with
    queue := l.queue.clear
    sent := 0
    received := 0
    relayed := 0
    dropped := 0
    surveyReceived := 0
    surveyRelayed := 0 }

end Ledger

namespace Station
open Relay (Queue Entry mark)

def ledger (s : Station) : Ledger where
  queue := s.queue
  packets := s.outbox.packets
  sent := s.node.counts.sent
  received := s.node.counts.received
  relayed := s.node.counts.relayed
  dropped := s.node.counts.dropped
  surveyReceived := s.survey.measures.received
  surveyRelayed := s.survey.measures.relayed

/-! ## Marks of operations -/

def Op.time? : Op → Option Instant
  | .tick now | .receive _ _ now | .receiveBytes _ _ now => some now
  | _ => none

def reception? (s : Station) : Op → Option Reception
  | .receive p rssi now => some (s.receive p rssi now).1
  | .receiveBytes bytes rssi now => (s.receiveBytes bytes rssi now).1.toOption
  | _ => none

def broadcasts (s : Station) : Op → Bool
  | .tick _ =>
    s.enabled &&
      match s.phase with
      | .noisy => s.noisy.advance.broadcasting
      | .neighbor => s.neighborly.advance.broadcasting
      | .discovery => false
  | _ => false

def relays (s : Station) (op : Op) : Bool :=
  s.runsSlot 1 op || (s.runsSlot 2 op || s.runsSlot 3 op)

structure Marks where
  reception : Option Reception := none
  broadcasts : Bool := false
  speaks : Bool := false
  relays : Bool := false
  resets : Bool := false
  deriving DecidableEq

def marks (s : Station) (op : Op) : Marks where
  reception := s.reception? op
  broadcasts := s.broadcasts op
  speaks := s.runsSlot 0 op
  relays := s.relays op
  resets := op.isReset

/-- The queue after an operation is done with it: the last slot of a cycle forgets what was
seen too long ago. -/
def tidied (s : Station) (op : Op) (q : Queue) : Queue :=
  if s.completes op then (q.forget (op.time?.getD s.now) s.maxAge).1 else q

theorem marks_of_packet? (s : Station) {op : Op} {p : Packet} (h : op.packet? = some p) :
    s.marks op = { reception := s.reception? op } := by
  cases op <;> first | rfl | cases h

theorem marks_of_plain (s : Station) {op : Op} (h : op.Plain) : s.marks op = {} := by
  cases op with
  | tick now => exact absurd rfl (h.noTick now)
  | receive p rssi now => exact nomatch h.packet?
  | reset => exact nomatch h.noReset
  | receiveBytes bytes rssi now =>
    have hb := h.packet?
    unfold Op.packet? at hb
    cases hd : Packet.ofBytes bytes with
    | ok p => simp [hd, Except.toOption] at hb
    | error e =>
      have hn : s.reception? (.receiveBytes bytes rssi now) = none := by
        rw [reception?, receiveBytes, hd]
        rfl
      rw [marks, hn]
      rfl
  | _ => rfl

/-- What an operation lets a station hear is a reception at the time that it brings. -/
theorem hears_of_packet? (s : Station) {op : Op} {p : Packet} (h : op.packet? = some p) :
    ∃ rssi now, op.time? = some now ∧ s.reception? op = some (s.receive p rssi now).1 ∧
      s.step op = (s.receive p rssi now).2 := by
  cases op with
  | receive q rssi now =>
    cases h
    exact ⟨rssi, now, rfl, rfl, rfl⟩
  | receiveBytes bytes rssi now =>
    refine ⟨rssi, now, rfl, ?_⟩
    unfold Op.packet? at h
    cases hb : Packet.ofBytes bytes with
    | error e => simp [hb, Except.toOption] at h
    | ok q =>
      simp only [hb, Except.toOption, Option.some.injEq] at h
      subst h
      rw [reception?, step, receiveBytes, hb]
      exact ⟨rfl, rfl⟩
  | _ => cases h

/-! ## Receptions -/

@[simp] theorem ledger_note (s : Station) (n : Notice) : (s.note n).ledger = s.ledger := by
  unfold note
  split <;> rfl

/-- An observation adds to the ones heard and is otherwise the business of elections. -/
theorem observe_frame (s : Station) (p : Packet) (rssi : Int8) :
    ∃ heard, s.observe p rssi =
      { (s.observe p rssi).on s with survey := { s.survey with heard } } := by
  unfold observe
  by_cases ht : p.transmitter = s.id
  · rw [if_pos ht]
    exact ⟨s.survey.heard, rfl⟩
  · rw [if_neg ht]
    dsimp only
    have h1 : s.hearTransmitter p rssi = (s.hearTransmitter p rssi).on s :=
      hearTransmitter_on (t := s) rfl p rssi
    generalize s.hearTransmitter p rssi = t at h1
    have h2 : t.hearSender p rssi = (t.hearSender p rssi).on s :=
      (congrArg (·.hearSender p rssi) h1).trans (hearSender_on p rssi)
    generalize t.hearSender p rssi = u at h2
    obtain ⟨heard, hv⟩ : ∃ heard, u.survey.note p.transmitter p.position rssi u.now =
        { s.survey with heard } := by
      have hv : u.survey = s.survey := by
        rw [h2]
        rfl
      rw [hv]
      unfold Survey.note
      dsimp only
      split
      · exact ⟨_, rfl⟩
      · split <;> exact ⟨_, rfl⟩
    have hr : s.receivers = u.receivers := by
      rw [h2]
      rfl
    refine ⟨heard, ?_⟩
    rw [hv]
    -- what is heeded is the station with the new survey, and all else of `s`
    have h3 := heed_on (s := { u with survey := { s.survey with heard } })
      (t := { s with survey := { s.survey with heard } }) hr p
    refine Eq.trans ?_ h3
    exact congrArg (fun w : Station =>
      { w with survey := { s.survey with heard } }.heed p) h2

theorem ledger_observe (s : Station) (p : Packet) (rssi : Int8) :
    (s.observe p rssi).ledger = s.ledger := by
  obtain ⟨heard, h⟩ := observe_frame s p rssi
  rw [h]
  rfl

inductive Admits (s : Station) (p : Packet) (now : Instant) : Reception → Ledger → Prop
  | kept (r : Reception) (hq : r ≠ .queued) (hr : ∀ why, r ≠ .rejected why) :
      Admits s p now r s.ledger
  | accepted {slot : Fin Relay.capacity} (hl : s.id ∉ p.path.toList)
      (hf : s.queue.freeSlot? = some slot) :
      Admits s p now .queued { s.ledger.gain with queue := s.queue.store slot p now }
  | refused {why : Refusal}
      (hd : why = .duplicate → s.queue.hasSeen p.sender (mark p) = true) :
      Admits s p now (.rejected why) { s.ledger with queue := s.queue.refuse why }

theorem admits_take (s : Station) (p : Packet) :
    s.Admits p s.now (s.take p).1 (s.take p).2.ledger := by
  have he := s.queue.enqueues p s.id s.now
  unfold take
  generalize s.queue.enqueue p s.id s.now = r at he
  cases he with
  | loop => exact (ledger_note _ _).symm ▸ .refused nofun
  | duplicate hl hs => exact (ledger_note _ _).symm ▸ .refused fun _ => hs
  | overflow => exact (ledger_note _ _).symm ▸ .refused nofun
  | stored hl hf => exact .accepted hl hf

theorem admits_take_observe (s : Station) (p : Packet) (rssi : Int8) (now : Instant) :
    s.Admits p now (({ s with now }.observe p rssi).take p).1
      (({ s with now }.observe p rssi).take p).2.ledger := by
  have ht := admits_take ({ s with now }.observe p rssi) p
  obtain ⟨heard, ho⟩ := observe_frame { s with now } p rssi
  have hl := ledger_observe { s with now } p rssi
  have hid := id_observe { s with now } p rssi
  have hnow : ({ s with now }.observe p rssi).now = now := congrArg Station.now ho
  generalize { s with now }.observe p rssi = t at ht hl hid hnow
  have hq : t.queue = s.queue := congrArg Ledger.queue hl
  rw [hnow] at ht
  generalize t.take p = r at ht
  obtain ⟨r, u⟩ := r
  dsimp only at ht ⊢
  generalize u.ledger = l at ht
  cases ht with
  | kept _ hq hr => exact hl ▸ .kept _ hq hr
  | accepted hp hf =>
    rw [hl, hq]
    exact .accepted (hid ▸ hp) (hq ▸ hf)
  | refused hd =>
    rw [hl, hq]
    exact .refused (hq ▸ hd)

theorem admits_receive (s : Station) (p : Packet) (rssi : Int8) (now : Instant) :
    s.Admits p now (s.receive p rssi now).1 (s.receive p rssi now).2.ledger := by
  have hr := s.receives p rssi now
  generalize s.receive p rssi now = r at hr
  cases hr with
  | off | busy => exact .kept _ nofun nofun
  | sampled =>
    have hl : ({ s with now, survey := s.survey.sample rssi } : Station).ledger = s.ledger := by
      unfold Survey.sample
      split <;> rfl
    exact hl ▸ .kept _ nofun nofun
  | observed =>
    rw [ledger_observe]
    exact .kept _ nofun nofun
  | taken => exact admits_take_observe s p rssi now

theorem admits_step (s : Station) {op : Op} {p : Packet} (h : op.packet? = some p) :
    ∃ r now, s.reception? op = some r ∧ op.time? = some now ∧
      s.Admits p now r (s.step op).ledger := by
  obtain ⟨rssi, now, ht, hr, hs⟩ := hears_of_packet? s h
  refine ⟨(s.receive p rssi now).1, now, hr, ht, ?_⟩
  rw [hs]
  exact admits_receive s p rssi now

/-! ## Slots -/

theorem ledger_enter (s : Station) (phase : Phase) : (s.enter phase).ledger = s.ledger := by
  unfold enter
  dsimp only
  rw [ledger_note]
  split <;> rfl

theorem ledger_noisySlot (s : Station) :
    s.noisySlot.ledger =
      if s.noisy.advance.broadcasting then s.ledger.post s.beacon else s.ledger := by
  have hfinish (t : Station) : (t.finishNoise.enter .neighbor).ledger = t.ledger :=
    ledger_enter t.finishNoise .neighbor
  unfold noisySlot
  dsimp only
  by_cases hb : s.noisy.advance.broadcasting = true
  · rw [if_pos hb, if_pos hb]
    split
    · exact hfinish _
    · rfl
  · rw [if_neg hb, if_neg hb]
    split
    · exact hfinish _
    · rfl

theorem ledger_neighborSlot (s : Station) :
    s.neighborSlot.ledger =
      if s.neighborly.advance.broadcasting then s.ledger.post s.beacon else s.ledger := by
  unfold neighborSlot
  dsimp only
  by_cases hb : s.neighborly.advance.broadcasting = true
  · rw [if_pos hb, if_pos hb]
    split
    · exact ledger_enter _ .discovery
    · rfl
  · rw [if_neg hb, if_neg hb]
    split
    · exact ledger_enter _ .discovery
    · rfl

theorem ledger_sendMessage (s : Station) : s.sendMessage.ledger = s.ledger.post s.message := by
  unfold sendMessage message
  split
  · rfl
  · split <;> rfl

theorem ledger_drop (s : Station) (sender : NodeId) (why : DropReason) :
    (s.drop sender why).ledger = s.ledger.lose :=
  ledger_note _ _

inductive Passes (s : Station) : Ledger → Prop
  | idle (hq : s.queue.dequeue? = none) : Passes s s.ledger
  | lost {e : Entry} {queue : Queue} (hq : s.queue.dequeue? = some (e, queue)) :
      Passes s { s.ledger.lose with queue }
  | copied {e : Entry} {queue : Queue} {copy : Packet} (hq : s.queue.dequeue? = some (e, queue))
      (hc : s.copyOf e.packet = .ok copy) : Passes s { s.ledger.pass copy with queue }

theorem passes_relayNext (s : Station) : s.Passes s.relayNext.ledger := by
  unfold relayNext
  split
  · next hq => exact .idle hq
  · next e queue hq =>
    dsimp only
    split
    · split
      · rw [ledger_drop]
        exact .lost hq
      · next copy hc => exact .copied hq hc
    · rw [ledger_drop]
      exact .lost hq

theorem ledger_completeCycle (s : Station) :
    s.completeCycle.ledger = { s.ledger with queue := (s.queue.forget s.now s.maxAge).1 } := by
  have hpublish (t : Station) (m : Connectivity) : (t.publish m).ledger = t.ledger := by
    unfold publish
    split <;> rfl
  have hdecide (t : Station) : t.decideRole.ledger = t.ledger := by
    have ht : t.decideRole = t.decideRole.on t := decideRole_on rfl
    rw [ht]
    rfl
  unfold completeCycle
  dsimp only
  rw [ledger_enter, ledger_note]
  exact (hdecide _).trans (hpublish _ _)

theorem now_relayNext (s : Station) : s.relayNext.now = s.now := by
  have hdrop (t : Station) (sender : NodeId) (why : DropReason) :
      (t.drop sender why).now = t.now := by
    unfold drop note
    dsimp only
    split <;> rfl
  exact relayNext_untouched (f := (·.now)) (fun _ _ _ => rfl) hdrop (fun _ _ => rfl) s

theorem ledger_discoverySlot {s : Station} (h : s.clockwork.InStep) (hp : s.phase = .discovery) :
    s.discoverySlot.ledger =
      if s.cycle.slot = 0 then s.ledger.post s.message
      else if s.cycle.slot = 3 then
        { s.relayNext.ledger with
          queue := (s.relayNext.ledger.queue.forget s.now s.maxAge).1 }
      else s.relayNext.ledger := by
  rw [discoverySlot_eq h hp]
  dsimp only
  by_cases h0 : s.cycle.slot = 0
  · rw [if_pos h0, if_pos h0, if_neg (by rw [h0]; decide)]
    exact ledger_sendMessage s
  · rw [if_neg h0, if_neg h0]
    by_cases h3 : s.cycle.slot = 3
    · rw [if_pos h3, if_pos h3]
      have hset : s.relayNext.settings = s.settings :=
        congrArg Clockwork.settings (relayNext_keeps s).2
      refine (ledger_completeCycle _).trans ?_
      dsimp only [maxAge]
      rw [now_relayNext, hset]
      rfl
    · rw [if_neg h3, if_neg h3]
      rfl

/-! ## Operations -/

/-- The entry that an operation makes in the ledger, together with its marks. -/
inductive Books (s : Station) (op : Op) : Ledger → Prop
  | kept {r : Option Reception} (hm : s.marks op = { reception := r }) (hq : r ≠ some .queued)
      (hr : ∀ why, r ≠ some (.rejected why)) : Books s op s.ledger
  | accepted {p : Packet} {now : Instant} {slot : Fin Relay.capacity}
      (hm : s.marks op = { reception := some .queued }) (hp : op.packet? = some p)
      (ht : op.time? = some now) (hl : s.id ∉ p.path.toList)
      (hf : s.queue.freeSlot? = some slot) :
      Books s op { s.ledger.gain with queue := s.queue.store slot p now }
  | refused {p : Packet} {why : Refusal} (hm : s.marks op = { reception := some (.rejected why) })
      (hp : op.packet? = some p)
      (hd : why = .duplicate → s.queue.hasSeen p.sender (mark p) = true) :
      Books s op { s.ledger with queue := s.queue.refuse why }
  | beacon (hm : s.marks op = { broadcasts := true }) : Books s op (s.ledger.post s.beacon)
  | message (hm : s.marks op = { speaks := true }) : Books s op (s.ledger.post s.message)
  | idle (hm : s.marks op = { relays := true }) (hq : s.queue.dequeue? = none) :
      Books s op { s.ledger with queue := s.tidied op s.queue }
  | lost {e : Entry} {queue : Queue} (hm : s.marks op = { relays := true })
      (hq : s.queue.dequeue? = some (e, queue)) :
      Books s op { s.ledger.lose with queue := s.tidied op queue }
  | copied {e : Entry} {queue : Queue} {copy : Packet} (hm : s.marks op = { relays := true })
      (hq : s.queue.dequeue? = some (e, queue)) (hc : s.copyOf e.packet = .ok copy) :
      Books s op { s.ledger.pass copy with queue := s.tidied op queue }
  | reset (hm : s.marks op = { resets := true }) : Books s op s.ledger.restart

theorem books_of_admits {s : Station} {op : Op} {p : Packet} {now : Instant} {r : Reception}
    {l : Ledger} (hm : s.marks op = { reception := some r }) (hp : op.packet? = some p)
    (ht : op.time? = some now) (h : s.Admits p now r l) : s.Books op l := by
  cases h with
  | kept _ hq hr =>
    exact .kept hm (fun he => hq (Option.some.inj he)) fun why he => hr why (Option.some.inj he)
  | accepted hl hf => exact .accepted hm hp ht hl hf
  | refused hd => exact .refused hm hp hd

/-- A slot of the first two phases writes a beacon into the ledger, or nothing. -/
theorem books_of_broadcast {s : Station} {op : Op} {broadcasts : Bool}
    (hm : s.marks op = { broadcasts }) :
    s.Books op (if broadcasts then s.ledger.post s.beacon else s.ledger) := by
  cases broadcasts with
  | true => exact .beacon hm
  | false => exact .kept hm nofun nofun

theorem marks_of_disabled {s : Station} (he : s.enabled = false) (now : Instant) :
    s.marks (.tick now) = {} := by
  simp [marks, reception?, broadcasts, relays, runsSlot, Op.isReset, he]

theorem marks_of_noisy {s : Station} (he : s.enabled = true) (hp : s.phase = .noisy)
    (now : Instant) : s.marks (.tick now) = { broadcasts := s.noisy.advance.broadcasting } := by
  simp [marks, reception?, broadcasts, relays, runsSlot, Op.isReset, he, hp]

theorem marks_of_neighbor {s : Station} (he : s.enabled = true) (hp : s.phase = .neighbor)
    (now : Instant) :
    s.marks (.tick now) = { broadcasts := s.neighborly.advance.broadcasting } := by
  simp [marks, reception?, broadcasts, relays, runsSlot, Op.isReset, he, hp]

/-- The first slot of the discovery cycle speaks, the other three relay. -/
theorem marks_of_discovery {s : Station} (he : s.enabled = true) (hp : s.phase = .discovery)
    (now : Instant) :
    s.marks (.tick now) =
      if s.cycle.slot = 0 then { speaks := true } else { relays := true } := by
  have hall : ∀ slot : Fin 4, (slot.val = 0 ↔ slot = 0) ∧
      ((slot.val = 1 ∨ slot.val = 2 ∨ slot.val = 3) ↔ slot ≠ 0) := by decide
  obtain ⟨h0, hr⟩ := hall s.cycle.slot
  by_cases hs : s.cycle.slot = 0
  · simp [marks, reception?, broadcasts, relays, runsSlot, Op.isReset, hp, he, hs]
  · have hv : ¬ s.cycle.slot.val = 0 := mt h0.1 hs
    have hs' := hr.2 hs
    simpa [marks, reception?, broadcasts, relays, runsSlot, Op.isReset, hp, he, hs, hv] using hs'

theorem books_discoverySlot {s : Station} (h : s.clockwork.InStep) (he : s.enabled = true)
    (hp : s.phase = .discovery) (now : Instant) :
    s.Books (.tick now) { s with now }.discoverySlot.ledger := by
  have hm := marks_of_discovery he hp now
  have hl := ledger_discoverySlot (s := { s with now }) h hp
  by_cases h0 : s.cycle.slot = 0
  · rw [if_pos h0] at hm hl
    rw [hl]
    exact .message hm
  · rw [if_neg h0] at hm hl
    -- what is left of the queue is tidied in the last slot
    have htidied : { s with now }.discoverySlot.ledger = { { s with now }.relayNext.ledger with
        queue := s.tidied (.tick now) { s with now }.relayNext.ledger.queue } := by
      have hv : s.completes (.tick now) = decide (s.cycle.slot = 3) := by
        simp only [completes, runsSlot, he, hp, decide_true, Bool.and_self, Bool.true_and]
        exact decide_eq_decide.2 ⟨fun hv => Fin.ext hv, congrArg Fin.val⟩
      rw [hl, tidied, hv]
      by_cases h3 : s.cycle.slot = 3
      · rw [if_pos h3, if_pos (decide_eq_true h3)]
        rfl
      · rw [if_neg h3, if_neg (by simp [h3])]
    have hr := passes_relayNext { s with now }
    rw [htidied]
    generalize { s with now }.relayNext.ledger = l at hr
    cases hr with
    | idle hq => exact .idle hm hq
    | lost hq => exact .lost hm hq
    | copied hq hc => exact .copied hm hq hc

theorem books_step {s : Station} (h : s.clockwork.InStep) (op : Op) :
    s.Books op (s.step op).ledger := by
  obtain ⟨now, rfl⟩ | rfl | ⟨p, hp⟩ | hp := op.kinds
  · obtain ⟨he, ht⟩ | ⟨he, ⟨hp, ht⟩ | ⟨hp, ht⟩ | ⟨hp, ht⟩⟩ := tick_cases s now
    · rw [ht]
      exact .kept (marks_of_disabled he now) nofun nofun
    · rw [ht, ledger_noisySlot]
      exact books_of_broadcast (marks_of_noisy he hp now)
    · rw [ht, ledger_neighborSlot]
      exact books_of_broadcast (marks_of_neighbor he hp now)
    · rw [ht]
      exact books_discoverySlot h he hp now
  · exact .reset rfl
  · obtain ⟨r, now, hr, ht, ha⟩ := admits_step s hp
    have hm := marks_of_packet? s hp
    rw [hr] at hm
    exact books_of_admits hm hp ht ha
  · have hm := marks_of_plain s hp
    have hl : (s.step op).ledger = s.ledger := by
      cases op with
      | tick now => exact absurd rfl (hp.noTick now)
      | reset => exact nomatch hp.noReset
      | receive p rssi now => exact nomatch hp.packet?
      | receiveBytes bytes rssi now =>
        have hb := hp.packet?
        simp only [Op.packet?] at hb
        simp only [step, receiveBytes]
        cases hd : Packet.ofBytes bytes with
        | ok p => simp [hd, Except.toOption] at hb
        | error e => rfl
      | _ => rfl
    rw [hl]
    exact .kept hm nofun nofun

end Station
end ClusterMesh
