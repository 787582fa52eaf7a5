import ClusterMesh.Proofs.Station.Ledger
import ClusterMesh.Proofs.Station.Schedule

/-! The counts of a station balance. What was done is kept in whole numbers that have no end,
and each counter shows one of them as far as a word reaches. So the counters of the node, the
queue and the survey agree with each other as long as none of them has reached its end. -/
namespace ClusterMesh

/-- A counter shows a number, or its own end where the number lies beyond. -/
def Shows (c : UInt32) (n : Nat) : Prop := c.toNat = min n 0xffffffff

theorem Shows.succSat {c : UInt32} {n : Nat} (h : Shows c n) : Shows c.succSat (n + 1) :=
  Station.toNat_succSat_of_min h

theorem Shows.eq_of_ne {c : UInt32} {n : Nat} (h : Shows c n) (hc : c ≠ 0xffffffff) :
    c.toNat = n := by
  have hne : c.toNat ≠ 0xffffffff := fun he => hc (UInt32.toNat.inj he)
  unfold Shows at h
  omega

structure Account where
  broadcasts : Nat := 0
  messages : Nat := 0
  queued : Nat := 0
  relayed : Nat := 0
  dropped : Nat := 0
  loops : Nat := 0
  duplicates : Nat := 0
  overflows : Nat := 0

def Account.refused (a : Account) : Nat := a.duplicates + a.loops + a.overflows

namespace Relay.Queue

structure Balances (q : Queue) (queued taken loops duplicates overflows : Nat) : Prop where
  enqueued : Shows q.counts.enqueued queued
  dequeued : Shows q.counts.dequeued taken
  loops : Shows q.counts.loops loops
  duplicates : Shows q.counts.duplicates duplicates
  overflows : Shows q.counts.overflows overflows
  waiting : queued = taken + q.waiting.length
  size : q.size = q.waiting.length

section Balances
variable {q : Queue} {queued taken loops duplicates overflows : Nat}
  (h : q.Balances queued taken loops duplicates overflows)
include h

theorem Balances.store {slot : Fin capacity} (hf : q.freeSlot? = some slot) (p : Packet)
    (now : Instant) :
    (q.store slot p now).Balances (queued + 1) taken loops duplicates overflows := by
  obtain ⟨hsize, hcounts⟩ := q.store_keeps slot p now
  have hlen := (waiting_store hf p now).length_eq
  have hw := h.waiting
  have hs := h.size
  rw [List.length_cons] at hlen
  refine ⟨hcounts ▸ h.enqueued.succSat, hcounts ▸ h.dequeued, hcounts ▸ h.loops,
    hcounts ▸ h.duplicates, hcounts ▸ h.overflows, ?_, ?_⟩
  · omega
  · omega

theorem Balances.dequeue {e : Entry} {q' : Queue} (hq : q.dequeue? = some (e, q')) :
    q'.Balances queued (taken + 1) loops duplicates overflows := by
  obtain ⟨hsize, -, hcounts⟩ := dequeue_keeps hq
  have hlen := (waiting_dequeue hq).length_eq
  have hw := h.waiting
  have hs := h.size
  rw [List.length_cons] at hlen
  refine ⟨hcounts ▸ h.enqueued, hcounts ▸ h.dequeued.succSat, hcounts ▸ h.loops,
    hcounts ▸ h.duplicates, hcounts ▸ h.overflows, ?_, ?_⟩
  · omega
  · omega

end Balances

end Relay.Queue

namespace Ledger

def counters (l : Ledger) : List UInt32 :=
  [l.sent, l.received, l.relayed, l.dropped, l.surveyReceived, l.surveyRelayed,
    l.queue.counts.enqueued, l.queue.counts.dequeued, l.queue.counts.duplicates,
    l.queue.counts.loops, l.queue.counts.overflows]

structure Balances (l : Ledger) (a : Account) : Prop where
  queue : l.queue.Balances a.queued (a.relayed + a.dropped) a.loops a.duplicates a.overflows
  sent : Shows l.sent (a.broadcasts + a.messages)
  received : Shows l.received a.queued
  surveyReceived : Shows l.surveyReceived a.queued
  relayed : Shows l.relayed a.relayed
  surveyRelayed : Shows l.surveyRelayed a.relayed
  dropped : Shows l.dropped a.dropped
  packets : l.packets.size = a.broadcasts + a.messages + a.relayed

section Balances
variable {l : Ledger} {a : Account} (h : l.Balances a)
include h

theorem Balances.broadcast (p : Packet) :
    (l.post p).Balances { a with broadcasts := a.broadcasts + 1 } := by
  have hs := h.sent.succSat
  have hp : (l.packets.push p).size = a.broadcasts + 1 + a.messages + a.relayed := by
    rw [Array.size_push, h.packets]
    omega
  rw [Nat.add_right_comm] at hs
  exact { h with sent := hs, packets := hp }

theorem Balances.message (p : Packet) :
    (l.post p).Balances { a with messages := a.messages + 1 } := by
  have hp : (l.packets.push p).size = a.broadcasts + (a.messages + 1) + a.relayed := by
    rw [Array.size_push, h.packets]
    omega
  exact { h with sent := h.sent.succSat, packets := hp }

theorem Balances.gain {slot : Fin Relay.capacity} (hf : l.queue.freeSlot? = some slot)
    (p : Packet) (now : Instant) :
    { l.gain with queue := l.queue.store slot p now }.Balances
      { a with queued := a.queued + 1 } :=
  { h with
    queue := h.queue.store hf p now
    received := h.received.succSat
    surveyReceived := h.surveyReceived.succSat }

theorem Balances.lose {e : Relay.Entry} {queue : Relay.Queue}
    (hq : l.queue.dequeue? = some (e, queue)) :
    { l.lose with queue }.Balances { a with dropped := a.dropped + 1 } :=
  { h with queue := h.queue.dequeue hq, dropped := h.dropped.succSat }

theorem Balances.pass {e : Relay.Entry} {queue : Relay.Queue}
    (hq : l.queue.dequeue? = some (e, queue)) (copy : Packet) :
    { l.pass copy with queue }.Balances { a with relayed := a.relayed + 1 } := by
  have hqueue := h.queue.dequeue hq
  have hp : (l.packets.push copy).size = a.broadcasts + a.messages + (a.relayed + 1) := by
    rw [Array.size_push, h.packets]
    omega
  rw [Nat.add_right_comm] at hqueue
  exact { h with
    queue := hqueue
    relayed := h.relayed.succSat
    surveyRelayed := h.surveyRelayed.succSat
    packets := hp }

/-- A refusal is counted by its kind. -/
theorem Balances.refuse (why : Refusal) :
    ∃ loops duplicates overflows,
      duplicates + loops + overflows = a.refused + 1 ∧
      { l with queue := l.queue.refuse why }.Balances
        { a with loops, duplicates, overflows } := by
  cases why with
  | loop =>
    refine ⟨a.loops + 1, a.duplicates, a.overflows, ?_, ?_⟩
    · unfold Account.refused
      omega
    · exact { h with queue := { h.queue with loops := h.queue.loops.succSat } }
  | duplicate =>
    refine ⟨a.loops, a.duplicates + 1, a.overflows, ?_, ?_⟩
    · unfold Account.refused
      omega
    · exact { h with queue := { h.queue with duplicates := h.queue.duplicates.succSat } }
  | overflow =>
    refine ⟨a.loops, a.duplicates, a.overflows + 1, rfl, ?_⟩
    exact { h with queue := { h.queue with overflows := h.queue.overflows.succSat } }

/-- Counters that have not reached their end show the account itself. -/
theorem Balances.agree (hc : ∀ c ∈ l.counters, c ≠ 0xffffffff) :
    (l.received.toNat = a.queued ∧ l.received = l.queue.counts.enqueued ∧
        l.queue.counts.enqueued = l.surveyReceived) ∧
      l.queue.counts.enqueued.toNat = l.queue.counts.dequeued.toNat + l.queue.size ∧
      l.queue.counts.dequeued.toNat = l.relayed.toNat + l.dropped.toNat ∧
      l.relayed = l.surveyRelayed ∧
      l.sent.toNat = a.broadcasts + a.messages ∧
      l.packets.size = l.sent.toNat + l.relayed.toNat ∧
      l.queue.counts.duplicates.toNat + l.queue.counts.loops.toNat +
        l.queue.counts.overflows.toNat = a.refused := by
  simp only [counters, List.forall_mem_cons] at hc
  obtain ⟨csent, creceived, crelayed, cdropped, csurveyReceived, csurveyRelayed, cenqueued,
    cdequeued, cduplicates, cloops, coverflows, -⟩ := hc
  have hreceived := h.received.eq_of_ne creceived
  have henqueued := h.queue.enqueued.eq_of_ne cenqueued
  have hsurveyed := h.surveyReceived.eq_of_ne csurveyReceived
  have hdequeued := h.queue.dequeued.eq_of_ne cdequeued
  have hrelayed := h.relayed.eq_of_ne crelayed
  have hpassed := h.surveyRelayed.eq_of_ne csurveyRelayed
  have hdropped := h.dropped.eq_of_ne cdropped
  have hsent := h.sent.eq_of_ne csent
  have hrefused : l.queue.counts.duplicates.toNat + l.queue.counts.loops.toNat +
      l.queue.counts.overflows.toNat = a.refused := by
    rw [h.queue.duplicates.eq_of_ne cduplicates, h.queue.loops.eq_of_ne cloops,
      h.queue.overflows.eq_of_ne coverflows]
    rfl
  refine ⟨⟨hreceived, ?_, ?_⟩, ?_, ?_, ?_, hsent, ?_, hrefused⟩
  · exact UInt32.toNat.inj (hreceived.trans henqueued.symm)
  · exact UInt32.toNat.inj (henqueued.trans hsurveyed.symm)
  · rw [henqueued, hdequeued, h.queue.size, h.queue.waiting]
  · rw [hdequeued, hrelayed, hdropped]
  · exact UInt32.toNat.inj (hrelayed.trans hpassed.symm)
  · rw [h.packets, hsent, hrelayed]

end Balances

end Ledger

def Reception.isRejected : Reception → Bool
  | .rejected _ => true
  | _ => false

namespace Station

namespace Marks

def queues (m : Marks) : Bool := m.reception = some .queued

def refuses (m : Marks) : Bool := m.reception.any Reception.isRejected

end Marks

def queuedIn : Station → Nat → List Op → Nat := tally fun s op => (s.marks op).queues.toNat

def refusedIn : Station → Nat → List Op → Nat := tally fun s op => (s.marks op).refuses.toNat

def broadcastsIn : Station → Nat → List Op → Nat := tally fun s op => (s.broadcasts op).toNat

def messagesIn : Station → Nat → List Op → Nat := tally fun s op => (s.runsSlot 0 op).toNat

/-- What an operation with such marks adds to the account, besides what becomes of a packet that
it takes from the queue. -/
structure Adds (m : Marks) (a a' : Account) : Prop where
  broadcasts : a'.broadcasts = a.broadcasts + m.broadcasts.toNat
  messages : a'.messages = a.messages + m.speaks.toNat
  queued : a'.queued = a.queued + m.queues.toNat
  refused : a'.refused = a.refused + m.refuses.toNat

theorem balances_tidied {s : Station} {l : Ledger} {a : Account} (h : l.Balances a) (op : Op) :
    { l with queue := s.tidied op l.queue }.Balances a := by
  unfold tidied
  split
  · exact { h with queue := { h.queue with } }
  · exact h

theorem balances_step {s : Station} (h : s.clockwork.InStep) {a : Account}
    (ha : s.ledger.Balances a) {op : Op} (hr : op.isReset = false) :
    ∃ a', Adds (s.marks op) a a' ∧ (s.step op).ledger.Balances a' := by
  have hb := books_step h op
  generalize (s.step op).ledger = l at hb
  cases hb with
  | @kept r hm hq hr =>
    have hq' : (r = some .queued) = False := eq_false hq
    have hr' : r.any Reception.isRejected = false := by
      cases r with
      | none => rfl
      | some r =>
        cases r with
        | rejected why => exact absurd rfl (hr why)
        | _ => rfl
    rw [hm]
    refine ⟨a, ⟨rfl, rfl, ?_, ?_⟩, ha⟩
    · simp [Marks.queues, hq']
    · simp [Marks.refuses, hr']
  | accepted hm hp ht hl hf =>
    rw [hm]
    refine ⟨_, ?_, ha.gain hf _ _⟩
    exact ⟨rfl, rfl, rfl, rfl⟩
  | refused hm hp hd =>
    obtain ⟨loops, duplicates, overflows, hsum, hb⟩ := ha.refuse _
    rw [hm]
    refine ⟨_, ?_, hb⟩
    exact ⟨rfl, rfl, rfl, hsum⟩
  | beacon hm =>
    rw [hm]
    refine ⟨_, ?_, ha.broadcast _⟩
    exact ⟨rfl, rfl, rfl, rfl⟩
  | message hm =>
    rw [hm]
    refine ⟨_, ?_, ha.message _⟩
    exact ⟨rfl, rfl, rfl, rfl⟩
  | idle hm hq =>
    rw [hm]
    exact ⟨a, ⟨rfl, rfl, rfl, rfl⟩, balances_tidied ha op⟩
  | lost hm hq =>
    rw [hm]
    refine ⟨_, ?_, balances_tidied (ha.lose hq) op⟩
    exact ⟨rfl, rfl, rfl, rfl⟩
  | copied hm hq hc =>
    rw [hm]
    refine ⟨_, ?_, balances_tidied (ha.pass hq _) op⟩
    exact ⟨rfl, rfl, rfl, rfl⟩
  | reset hm => cases (congrArg Marks.resets hm).symm.trans hr

theorem balances_start {settings : Settings} {receivers : Receivers} {s : Station}
    (hs : Station.start settings receivers = .ok s) : s.ledger.Balances {} := by
  obtain ⟨-, rfl⟩ := start_eq hs
  have hempty : Relay.Queue.empty.Balances 0 0 0 0 0 := by
    refine ⟨rfl, rfl, rfl, rfl, rfl, ?_, ?_⟩ <;> rw [Relay.Queue.waiting_empty] <;> rfl
  exact ⟨hempty, rfl, rfl, rfl, rfl, rfl, rfl, rfl⟩

theorem balances_run {s : Station} (h : s.clockwork.InStep) {a : Account}
    (ha : s.ledger.Balances a) {ops : List Op} (hr : ∀ op ∈ ops, op.isReset = false) :
    ∃ a', a'.broadcasts = s.broadcastsIn a.broadcasts ops ∧
      a'.messages = s.messagesIn a.messages ops ∧ a'.queued = s.queuedIn a.queued ops ∧
      a'.refused = s.refusedIn a.refused ops ∧ (s.run ops).ledger.Balances a' := by
  induction ops generalizing s a with
  | nil => exact ⟨a, rfl, rfl, rfl, rfl, ha⟩
  | cons op ops ih =>
    have hop : op.isReset = false := hr op List.mem_cons_self
    obtain ⟨b, hadds, hb⟩ := balances_step h ha hop
    obtain ⟨a', h1, h2, h3, h4, ha'⟩ := ih (inStep_step h op) hb fun o ho =>
      hr o (List.mem_cons_of_mem op ho)
    have hcons (count : Station → Op → Nat) (n : Nat) :
        s.tally count n (op :: ops) = (s.step op).tally count (n + count s op) ops := by
      rw [tally, hop]
      rfl
    refine ⟨a', ?_, ?_, ?_, ?_, ha'⟩
    · rw [h1, hadds.broadcasts]
      exact (hcons ..).symm
    · rw [h2, hadds.messages]
      exact (hcons ..).symm
    · rw [h3, hadds.queued]
      exact (hcons ..).symm
    · rw [h4, hadds.refused]
      exact (hcons ..).symm

/-- Without a reset, and as long as no counter has reached its end, the counters agree. What was
queued is what the node, the queue and the survey say was received; it is taken out or waits;
what is taken out is relayed or dropped; and every packet sent is a broadcast of the first two
phases, a message of slot zero or a copy. -/
theorem counters_balance {settings : Settings} {receivers : Receivers} {s : Station}
    (hs : Station.start settings receivers = .ok s) {ops : List Op}
    (hr : ∀ op ∈ ops, op.isReset = false)
    (hc : ∀ c ∈ (s.run ops).ledger.counters, c ≠ 0xffffffff) :
    let u := s.run ops
    let node := u.node.counts
    let queue := u.queue.counts
    let survey := u.survey.measures
    (s.queuedIn 0 ops = node.received.toNat ∧ node.received = queue.enqueued ∧
        queue.enqueued = survey.received) ∧
      queue.enqueued.toNat = queue.dequeued.toNat + u.queue.size ∧
      queue.dequeued.toNat = node.relayed.toNat + node.dropped.toNat ∧
      node.relayed = survey.relayed ∧
      node.sent.toNat = s.broadcastsIn 0 ops + s.messagesIn 0 ops ∧
      u.outbox.packets.size = node.sent.toNat + node.relayed.toNat ∧
      queue.duplicates.toNat + queue.loops.toNat + queue.overflows.toNat = s.refusedIn 0 ops := by
  intro u node queue survey
  obtain ⟨a, hbroadcasts, hmessages, hqueued, hrefused, hb⟩ :=
    balances_run (Reachable.start hs).inStep (balances_start hs) hr
  have hagree := hb.agree hc
  rw [hbroadcasts, hmessages, hqueued, hrefused] at hagree
  obtain ⟨hreceived, hrest⟩ := hagree
  exact ⟨⟨hreceived.1.symm, hreceived.2⟩, hrest⟩

/-- A station queues three of five packets and relays two of them in the first two slots for
relaying. -/
theorem counters_balance_three_queued :
    let c : Settings := { id := 1, plan := ⟨1, 50, 1, 10⟩ }
    let packet (sender : NodeId) (life : UInt8) : Packet :=
      { (fresh { id := sender } {}).beacon with life }
    let ops : List Op := [.tick ⟨0⟩, .tick ⟨10⟩, .receive (packet 7 5) (-50) ⟨110⟩,
      .receive (packet 7 5) (-50) ⟨111⟩, .receive (packet 8 0) (-50) ⟨112⟩,
      .receive (packet 9 3) (-50) ⟨113⟩, .receive (packet 1 3) (-50) ⟨114⟩,
      .tick ⟨120⟩, .tick ⟨220⟩, .tick ⟨320⟩]
    let s := fresh c {}
    Station.start c {} = .ok s ∧ (∀ op ∈ ops, op.isReset = false) ∧
      (∀ c ∈ (s.run ops).ledger.counters, c ≠ 0xffffffff) ∧ s.queuedIn 0 ops = 3 ∧
      (s.run ops).node.counts.received.toNat = 3 := by
  intro c packet ops s
  have hs : Station.start c {} = .ok s := rfl
  have hr : ∀ op ∈ ops, op.isReset = false := by decide
  -- the test of the list, since a decision over all words would not end
  have hall : (s.run ops).ledger.counters.all (· != 0xffffffff) = true := by decide +kernel
  have hc : ∀ c ∈ (s.run ops).ledger.counters, c ≠ 0xffffffff :=
    fun c hm => bne_iff_ne.1 (List.all_eq_true.1 hall c hm)
  have hq : s.queuedIn 0 ops = 3 := by decide +kernel
  have hb := counters_balance hs hr hc
  exact ⟨hs, hr, hc, hq, hb.1.1.symm.trans hq⟩

end Station
end ClusterMesh
