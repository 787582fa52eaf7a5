import Mathlib.Data.List.Induction
import ClusterMesh.Proofs.Relay.Stock

/-! What a queue remembers, told from what was done to it. A packet is remembered from when it is
taken, if there is room to do so, until the queue is cleared or what was seen then is forgotten
as too old. A packet is refused as a duplicate exactly while one like it is remembered. -/
namespace ClusterMesh.Relay.Queue
variable {q : Queue} {p p' : Packet} {own : NodeId} {now a : Instant}

def Op.Drops (op : Op) (a : Instant) : Prop :=
  op = .clear ∨ ∃ now maxAge, op = .forget now maxAge ∧ maxAge < now.since a

/-- By the operation a packet with the sender and the life of `p` is taken at `a`, while there is
room in the memory. -/
def Records (q : Queue) (op : Op) (p : Packet) (a : Instant) : Prop :=
  ∃ p' own, op = .enqueue p' own a ∧ p'.sender = p.sender ∧ p'.life = p.life ∧
    (q.enqueue p' own a).1 = .ok () ∧ q.memory.size < memoryCapacity

/-- In the course of the operations on a new queue a packet like `p` was recorded at `a`, and
nothing since then dropped what was seen at `a`. -/
def Recorded (ops : List Op) (p : Packet) (a : Instant) : Prop :=
  ∃ before op after, ops = before ++ op :: after ∧ (empty.run before).Records op p a ∧
    ∀ op' ∈ after, ¬ op'.Drops a

theorem run_concat (q : Queue) (ops : List Op) (op : Op) :
    q.run (ops ++ [op]) = (q.run ops).step op := by
  simp [run]

/-- With one operation more, what was recorded stays unless it is dropped. -/
theorem recorded_concat (ops : List Op) (op : Op) :
    Recorded (ops ++ [op]) p a ↔
      Recorded ops p a ∧ ¬ op.Drops a ∨ (empty.run ops).Records op p a := by
  constructor
  · rintro ⟨before, op', after, hops, hrec, hkept⟩
    obtain rfl | ⟨after, last, rfl⟩ := List.eq_nil_or_concat after
    · obtain ⟨rfl, hop⟩ := List.append_inj' hops rfl
      cases hop
      exact .inr hrec
    · have hops' : ops ++ [op] = (before ++ op' :: after) ++ [last] := by simpa using hops
      obtain ⟨rfl, hop⟩ := List.append_inj' hops' rfl
      cases hop
      exact .inl ⟨⟨before, op', after, rfl, hrec, fun o ho => hkept o (by simp [ho])⟩,
        hkept op (by simp)⟩
  · rintro (⟨⟨before, op', after, rfl, hrec, hkept⟩, hop⟩ | hrec)
    · refine ⟨before, op', after ++ [op], by simp, hrec, fun o ho => ?_⟩
      obtain ho | rfl : o ∈ after ∨ o = op := by simpa using ho
      · exact hkept o ho
      · exact hop
    · exact ⟨ops, op, [], rfl, hrec, by simp⟩

/-! ## The record of a packet -/

def seenAt? (q : Queue) (p : Packet) : Option Instant :=
  (q.memory.get? (p.sender, mark p)).map Sighting.seenAt

theorem hasSeen_eq (q : Queue) (p : Packet) :
    q.hasSeen p.sender (mark p) = (q.seenAt? p).isSome := by
  simp [hasSeen, seenAt?, Table.contains]

theorem key_eq_iff :
    (p.sender, mark p) = (p'.sender, mark p') ↔ p.sender = p'.sender ∧ p.life = p'.life := by
  constructor
  · intro h
    obtain ⟨hs, hm⟩ := Prod.mk.inj h
    exact ⟨hs, life_eq_of_mark_eq hs hm⟩
  · rintro ⟨hs, hl⟩
    simp [mark, hs, hl]

theorem seenAt?_congr (hs : p.sender = p'.sender) (hl : p.life = p'.life) :
    q.seenAt? p = q.seenAt? p' := by
  simp only [seenAt?, key_eq_iff.2 ⟨hs, hl⟩]

theorem seenAt?_store (q : Queue) (slot : Fin capacity) (p p' : Packet) (now : Instant) :
    (q.store slot p now).seenAt? p' =
      if q.memory.size < memoryCapacity ∧ p.sender = p'.sender ∧ p.life = p'.life then some now
      else q.seenAt? p' := by
  by_cases hroom : q.memory.size < memoryCapacity
  · have hfull : q.memory.isFull memoryCapacity = false := by simpa [Table.isFull] using hroom
    simp only [seenAt?, store, remember, hfull, Table.get?_insert, key_eq_iff, hroom, true_and,
      Bool.false_eq_true, if_false]
    split <;> rfl
  · have hfull : q.memory.isFull memoryCapacity = true := by simpa [Table.isFull] using hroom
    simp [seenAt?, store, remember, hfull, hroom]

theorem seenAt?_forget {maxAge : Span} :
    (q.forget now maxAge).1.seenAt? p = some a ↔ q.seenAt? p = some a ∧ now.since a ≤ maxAge := by
  simp only [seenAt?, Option.map_eq_some_iff]
  constructor
  · rintro ⟨v, hv, rfl⟩
    obtain ⟨hv, hage⟩ := memory_of_forget hv
    exact ⟨⟨v, hv, rfl⟩, hage⟩
  · rintro ⟨⟨v, hv, rfl⟩, hage⟩
    exact ⟨v, Table.get?_filter_eq_some_iff.2 ⟨hv, decide_eq_true hage⟩, rfl⟩

/-- The answer to an offer. -/
theorem enqueue_fst (q : Queue) (p : Packet) (own : NodeId) (now : Instant) :
    (q.enqueue p own now).1 =
      if own ∈ p.path.toList then .error .loop
      else if (q.seenAt? p).isSome then .error .duplicate
      else if q.freeSlot? = none then .error .overflow
      else .ok () := by
  simp only [enqueue, Bounded.contains, List.contains_iff_mem, ← hasSeen_eq]
  split
  · rfl
  · split
    · rfl
    · cases q.freeSlot? <;> simp

theorem not_seen_of_ok (h : (q.enqueue p own now).1 = .ok ()) : q.seenAt? p = none := by
  rw [enqueue_fst] at h
  split at h
  · cases h
  · split at h
    · cases h
    · next hs => simpa using hs

theorem store_of_ok (h : (q.enqueue p own now).1 = .ok ()) :
    ∃ slot, (q.enqueue p own now).2 = q.store slot p now := by
  have hr := q.enqueues p own now
  generalize q.enqueue p own now = r at hr h
  cases hr with
  | loop => cases h
  | duplicate => cases h
  | overflow => cases h
  | stored => exact ⟨_, rfl⟩

/-! ## One operation -/

theorem not_drops_enqueue : ¬ (Op.enqueue p own now).Drops a := by
  simp [Op.Drops]

theorem records_enqueue_iff :
    q.Records (.enqueue p' own now) p a ↔
      now = a ∧ p'.sender = p.sender ∧ p'.life = p.life ∧
        (q.enqueue p' own now).1 = .ok () ∧ q.memory.size < memoryCapacity := by
  constructor
  · rintro ⟨_, _, hop, h⟩
    cases hop
    exact ⟨rfl, h⟩
  · rintro ⟨rfl, h⟩
    exact ⟨p', own, rfl, h⟩

/-- An operation keeps the record of a packet unless it drops it, and makes one only when a
packet like it is taken. -/
theorem seenAt?_step (q : Queue) (op : Op) (p : Packet) (a : Instant) :
    (q.step op).seenAt? p = some a ↔
      q.seenAt? p = some a ∧ ¬ op.Drops a ∨ q.Records op p a := by
  cases op with
  | enqueue p' own now =>
    rw [records_enqueue_iff]
    simp only [not_drops_enqueue, not_false_eq_true, and_true]
    cases hr : (q.enqueue p' own now).1 with
    | error why =>
      have hmemory : (q.step (.enqueue p' own now)).memory = q.memory := (enqueue_of_error hr).2.2
      simp [seenAt?, hmemory]
    | ok =>
      obtain ⟨slot, hstore⟩ := store_of_ok hr
      have hnew := not_seen_of_ok hr
      have hstep : q.step (.enqueue p' own now) = q.store slot p' now := hstore
      rw [hstep, seenAt?_store]
      by_cases hlike : q.memory.size < memoryCapacity ∧ p'.sender = p.sender ∧ p'.life = p.life
      · obtain ⟨hroom, hs, hl⟩ := hlike
        rw [seenAt?_congr hs hl] at hnew
        simp [hroom, hs, hl, hnew]
      · rw [if_neg hlike]
        constructor
        · exact .inl
        · rintro (h | ⟨-, hs, hl, -, hroom⟩)
          · exact h
          · exact absurd ⟨hroom, hs, hl⟩ hlike
  | dequeue =>
    have hmemory : (q.step .dequeue).memory = q.memory := by
      cases hq : q.dequeue? with
      | none => simp [step, hq]
      | some r => simp [step, hq, (dequeue_keeps hq).2.1]
    simp [seenAt?, hmemory, Op.Drops, Records]
  | peek => simp [step, Op.Drops, Records]
  | forget now maxAge =>
    have hage : ¬ maxAge < now.since a ↔ now.since a ≤ maxAge := UInt64.not_lt
    simp [step, seenAt?_forget, Op.Drops, Records, hage]
  | clear => simp [step, clear, empty, seenAt?, Op.Drops, Records]

/-! ## Every run -/

/-- A queue remembers a packet exactly while one like it is recorded. -/
theorem seenAt?_run (ops : List Op) (p : Packet) (a : Instant) :
    (empty.run ops).seenAt? p = some a ↔ Recorded ops p a := by
  induction ops using List.reverseRecOn with
  | nil =>
    have hnone : empty.seenAt? p = none := rfl
    simp [run, hnone, Recorded]
  | append_singleton ops op ih => rw [run_concat, seenAt?_step, ih, recorded_concat]

theorem isSome_seenAt?_run (ops : List Op) (p : Packet) :
    ((empty.run ops).seenAt? p).isSome = true ↔ ∃ a, Recorded ops p a := by
  simp only [Option.isSome_iff_exists, seenAt?_run]

/-- While a packet is recorded none like it is taken. A packet is refused as a duplicate exactly if
one like it is recorded and the one who offers it is not on its path. What is refused leaves no
record, and nothing else is remembered than what is recorded. -/
theorem refuses_what_is_recorded (ops : List Op) (p : Packet) (own : NodeId) (now : Instant) :
    (∀ a, Recorded ops p a → ((empty.run ops).enqueue p own now).1 ≠ .ok ()) ∧
      (((empty.run ops).enqueue p own now).1 = .error .duplicate ↔
        own ∉ p.path.toList ∧ ∃ a, Recorded ops p a) ∧
      (∀ why, ((empty.run ops).enqueue p own now).1 = .error why →
        ((empty.run ops).enqueue p own now).2.memory = (empty.run ops).memory) ∧
      ((empty.run ops).hasSeen p.sender (mark p) = true ↔ ∃ a, Recorded ops p a) := by
  have hseen := isSome_seenAt?_run ops p
  refine ⟨fun a ha hok => ?_, ?_, fun why hr => (enqueue_of_error hr).2.2, ?_⟩
  · have hnone := not_seen_of_ok hok
    rw [(seenAt?_run ops p a).2 ha] at hnone
    cases hnone
  · rw [enqueue_fst, ← hseen]
    by_cases hl : own ∈ p.path.toList
    · simp [hl]
    · by_cases hs : ((empty.run ops).seenAt? p).isSome = true
      · simp [hl, hs]
      · by_cases hf : (empty.run ops).freeSlot? = none <;> simp [hl, hs, hf]
  · rw [hasSeen_eq, hseen]

/-- A packet that was taken out again and is as old as may be. The same packet with another path
is refused after that, and taken once it is too old. -/
theorem refuses_what_is_recorded_at_limit :
    let p : Packet := { sender := 7, life := 3 }
    let ops : List Op :=
      [.enqueue p 1 ⟨5⟩, .dequeue, .enqueue { p with sender := 8 } 1 ⟨9⟩, .forget ⟨25⟩ ⟨20⟩]
    let again : Packet := { p with path := (Bounded.empty.push? 7).getD .empty }
    Recorded ops again ⟨5⟩ ∧ ((empty.run ops).enqueue again 1 ⟨30⟩).1 ≠ .ok () ∧
      ((empty.run ops).enqueue again 1 ⟨30⟩).1 = .error .duplicate ∧
      ((empty.run ops).enqueue again 1 ⟨30⟩).2.memory = (empty.run ops).memory ∧
      ((empty.run (ops ++ [.forget ⟨26⟩ ⟨20⟩])).enqueue again 1 ⟨30⟩).1 = .ok () := by
  intro p ops again
  obtain ⟨hrefused, hduplicate, hmemory, -⟩ := refuses_what_is_recorded ops again 1 ⟨30⟩
  have hrec : Recorded ops again ⟨5⟩ := by
    refine ⟨[], .enqueue p 1 ⟨5⟩, _, rfl, ⟨p, 1, rfl, rfl, rfl, by decide +kernel, by decide⟩, ?_⟩
    have hyoung : ¬ (⟨20⟩ : Span) < Instant.since ⟨25⟩ ⟨5⟩ := by decide
    simp [Op.Drops, hyoung]
  have hdup := hduplicate.2 ⟨by decide, _, hrec⟩
  exact ⟨hrec, hrefused _ hrec, hdup, hmemory _ hdup, by decide +kernel⟩

end ClusterMesh.Relay.Queue
