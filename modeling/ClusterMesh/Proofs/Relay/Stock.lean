import ClusterMesh.Proofs.Checked.Parts
import ClusterMesh.Proofs.Station.Accounts

/-! A queue by itself, through any of its operations. Its size is a count kept beside the slots,
its memory has a limit and a lifetime of its own, and a packet that is offered can be refused at
three places. What every operation keeps is collected in `Stocked`, with the number of packets
that were thrown away so far. -/
namespace ClusterMesh.Relay

def Counts.bump (c : Counts) (r : Except Refusal Unit) : Counts :=
  match r with
  | .ok _ => { c with enqueued := c.enqueued.succSat }
  | .error .loop => { c with loops := c.loops.succSat }
  | .error .duplicate => { c with duplicates := c.duplicates.succSat }
  | .error .overflow => { c with overflows := c.overflows.succSat }

namespace Queue

inductive Op where
  | enqueue (p : Packet) (own : NodeId) (now : Instant)
  | dequeue
  | peek
  | forget (now : Instant) (maxAge : Span)
  | clear

def step (q : Queue) : Op → Queue
  | .enqueue p own now => (q.enqueue p own now).2
  | .dequeue => (q.dequeue?.map Prod.snd).getD q
  | .peek => q
  | .forget now maxAge => (q.forget now maxAge).1
  | .clear => q.clear

def run (q : Queue) (ops : List Op) : Queue := ops.foldl step q

def lost (q : Queue) : Op → Nat
  | .clear => q.waiting.length
  | _ => 0

def cleared : Queue → List Op → Nat
  | _, [] => 0
  | q, op :: ops => q.lost op + cleared (q.step op) ops

/-! ## One offer -/

/-- An offer moves the count that its answer names, and no other. -/
theorem counts_enqueue (q : Queue) (p : Packet) (own : NodeId) (now : Instant) :
    (q.enqueue p own now).2.counts = q.counts.bump (q.enqueue p own now).1 := by
  have h := q.enqueues p own now
  generalize q.enqueue p own now = r at h
  cases h with
  | loop => rfl
  | duplicate => rfl
  | overflow => rfl
  | @stored slot => exact (q.store_keeps slot p now).2

/-- An offer that is refused changes the counts alone. -/
theorem enqueue_of_error {q : Queue} {p : Packet} {own : NodeId} {now : Instant} {why : Refusal}
    (hr : (q.enqueue p own now).1 = .error why) :
    (q.enqueue p own now).2.slots = q.slots ∧ (q.enqueue p own now).2.size = q.size ∧
      (q.enqueue p own now).2.memory = q.memory := by
  have h := q.enqueues p own now
  generalize q.enqueue p own now = r at h hr
  cases h with
  | loop => exact ⟨rfl, rfl, rfl⟩
  | duplicate => exact ⟨rfl, rfl, rfl⟩
  | overflow => exact ⟨rfl, rfl, rfl⟩
  | stored => cases hr

/-! ## The slots -/

theorem toNat_urgency (life : UInt8) : (urgency life).toNat = 255 - life.toNat := by
  unfold urgency
  split
  · next h => rw [h]; rfl
  · have hle : life ≤ 255 := UInt8.le_iff_toNat_le.2 (Nat.le_of_lt_succ life.toNat_lt)
    exact UInt8.toNat_sub_of_le _ _ hle

theorem length_waiting (q : Queue) : q.waiting.length = q.slots.toList.countP Option.isSome :=
  List.length_filterMap_eq_countP

/-! ## The memory -/

theorem size_memory_store {q : Queue} (h : q.memory.size ≤ memoryCapacity)
    (slot : Fin capacity) (p : Packet) (now : Instant) :
    (q.store slot p now).memory.size ≤ memoryCapacity := by
  unfold store remember
  dsimp only
  split
  · exact h
  · next hf =>
    have hroom : q.memory.size < memoryCapacity := by simpa [Table.isFull] using hf
    dsimp only
    rw [Table.size_insert]
    split
    · exact h
    · exact hroom

/-- What is stored is remembered under its sender and its mark. -/
theorem key_of_store {q : Queue} (h : ∀ k v, q.memory.get? k = some v → k = (v.sender, v.mark))
    {slot : Fin capacity} {p : Packet} {now : Instant} {k : NodeId × UInt64} {v : Sighting}
    (hv : (q.store slot p now).memory.get? k = some v) : k = (v.sender, v.mark) := by
  unfold store remember at hv
  dsimp only at hv
  split at hv
  · exact h k v hv
  · dsimp only at hv
    rw [Table.get?_insert] at hv
    split at hv
    · next hk =>
      cases hv
      exact hk.symm
    · exact h k v hv

/-! ## Every operation -/

/-- What holds of a queue from which `gone` packets were thrown away. -/
structure Stocked (q : Queue) (gone : Nat) : Prop where
  tallied : q.Tallied
  memory_le : q.memory.size ≤ memoryCapacity
  urgency : ∀ e, q.Holds e → e.urgency = Relay.urgency e.packet.life
  key : ∀ k v, q.memory.get? k = some v → k = (v.sender, v.mark)
  balance : ∃ queued taken, Shows q.counts.enqueued queued ∧ Shows q.counts.dequeued taken ∧
    queued = taken + q.waiting.length + gone

theorem stocked_empty : empty.Stocked 0 where
  tallied := congrArg List.length waiting_empty.symm
  memory_le := Nat.zero_le _
  urgency e he := absurd he (not_holds_empty e)
  key k v hv := by cases hv
  balance := ⟨0, 0, rfl, rfl, by rw [waiting_empty]; rfl⟩

namespace Stocked
variable {q : Queue} {gone : Nat} (h : q.Stocked gone)
include h

theorem store {slot : Fin capacity} (hf : q.freeSlot? = some slot) (p : Packet) (now : Instant) :
    (q.store slot p now).Stocked gone := by
  obtain ⟨queued, taken, hq, ht, hbal⟩ := h.balance
  obtain ⟨hsize, hcounts⟩ := q.store_keeps slot p now
  have hlen := (waiting_store hf p now).length_eq
  rw [List.length_cons] at hlen
  refine ⟨?_, size_memory_store h.memory_le slot p now, ?_, fun _ _ => key_of_store h.key,
    queued + 1, taken, hcounts ▸ hq.succSat, hcounts ▸ ht, by omega⟩
  · have hs : q.size = q.waiting.length := h.tallied
    unfold Tallied
    omega
  · rintro e ⟨i, hi⟩
    rw [get_store] at hi
    split at hi
    · cases hi
      rfl
    · exact h.urgency e ⟨i, hi⟩

theorem refuse (why : Refusal) : (q.refuse why).Stocked gone := by
  cases why <;> exact ⟨h.tallied, h.memory_le, h.urgency, h.key, h.balance⟩

theorem enqueue (p : Packet) (own : NodeId) (now : Instant) :
    (q.enqueue p own now).2.Stocked gone := by
  have hr := q.enqueues p own now
  generalize q.enqueue p own now = r at hr
  cases hr with
  | loop => exact h.refuse .loop
  | duplicate => exact h.refuse .duplicate
  | overflow => exact h.refuse .overflow
  | stored _ hf => exact h.store hf p now

theorem dequeue {e : Entry} {q' : Queue} (hq : q.dequeue? = some (e, q')) : q'.Stocked gone := by
  obtain ⟨queued, taken, hqueued, htaken, hbal⟩ := h.balance
  obtain ⟨-, hmemory, hcounts⟩ := dequeue_keeps hq
  have hlen := (waiting_dequeue hq).length_eq
  rw [List.length_cons] at hlen
  exact ⟨h.tallied.dequeue hq, hmemory ▸ h.memory_le,
    fun d hd => h.urgency d ((holds_of_dequeue? hq).2 d hd), hmemory ▸ h.key,
    queued, taken + 1, hcounts ▸ hqueued, hcounts ▸ htaken.succSat, by omega⟩

theorem forget (now : Instant) (maxAge : Span) : (q.forget now maxAge).1.Stocked gone :=
  ⟨h.tallied, Nat.le_trans (Table.size_filter_le _ _) h.memory_le, h.urgency,
    fun k v hv => h.key k v (memory_of_forget hv).1, h.balance⟩

/-- What waited is gone, and the counts still show it. -/
theorem clear : q.clear.Stocked (gone + q.waiting.length) := by
  obtain ⟨queued, taken, hqueued, htaken, hbal⟩ := h.balance
  refine ⟨stocked_empty.tallied, stocked_empty.memory_le, stocked_empty.urgency,
    stocked_empty.key, queued, taken, hqueued, htaken, ?_⟩
  rw [waiting_clear, List.length_nil]
  omega

theorem step (op : Op) : (q.step op).Stocked (gone + q.lost op) := by
  cases op with
  | enqueue p own now => exact h.enqueue p own now
  | dequeue =>
    unfold Queue.step
    cases hq : q.dequeue? with
    | none => exact h
    | some r => exact h.dequeue hq
  | peek => exact h
  | forget now maxAge => exact h.forget now maxAge
  | clear => exact h.clear

theorem run (ops : List Op) : (q.run ops).Stocked (gone + q.cleared ops) := by
  induction ops generalizing q gone with
  | nil => exact h
  | cons op ops ih =>
    have hrun := ih (h.step op)
    rw [Nat.add_assoc] at hrun
    exact hrun

end Stocked

/-- Whatever is done to a new queue, its size is the number of its occupied slots, its memory is
in order, what was taken in was taken out, thrown away or waits, and an offer either takes the
packet or changes one count. -/
theorem stocked_run (ops : List Op) :
    (empty.run ops).slots.toList.length = 100 ∧
      (empty.run ops).size = (empty.run ops).slots.toList.countP Option.isSome ∧
      (empty.run ops).size ≤ 100 ∧
      (empty.run ops).memory.size ≤ 200 ∧
      (∀ i e, (empty.run ops).slots.get i = some e →
        e.urgency.toNat = 255 - e.packet.life.toNat) ∧
      (∀ k v, (k, v) ∈ (empty.run ops).memory.entries → k = (v.sender, v.mark)) ∧
      ((empty.run ops).counts.enqueued ≠ 0xffffffff →
        (empty.run ops).counts.dequeued ≠ 0xffffffff →
        (empty.run ops).counts.enqueued.toNat =
          (empty.run ops).counts.dequeued.toNat + (empty.run ops).size + empty.cleared ops) ∧
      ∀ p own now,
        ((empty.run ops).enqueue p own now).2.counts =
            (empty.run ops).counts.bump ((empty.run ops).enqueue p own now).1 ∧
          ∀ why, ((empty.run ops).enqueue p own now).1 = .error why →
            ((empty.run ops).enqueue p own now).2.slots = (empty.run ops).slots ∧
              ((empty.run ops).enqueue p own now).2.size = (empty.run ops).size ∧
              ((empty.run ops).enqueue p own now).2.memory = (empty.run ops).memory := by
  have h := stocked_empty.run ops
  rw [Nat.zero_add] at h
  generalize empty.cleared ops = gone at h
  generalize empty.run ops = q at h
  have hsize : q.size = q.waiting.length := h.tallied
  refine ⟨q.slots.length_toList, hsize.trans q.length_waiting, h.tallied.size_le, h.memory_le,
    ?_, ?_, ?_, fun p own now => ⟨counts_enqueue q p own now, fun why => enqueue_of_error⟩⟩
  · intro i e he
    rw [h.urgency e ⟨i, he⟩, toNat_urgency]
  · intro k v hv
    exact h.key k v (Table.get?_eq_some_iff.2 hv)
  · intro hqueued htaken
    obtain ⟨queued, taken, hshows, hshown, hbal⟩ := h.balance
    rw [hshows.eq_of_ne hqueued, hshown.eq_of_ne htaken, hsize]
    exact hbal

/-- Two packets are taken, one of them is taken out, a third is thrown away with the other, and
one more waits. -/
theorem stocked_run_of_five :
    let p : Packet := { sender := 7, life := 3 }
    let ops : List Op := [.enqueue p 1 ⟨0⟩, .enqueue p 1 ⟨5⟩, .enqueue { p with life := 9 } 1 ⟨5⟩,
      .dequeue, .enqueue { p with sender := 8 } 1 ⟨6⟩, .forget ⟨9⟩ ⟨4⟩, .clear, .peek,
      .enqueue { p with path := (Bounded.empty.push? 1).getD .empty } 1 ⟨10⟩, .enqueue p 1 ⟨11⟩]
    (empty.run ops).counts.enqueued = 4 ∧ (empty.run ops).counts.dequeued = 1 ∧
      empty.cleared ops = 2 ∧ (empty.run ops).size = 1 ∧
      (empty.run ops).counts.enqueued.toNat =
        (empty.run ops).counts.dequeued.toNat + (empty.run ops).size + empty.cleared ops ∧
      ((empty.run ops).enqueue p 1 ⟨12⟩).1 = .error .duplicate ∧
      ((empty.run ops).enqueue p 1 ⟨12⟩).2.memory = (empty.run ops).memory := by
  intro p ops
  obtain ⟨-, -, -, -, -, -, hbal, hoffer⟩ := stocked_run ops
  have hqueued : (empty.run ops).counts.enqueued = 4 := by decide +kernel
  have htaken : (empty.run ops).counts.dequeued = 1 := by decide +kernel
  have hseen : (empty.run ops).hasSeen p.sender (mark p) = true := by decide +kernel
  have hagain : ((empty.run ops).enqueue p 1 ⟨12⟩).1 = .error .duplicate := by
    rw [enqueue, if_neg (by decide), if_pos hseen]
  refine ⟨hqueued, htaken, by decide +kernel, by decide +kernel, hbal ?_ ?_, hagain,
    ((hoffer p 1 ⟨12⟩).2 .duplicate hagain).2.2⟩
  · rw [hqueued]
    decide
  · rw [htaken]
    decide

end Queue
end ClusterMesh.Relay
