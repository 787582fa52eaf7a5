import ClusterMesh.Proofs.Relay.Queue

/-! The packets that wait in a queue, as a list, and those that it remembers, as a map. Taking
a packet adds one entry to the list, taking one out removes one, and nothing else moves it. -/
namespace ClusterMesh.Relay.Queue

def waiting (q : Queue) : List Entry := q.slots.toList.filterMap id

inductive Enqueues (q : Queue) (p : Packet) (own : NodeId) (now : Instant) :
    Except Refusal Unit × Queue → Prop
  | loop (hl : own ∈ p.path.toList) : Enqueues q p own now (.error .loop, q.refuse .loop)
  | duplicate (hl : own ∉ p.path.toList) (hs : q.hasSeen p.sender (mark p) = true) :
      Enqueues q p own now (.error .duplicate, q.refuse .duplicate)
  | overflow (hl : own ∉ p.path.toList) (hf : q.freeSlot? = none) :
      Enqueues q p own now (.error .overflow, q.refuse .overflow)
  | stored {slot : Fin capacity} (hl : own ∉ p.path.toList) (hf : q.freeSlot? = some slot) :
      Enqueues q p own now (.ok (), q.store slot p now)

theorem enqueues (q : Queue) (p : Packet) (own : NodeId) (now : Instant) :
    q.Enqueues p own now (q.enqueue p own now) := by
  unfold enqueue
  by_cases hl : own ∈ p.path.toList
  · rw [if_pos (by simpa [Bounded.contains] using hl)]
    exact .loop hl
  · rw [if_neg (by simpa [Bounded.contains] using hl)]
    by_cases hs : q.hasSeen p.sender (mark p) = true
    · rw [if_pos hs]
      exact .duplicate hl hs
    · rw [if_neg hs]
      cases hf : q.freeSlot? with
      | none => exact .overflow hl hf
      | some slot => exact .stored hl hf

/-! ## Entries -/

theorem perm_filterMap_set {α : Type} {l : List (Option α)} {i : Nat} {a : α}
    (h : l[i]? = some none) :
    ((l.set i (some a)).filterMap id).Perm (a :: l.filterMap id) := by
  obtain ⟨hi, hn⟩ := List.getElem?_eq_some_iff.1 h
  have hl : l.filterMap id = (l.take i).filterMap id ++ (l.drop (i + 1)).filterMap id := by
    have hsplit : l = l.take i ++ none :: l.drop (i + 1) := by
      rw [← hn, List.getElem_cons_drop, List.take_append_drop]
    rw [congrArg (List.filterMap id) hsplit, List.filterMap_append]
    rfl
  rw [List.set_eq_take_append_cons_drop, if_pos hi, hl, List.filterMap_append]
  exact List.perm_middle

theorem waiting_store {q : Queue} {slot : Fin capacity} (hf : q.freeSlot? = some slot)
    (p : Packet) (now : Instant) :
    (q.store slot p now).waiting.Perm (⟨p, now, Relay.urgency p.life⟩ :: q.waiting) := by
  have hfree : q.slots[slot] = none := by simpa using List.find?_some hf
  have hslot : q.slots.toList[slot.val]? = some none := by
    rw [← hfree]
    simp
  have hstore : (q.store slot p now).slots =
      q.slots.set slot.val (some ⟨p, now, Relay.urgency p.life⟩) slot.isLt := by
    unfold store
    dsimp only
    rw [slots_remember]
  rw [waiting, hstore, Vector.toList_set]
  exact perm_filterMap_set hslot

theorem waiting_dequeue {q q' : Queue} {e : Entry} (h : q.dequeue? = some (e, q')) :
    q.waiting.Perm (e :: q'.waiting) := by
  obtain ⟨⟨i, e'⟩, hb, hq⟩ := Option.map_eq_some_iff.1 h
  cases hq
  have hi : q.slots[i.val] = some e := foldl_better (by simp) hb
  -- the slot that is emptied is filled again by the entry that it held
  have hslot : (q.slots.toList.set i.val none)[i.val]? = some none := by simp
  have hback : (q.slots.toList.set i.val none).set i.val (some e) = q.slots.toList := by
    rw [List.set_set, ← hi, ← Vector.getElem_toList (by simp), List.set_getElem_self]
  have hp := perm_filterMap_set (a := e) hslot
  rw [hback, ← Vector.toList_set (h := i.isLt)] at hp
  exact hp

@[simp] theorem waiting_empty : empty.waiting = [] := by
  simp [waiting, empty]

@[simp] theorem waiting_clear (q : Queue) : q.clear.waiting = [] := waiting_empty

/-- The entry that is looked at is the one that is taken out next. -/
theorem peek?_eq (q : Queue) : q.peek? = q.dequeue?.map Prod.fst := by
  cases hb : q.best? <;> simp [peek?, dequeue?, hb]

/-- The mark is the number whose high half is the sender and whose low half is the life. -/
theorem toNat_mark (p : Packet) : (mark p).toNat = p.sender.toNat * 4294967296 + p.life.toNat := by
  have hsender := p.sender.toNat_lt
  have hlife : p.life.toNat < 2 ^ 32 := Nat.lt_trans p.life.toNat_lt (by decide)
  have hshift : (p.sender.toUInt64 <<< 32).toNat = p.sender.toNat <<< 32 := by
    rw [UInt64.toNat_shiftLeft, UInt32.toNat_toUInt64]
    exact Nat.mod_eq_of_lt (by rw [Nat.shiftLeft_eq]; simp; omega)
  rw [mark, UInt64.toNat_or, hshift, UInt8.toNat_toUInt64, ← Nat.shiftLeft_add_eq_or_of_lt hlife,
    Nat.shiftLeft_eq]

/-- Packets with one key have the same sender and the same life. -/
theorem life_eq_of_mark_eq {p q : Packet} (hs : p.sender = q.sender) (hm : mark p = mark q) :
    p.life = q.life := by
  have hn := congrArg UInt64.toNat hm
  rw [toNat_mark, toNat_mark, hs] at hn
  exact UInt8.toNat.inj (Nat.add_left_cancel hn)

/-- A packet that is stored is the only one that the memory can gain. -/
theorem memory_of_store {q : Queue} {slot : Fin capacity} {p : Packet} {now : Instant}
    {k : NodeId × UInt64} {v : Sighting} (h : (q.store slot p now).memory.get? k = some v) :
    k = (p.sender, mark p) ∧ v.seenAt = now ∨ q.memory.get? k = some v := by
  unfold store remember at h
  dsimp only at h
  split at h
  · exact .inr h
  · dsimp only at h
    rw [Table.get?_insert] at h
    split at h
    · next hk =>
      cases h
      exact .inl ⟨hk.symm, rfl⟩
    · exact .inr h

/-- What is left in the memory was there and is young enough. -/
theorem memory_of_forget {q : Queue} {now : Instant} {maxAge : Span} {k : NodeId × UInt64}
    {v : Sighting} (h : (q.forget now maxAge).1.memory.get? k = some v) :
    q.memory.get? k = some v ∧ now.since v.seenAt ≤ maxAge := by
  obtain ⟨hq, hv⟩ := Table.get?_filter_eq_some_iff.1 h
  exact ⟨hq, of_decide_eq_true hv⟩

/-! ## Counts -/

theorem store_keeps (q : Queue) (slot : Fin capacity) (p : Packet) (now : Instant) :
    (q.store slot p now).size = q.size + 1 ∧
      (q.store slot p now).counts = { q.counts with enqueued := q.counts.enqueued.succSat } := by
  unfold store remember
  dsimp only
  split <;> exact ⟨rfl, rfl⟩

theorem dequeue_keeps {q q' : Queue} {e : Entry} (h : q.dequeue? = some (e, q')) :
    q'.size = q.size - 1 ∧ q'.memory = q.memory ∧
      q'.counts = { q.counts with dequeued := q.counts.dequeued.succSat } := by
  obtain ⟨⟨i, e'⟩, -, hq⟩ := Option.map_eq_some_iff.1 h
  cases hq
  exact ⟨rfl, rfl, rfl⟩

end ClusterMesh.Relay.Queue
