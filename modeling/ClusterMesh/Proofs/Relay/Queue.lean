import ClusterMesh.Relay.Queue

/-! Which packets wait in a queue. Only taking a packet adds one, and what is taken out was
waiting. -/
namespace ClusterMesh.Relay.Queue

def Holds (q : Queue) (e : Entry) : Prop := ∃ i, q.slots.get i = some e

theorem not_holds_empty (e : Entry) : ¬ empty.Holds e := by
  rintro ⟨i, hi⟩
  change (Vector.replicate capacity none)[i.val] = some e at hi
  simp at hi

theorem not_holds_clear (q : Queue) (e : Entry) : ¬ q.clear.Holds e := not_holds_empty e

theorem holds_forget (q : Queue) (now : Instant) (maxAge : Span) (e : Entry) :
    (q.forget now maxAge).1.Holds e ↔ q.Holds e := Iff.rfl

theorem slots_remember (q : Queue) (p : Packet) (now : Instant) :
    (q.remember p now).slots = q.slots := by
  unfold remember
  split <;> rfl

theorem get_store (q : Queue) (slot i : Fin capacity) (p : Packet) (now : Instant) :
    (q.store slot p now).slots.get i =
      if i = slot then some ⟨p, now, Relay.urgency p.life⟩ else q.slots.get i := by
  unfold store
  dsimp only
  rw [slots_remember]
  change (q.slots.set slot.val _ slot.isLt)[i.val] = if _ then _ else q.slots[i.val]
  rw [Vector.getElem_set]
  by_cases he : i = slot
  · rw [if_pos he, if_pos (by rw [he])]
  · have hne : ¬ slot.val = i.val := fun hv => he (Fin.ext hv).symm
    rw [if_neg he, if_neg hne]

/-- A queue that is offered a packet holds what it held before, and the packet if the one who
offers it is not on its path. -/
theorem holds_enqueue {q : Queue} {p : Packet} {own : NodeId} {now : Instant} {e : Entry}
    (h : (q.enqueue p own now).2.Holds e) : q.Holds e ∨ e.packet = p ∧ own ∉ p.path.toList := by
  unfold enqueue at h
  split at h
  · exact .inl h
  · next hl =>
    split at h
    · exact .inl h
    · split at h
      · exact .inl h
      · next slot _ =>
        obtain ⟨i, hi⟩ := h
        rw [get_store] at hi
        split at hi
        · cases hi
          exact .inr ⟨rfl, by simpa [Bounded.contains] using hl⟩
        · exact .inl ⟨i, hi⟩

theorem foldl_better {q : Queue} {is : List (Fin capacity)}
    {best : Option (Fin capacity × Entry)} {i : Fin capacity} {e : Entry}
    (hb : ∀ j d, best = some (j, d) → q.slots.get j = some d)
    (h : is.foldl q.better best = some (i, e)) : q.slots.get i = some e := by
  induction is generalizing best with
  | nil => exact hb i e h
  | cons k is ih =>
    refine ih (fun j d hj => ?_) h
    unfold better at hj
    split at hj
    · exact hb j d hj
    · next hk =>
      cases hj
      exact hk
    · next hk =>
      split at hj
      · exact hb j d hj
      · cases hj
        exact hk

/-- Taking out empties the slot of the most urgent entry and leaves all others as they are. -/
theorem best?_of_dequeue? {q q' : Queue} {e : Entry} (h : q.dequeue? = some (e, q')) :
    ∃ slot, q.best? = some (slot, e) ∧
      ∀ i, q'.slots.get i = if i = slot then none else q.slots.get i := by
  obtain ⟨⟨slot, e'⟩, hb, hq⟩ := Option.map_eq_some_iff.1 h
  cases hq
  refine ⟨slot, hb, fun i => ?_⟩
  change (q.slots.set slot.val none slot.isLt)[i.val] = if _ then _ else q.slots[i.val]
  rw [Vector.getElem_set]
  by_cases hi : i = slot
  · simp [hi]
  · have hne : ¬ slot.val = i.val := fun hv => hi (Fin.ext hv).symm
    rw [if_neg hne, if_neg hi]

/-- What is taken out was waiting, and what waits afterwards did so before. -/
theorem holds_of_dequeue? {q q' : Queue} {e : Entry} (h : q.dequeue? = some (e, q')) :
    q.Holds e ∧ ∀ d, q'.Holds d → q.Holds d := by
  obtain ⟨slot, hb, hslots⟩ := best?_of_dequeue? h
  refine ⟨⟨slot, foldl_better (by simp) hb⟩, ?_⟩
  rintro d ⟨i, hi⟩
  rw [hslots] at hi
  split at hi
  · cases hi
  · exact ⟨i, hi⟩

end ClusterMesh.Relay.Queue
