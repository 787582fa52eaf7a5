import Mathlib.Data.List.Induction
import Mathlib.Data.List.Nodup
import ClusterMesh.Proofs.Relay.Stock

/-! In which order packets leave a queue. The scan for the next one keeps the best entry so far,
and as it goes up through the slots, that is the one with the most life left, of equals the one in
the lowest slot. So taking entries out until none is left sorts them. -/
namespace ClusterMesh.Relay

/-- An entry leaves before another: it has more life left, or as much in a lower slot. -/
def Precedes (a b : Fin capacity × Entry) : Prop :=
  b.2.packet.life < a.2.packet.life ∨ a.2.packet.life = b.2.packet.life ∧ a.1 < b.1

theorem Precedes.trans {a b c : Fin capacity × Entry} (h : Precedes a b) (h' : Precedes b c) :
    Precedes a c := by
  simp only [Precedes, UInt8.lt_iff_toNat_lt, ← UInt8.toNat_inj, Fin.lt_def] at *
  omega

namespace Queue
variable {q q' : Queue} {gone : Nat}

/-! ## The scan -/

/-- Less urgent is what has less life left. -/
theorem urgency_le_iff (a b : UInt8) : urgency a ≤ urgency b ↔ b ≤ a := by
  have ha := a.toNat_lt
  have hb := b.toNat_lt
  rw [UInt8.le_iff_toNat_le, UInt8.le_iff_toNat_le, toNat_urgency, toNat_urgency]
  omega

def Leads (q : Queue) (slots : List (Fin capacity)) : Option (Fin capacity × Entry) → Prop
  | none => ∀ i ∈ slots, q.slots.get i = none
  | some b => b.1 ∈ slots ∧ q.slots.get b.1 = some b.2 ∧
      ∀ i ∈ slots, ∀ d, q.slots.get i = some d → i ≠ b.1 → Precedes b (i, d)

theorem better_of_free {k : Fin capacity} (hk : q.slots.get k = none)
    (best : Option (Fin capacity × Entry)) : q.better best k = best := by
  have hk' : q.slots[k] = none := hk
  simp [better, hk']

theorem better_none {k : Fin capacity} {d : Entry} (hk : q.slots.get k = some d) :
    q.better none k = some (k, d) := by
  have hk' : q.slots[k] = some d := hk
  simp [better, hk']

theorem better_some {k : Fin capacity} {d : Entry} (hk : q.slots.get k = some d)
    (b : Fin capacity × Entry) :
    q.better (some b) k = if b.2.urgency ≤ d.urgency then some b else some (k, d) := by
  have hk' : q.slots[k] = some d := hk
  simp [better, hk']

/-- A slot above all those before can only hold the best entry if that has more life. -/
theorem Leads.better (hu : ∀ e, q.Holds e → e.urgency = Relay.urgency e.packet.life)
    {slots : List (Fin capacity)} {best : Option (Fin capacity × Entry)} (h : q.Leads slots best)
    {k : Fin capacity} (hk : ∀ i ∈ slots, i < k) : q.Leads (slots ++ [k]) (q.better best k) := by
  cases hslot : q.slots.get k with
  | none =>
    rw [better_of_free hslot]
    cases best with
    | none => exact List.forall_mem_append.2 ⟨h, by simpa using hslot⟩
    | some b =>
      obtain ⟨hb, hget, hlead⟩ := h
      exact ⟨by simp [hb], hget, List.forall_mem_append.2 ⟨hlead, by simp [hslot]⟩⟩
  | some e =>
    cases best with
    | none =>
      rw [better_none hslot]
      refine ⟨by simp, hslot, List.forall_mem_append.2 ⟨fun i hi d hd => ?_, by simp⟩⟩
      simp [h i hi] at hd
    | some b =>
      obtain ⟨hb, hget, hlead⟩ := h
      have hle : b.2.urgency ≤ e.urgency ↔ e.packet.life ≤ b.2.packet.life := by
        rw [hu b.2 ⟨b.1, hget⟩, hu e ⟨k, hslot⟩, urgency_le_iff]
      rw [better_some hslot]
      by_cases hlife : e.packet.life ≤ b.2.packet.life
      · have hafter : Precedes b (k, e) := by
          obtain hlt | heq := UInt8.lt_or_eq_of_le hlife
          · exact .inl hlt
          · exact .inr ⟨heq.symm, hk b.1 hb⟩
        rw [if_pos (hle.2 hlife)]
        exact ⟨by simp [hb], hget, List.forall_mem_append.2 ⟨hlead, by simp [hslot, hafter]⟩⟩
      · have hfirst : Precedes (k, e) b := .inl (UInt8.not_le.1 hlife)
        rw [if_neg (mt hle.1 hlife)]
        refine ⟨by simp, hslot, List.forall_mem_append.2 ⟨fun i hi d hd hne => ?_, by simp⟩⟩
        by_cases hib : i = b.1
        · obtain rfl : d = b.2 := by simpa [hib, hget] using hd.symm
          exact hib ▸ hfirst
        · exact hfirst.trans (hlead i hi d hd hib)

theorem leads_foldl (hu : ∀ e, q.Holds e → e.urgency = Relay.urgency e.packet.life)
    {slots : List (Fin capacity)} (hs : slots.Pairwise (· < ·)) :
    q.Leads slots (slots.foldl q.better none) := by
  induction slots using List.reverseRecOn with
  | nil => simp [Leads]
  | append_singleton slots k ih =>
    obtain ⟨hslots, -, hlt⟩ := List.pairwise_append.1 hs
    rw [List.foldl_append]
    exact (ih hslots).better hu fun i hi => hlt i hi k (by simp)

theorem Stocked.leads_best? (h : q.Stocked gone) : q.Leads (List.finRange capacity) q.best? :=
  leads_foldl h.urgency (List.pairwise_lt_finRange capacity)

/-! ## Taking out -/

/-- What is taken out leaves before all that stays. -/
theorem Stocked.precedes_of_dequeue? (h : q.Stocked gone) {e : Entry}
    (hq : q.dequeue? = some (e, q')) :
    ∃ slot, q.slots.get slot = some e ∧
      (∀ i d, q.slots.get i = some d → i ≠ slot → Precedes (slot, e) (i, d)) ∧
      ∀ i, q'.slots.get i = if i = slot then none else q.slots.get i := by
  obtain ⟨slot, hb, hslots⟩ := best?_of_dequeue? hq
  have hlead := h.leads_best?
  rw [hb] at hlead
  obtain ⟨-, hget, hlead⟩ := hlead
  exact ⟨slot, hget, fun i => hlead i (List.mem_finRange i), hslots⟩

theorem Stocked.dequeue?_eq_none_iff (h : q.Stocked gone) :
    q.dequeue? = none ↔ ∀ i, q.slots.get i = none := by
  have hlead := h.leads_best?
  cases hb : q.best? with
  | none =>
    rw [hb] at hlead
    simpa [dequeue?, hb] using fun i => hlead i (List.mem_finRange i)
  | some b =>
    rw [hb] at hlead
    have hget : q.slots.get b.1 ≠ none := by simp [hlead.2.1]
    simpa [dequeue?, hb] using ⟨b.1, hget⟩

/-! ## Taking out until none is left -/

def occupied (q : Queue) : List (Fin capacity × Entry) :=
  (List.finRange capacity).filterMap fun i => (q.slots.get i).map fun e => (i, e)

theorem mem_occupied {i : Fin capacity} {e : Entry} :
    (i, e) ∈ q.occupied ↔ q.slots.get i = some e := by
  simp [occupied]

theorem nodup_occupied (q : Queue) : q.occupied.Nodup := by
  refine (List.nodup_finRange capacity).filterMap ?_
  intro i j b hi hj
  simp only [Option.mem_def, Option.map_eq_some_iff] at hi hj
  obtain ⟨e, -, rfl⟩ := hi
  obtain ⟨d, -, hd⟩ := hj
  exact (congrArg Prod.fst hd).symm

theorem perm_occupied {slot : Fin capacity} {e : Entry} (he : q.slots.get slot = some e)
    (hslots : ∀ i, q'.slots.get i = if i = slot then none else q.slots.get i) :
    q.occupied.Perm ((slot, e) :: q'.occupied) := by
  have hgone : (slot, e) ∉ q'.occupied := by simp [mem_occupied, hslots]
  refine (List.perm_ext_iff_of_nodup q.nodup_occupied
    (List.nodup_cons.2 ⟨hgone, q'.nodup_occupied⟩)).2 ?_
  rintro ⟨i, d⟩
  rw [List.mem_cons, mem_occupied, mem_occupied, hslots]
  by_cases hi : i = slot
  · simp [hi, he, eq_comm]
  · simp [hi]

theorem run_dequeue_of_none (h : q.dequeue? = none) (k : Nat) :
    q.run (List.replicate k .dequeue) = q := by
  have hstep : q.step .dequeue = q := by simp [step, h]
  induction k with
  | zero => rfl
  | succ k ih =>
    calc q.run (List.replicate (k + 1) .dequeue)
        = (q.step .dequeue).run (List.replicate k .dequeue) := rfl
      _ = q := by rw [hstep, ih]

/-- Each entry that waits is taken out once, in the order of leaving, and then there is none. -/
theorem Stocked.exists_served (h : q.Stocked gone) :
    ∃ served : List (Fin capacity × Entry), served.Perm q.occupied ∧
      served.Pairwise Precedes ∧
      ∀ k, (q.run (List.replicate k .dequeue)).dequeue?.map Prod.fst =
        served[k]?.map Prod.snd := by
  induction hn : q.occupied.length using Nat.strongRecOn generalizing q with
  | ind n ih =>
    cases hq : q.dequeue? with
    | none =>
      have hfree := h.dequeue?_eq_none_iff.1 hq
      have hnone : q.occupied = [] := by simp [occupied, hfree]
      refine ⟨[], by rw [hnone], List.Pairwise.nil, fun k => ?_⟩
      simp [run_dequeue_of_none hq, hq]
    | some r =>
      obtain ⟨e, q'⟩ := r
      obtain ⟨slot, he, hfirst, hslots⟩ := h.precedes_of_dequeue? hq
      have hperm := perm_occupied he hslots
      have hlen : q'.occupied.length < n := by
        have := hperm.length_eq
        rw [List.length_cons] at this
        omega
      obtain ⟨served, hserved, hsorted, hk⟩ := ih _ hlen (h.dequeue hq) rfl
      refine ⟨(slot, e) :: served, (hserved.cons _).trans hperm.symm,
        List.pairwise_cons.2 ⟨fun a ha => ?_, hsorted⟩, fun k => ?_⟩
      · obtain ⟨i, d⟩ := a
        have hd := mem_occupied.1 (hserved.mem_iff.1 ha)
        rw [hslots] at hd
        by_cases hi : i = slot
        · simp [hi] at hd
        · rw [if_neg hi] at hd
          exact hfirst i d hd hi
      · cases k with
        | zero => simp [Queue.run, hq]
        | succ k =>
          have hstep : q.step .dequeue = q' := by simp [Queue.step, hq]
          calc (q.run (List.replicate (k + 1) .dequeue)).dequeue?.map Prod.fst
              = ((q.step .dequeue).run (List.replicate k .dequeue)).dequeue?.map Prod.fst := rfl
            _ = ((slot, e) :: served)[k + 1]?.map Prod.snd := by rw [hstep, hk]; rfl

/-! ## Putting in -/

theorem lowest_of_freeSlot? {slot : Fin capacity} (h : q.freeSlot? = some slot) :
    q.slots.get slot = none ∧ ∀ i < slot, q.slots.get i ≠ none := by
  obtain ⟨hfree, k, hk, hkslot, hbelow⟩ := List.find?_eq_some_iff_getElem.1 h
  obtain rfl : k = slot.val := by simpa using congrArg Fin.val hkslot
  refine ⟨Option.isNone_iff_eq_none.1 hfree, fun i hi hnone => ?_⟩
  have hused := hbelow i.val hi
  rw [List.getElem_finRange] at hused
  have hnone' : q.slots[i] = none := hnone
  simp [hnone'] at hused

/-- A packet that is taken goes into the lowest free slot. -/
theorem lowest_of_enqueue {p : Packet} {own : NodeId} {now : Instant}
    (h : q.enqueue p own now = (.ok (), q')) :
    ∃ slot, q.slots.get slot = none ∧ (∀ i < slot, q.slots.get i ≠ none) ∧
      ∀ i, q'.slots.get i = if i = slot then some ⟨p, now, urgency p.life⟩ else q.slots.get i := by
  have hr := q.enqueues p own now
  rw [h] at hr
  cases hr with
  | @stored slot _ hf =>
    obtain ⟨hfree, hbelow⟩ := lowest_of_freeSlot? hf
    exact ⟨slot, hfree, hbelow, fun i => get_store q slot i p now⟩

/-! ## Every run -/

/-- Whatever was done to a new queue, the entry that is seen next is the one that is taken out
next; taking out until none is left gives every entry once, most life first and of equals the
lower slot first; and what is put in goes into the lowest free slot. -/
theorem leaves_in_order (ops : List Op) :
    (empty.run ops).peek? = (empty.run ops).dequeue?.map Prod.fst ∧
      (∃ served : List (Fin capacity × Entry), served.Perm (empty.run ops).occupied ∧
        served.Pairwise Precedes ∧
        ∀ k, (empty.run (ops ++ List.replicate k .dequeue)).dequeue?.map Prod.fst =
          served[k]?.map Prod.snd) ∧
      (∀ e q', (empty.run ops).dequeue? = some (e, q') →
        ∃ slot, (empty.run ops).slots.get slot = some e ∧
          (∀ i d, (empty.run ops).slots.get i = some d → i ≠ slot → Precedes (slot, e) (i, d)) ∧
          ∀ i, q'.slots.get i = if i = slot then none else (empty.run ops).slots.get i) ∧
      ∀ p own now q', (empty.run ops).enqueue p own now = (.ok (), q') →
        ∃ slot, (empty.run ops).slots.get slot = none ∧
          (∀ i < slot, (empty.run ops).slots.get i ≠ none) ∧
          ∀ i, q'.slots.get i =
            if i = slot then some ⟨p, now, urgency p.life⟩ else (empty.run ops).slots.get i := by
  have h := stocked_empty.run ops
  have hrun : ∀ k, empty.run (ops ++ List.replicate k .dequeue) =
      (empty.run ops).run (List.replicate k .dequeue) := by simp [run]
  simp only [hrun]
  generalize empty.run ops = q at h
  exact ⟨q.peek?_eq, h.exists_served, fun e q' => h.precedes_of_dequeue?,
    fun p own now q' => lowest_of_enqueue⟩

/-- The third packet fills the slot that the first one left. So it goes before the second, which
has as much life and came earlier, and a fourth one finds the slot above both. -/
theorem leaves_in_order_through_gap :
    let p (sender : NodeId) : Packet := { sender, life := 5 }
    let ops : List Op :=
      [.enqueue (p 1) 9 ⟨0⟩, .enqueue (p 2) 9 ⟨1⟩, .dequeue, .enqueue (p 3) 9 ⟨2⟩]
    ∃ q' q'' slot other free,
      (empty.run ops).dequeue? = some (⟨p 3, ⟨2⟩, 250⟩, q') ∧ slot.val = 0 ∧
      other.val = 1 ∧ Precedes (slot, ⟨p 3, ⟨2⟩, 250⟩) (other, ⟨p 2, ⟨1⟩, 250⟩) ∧
      (empty.run ops).enqueue (p 4) 9 ⟨3⟩ = (.ok (), q'') ∧ free.val = 2 ∧
      q''.slots.get free = some ⟨p 4, ⟨3⟩, 250⟩ := by
  intro p ops
  obtain ⟨-, -, hout, hin⟩ := leaves_in_order ops
  have hnext : (empty.run ops).dequeue?.map Prod.fst = some ⟨p 3, ⟨2⟩, 250⟩ := by decide +kernel
  have htaken : ((empty.run ops).enqueue (p 4) 9 ⟨3⟩).1 = .ok () := by decide +kernel
  have hthird : ∀ i, (empty.run ops).slots.get i = some ⟨p 3, ⟨2⟩, 250⟩ → i.val = 0 := by
    decide +kernel
  have hsecond : ∃ i, i.val = 1 ∧ (empty.run ops).slots.get i = some ⟨p 2, ⟨1⟩, 250⟩ := by
    decide +kernel
  have hfree : ∀ i, (empty.run ops).slots.get i = none ↔ 2 ≤ i.val := by decide +kernel
  generalize empty.run ops = q at *
  obtain ⟨q', hq⟩ : ∃ q', q.dequeue? = some (⟨p 3, ⟨2⟩, 250⟩, q') := by simpa using hnext
  obtain ⟨slot, hslot, hfirst, -⟩ := hout _ q' hq
  obtain ⟨other, hone, hother⟩ := hsecond
  obtain ⟨free, hnone, hbelow, hput⟩ := hin (p 4) 9 ⟨3⟩ _ (Prod.ext htaken rfl)
  have hzero := hthird slot hslot
  have htwo : free.val = 2 := by
    have hle := (hfree free).1 hnone
    by_contra hne
    refine hbelow ⟨2, by decide⟩ ?_ ((hfree _).2 (by decide))
    change 2 < free.val
    omega
  refine ⟨q', _, slot, other, free, hq, hzero, hone, hfirst other _ hother ?_,
    Prod.ext htaken rfl, htwo, by simp [hput, p, urgency]⟩
  rintro rfl
  omega

end Queue
end ClusterMesh.Relay
