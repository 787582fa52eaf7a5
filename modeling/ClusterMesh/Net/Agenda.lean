import ClusterMesh.Identity
import ClusterMesh.Time

/-! What is to happen in a simulation, and when. Of two events the earlier one comes first,
and of simultaneous ones that which was scheduled first. -/
namespace ClusterMesh.Net

inductive Action
  | partition (groups : List (List NodeId))
  | heal
  | cut (a b : NodeId)
  | restore (a b : NodeId)
  | setLoss (a b : NodeId) (loss : Float)
  | powerDown (id : NodeId)
  | powerUp (id : NodeId)
  | snapshot

inductive Event
  | delivery (target sender : NodeId) (bytes : List UInt8) (rssi : Int8)
  | tick (id : NodeId)
  | action (a : Action)

structure Scheduled where
  time : Instant
  seq : UInt64
  event : Event

namespace Scheduled

/-- The greater of two is the more urgent, that is the earlier one. -/
def compareUrgency (a b : Scheduled) : Ordering :=
  (compare b.time.ms a.time.ms).then (compare b.seq a.seq)

def simultaneous (a b : Scheduled) : Bool := a.time = b.time && a.seq = b.seq

def before (a b : Scheduled) : Prop :=
  a.time.ms < b.time.ms ∨ a.time.ms = b.time.ms ∧ a.seq < b.seq

instance (a b : Scheduled) : Decidable (a.before b) :=
  inferInstanceAs (Decidable (_ ∨ _))

theorem before_iff {a b : Scheduled} : a.before b ↔
    a.time.ms.toNat < b.time.ms.toNat ∨
      a.time.ms.toNat = b.time.ms.toNat ∧ a.seq.toNat < b.seq.toNat := by
  simp only [before, UInt64.lt_iff_toNat_lt, ← UInt64.toNat_inj]

theorem not_before_trans {a b c : Scheduled} (h : ¬ b.before a) (k : ¬ c.before b) :
    ¬ c.before a := by
  simp only [before_iff] at *
  omega

def place (e : Scheduled) : List Scheduled → List Scheduled
  | [] => [e]
  | d :: ds => if e.before d then e :: d :: ds else d :: place e ds

theorem mem_place {e x : Scheduled} {ds : List Scheduled} :
    x ∈ place e ds ↔ x = e ∨ x ∈ ds := by
  induction ds with
  | nil => simp [place]
  | cons d ds ih =>
    unfold place
    split
    · simp
    · simp only [List.mem_cons, ih]
      constructor
      · rintro (h | h | h) <;> simp [h]
      · rintro (h | h | h) <;> simp [h]

theorem pairwise_place {e : Scheduled} {ds : List Scheduled}
    (h : ds.Pairwise fun a b => ¬ b.before a) : (place e ds).Pairwise fun a b => ¬ b.before a := by
  induction ds with
  | nil => simp [place]
  | cons d ds ih =>
    rw [List.pairwise_cons] at h
    unfold place
    split
    · next lt =>
      have first : ¬ d.before e := by
        simp only [before_iff] at *
        omega
      refine List.pairwise_cons.2 ⟨?_, List.pairwise_cons.2 h⟩
      intro x hx
      rcases List.mem_cons.1 hx with rfl | hx
      · exact first
      · exact not_before_trans first (h.1 x hx)
    · next ge =>
      refine List.pairwise_cons.2 ⟨?_, ih h.2⟩
      intro x hx
      rcases mem_place.1 hx with rfl | hx
      · exact ge
      · exact h.1 x hx

end Scheduled

structure Agenda where
  entries : List Scheduled
  sorted : entries.Pairwise fun a b => ¬ b.before a

namespace Agenda

def empty : Agenda := ⟨[], .nil⟩

def isEmpty (a : Agenda) : Bool := a.entries.isEmpty

def insert (a : Agenda) (e : Scheduled) : Agenda :=
  ⟨e.place a.entries, Scheduled.pairwise_place a.sorted⟩

def ofList (es : List Scheduled) : Agenda := es.foldl insert empty

def due? (a : Agenda) (limit : Instant) : Option (Scheduled × Agenda) :=
  match h : a.entries with
  | [] => none
  | e :: es =>
    if e.time ≤ limit then
      some (e, ⟨es, (List.pairwise_cons.1 (h ▸ a.sorted)).2⟩)
    else none

end Agenda
end ClusterMesh.Net
