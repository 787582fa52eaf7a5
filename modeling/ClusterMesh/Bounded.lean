/-! Lists with a hard capacity. An element that would exceed it is refused. -/
namespace ClusterMesh

structure Bounded (α : Type) (cap : Nat) where
  toList : List α
  length_le : toList.length ≤ cap

namespace Bounded
variable {α : Type} {cap : Nat}

instance [DecidableEq α] : DecidableEq (Bounded α cap) := fun a b =>
  decidable_of_iff (a.toList = b.toList) (by cases a; cases b; simp)

def empty : Bounded α cap := ⟨[], Nat.zero_le _⟩

instance : Inhabited (Bounded α cap) := ⟨empty⟩

def size (b : Bounded α cap) : Nat := b.toList.length

def isFull (b : Bounded α cap) : Bool := cap ≤ b.size

def ofList? (xs : List α) : Option (Bounded α cap) :=
  if h : xs.length ≤ cap then some ⟨xs, h⟩ else none

def push? (b : Bounded α cap) (x : α) : Option (Bounded α cap) :=
  ofList? (b.toList ++ [x])

def last? (b : Bounded α cap) : Option α := b.toList.getLast?

def contains [DecidableEq α] (b : Bounded α cap) (x : α) : Bool := b.toList.contains x

@[ext] theorem ext {a b : Bounded α cap} (h : a.toList = b.toList) : a = b := by
  cases a; cases b; simp_all

@[simp] theorem toList_empty : (empty : Bounded α cap).toList = [] := rfl

theorem ofList?_toList (b : Bounded α cap) : ofList? b.toList = some b := by
  simp [ofList?, b.length_le]

theorem ofList?_eq_none_iff {xs : List α} :
    (ofList? xs : Option (Bounded α cap)) = none ↔ cap < xs.length := by
  simp [ofList?]

theorem toList_of_push? {b c : Bounded α cap} {x : α} (h : b.push? x = some c) :
    c.toList = b.toList ++ [x] := by
  unfold push? ofList? at h
  split at h
  · cases h; rfl
  · cases h

theorem push?_eq_none_iff {b : Bounded α cap} {x : α} : b.push? x = none ↔ b.isFull = true := by
  unfold push? isFull size
  rw [ofList?_eq_none_iff, decide_eq_true_iff, List.length_append, List.length_singleton,
    Nat.lt_succ_iff]

end Bounded
end ClusterMesh
