import Mathlib
import ClusterMesh.Proofs.Station.Steps

/-! Several stations whose hosts act in any order. A rule says which moves are allowed in
which state of the fleet, so that what one station hears may depend on what others do. -/
namespace ClusterMesh
open Station (Op)

abbrev Fleet (ι : Type) := ι → Station

namespace Fleet
variable {ι : Type} [DecidableEq ι]

def act (fleet : Fleet ι) (i : ι) (op : Op) : Fleet ι :=
  Function.update fleet i ((fleet i).step op)

def play (fleet : Fleet ι) : List (ι × Op) → Fleet ι
  | [] => fleet
  | (i, op) :: moves => play (fleet.act i op) moves

/-- Each move meets the rule in the state in which it is made. -/
def Follows (rule : Fleet ι → ι → Op → Prop) (fleet : Fleet ι) : List (ι × Op) → Prop
  | [] => True
  | (i, op) :: moves => rule fleet i op ∧ Follows rule (fleet.act i op) moves

theorem act_self (fleet : Fleet ι) (i : ι) (op : Op) : fleet.act i op i = (fleet i).step op :=
  Function.update_self ..

theorem act_of_ne (fleet : Fleet ι) {i j : ι} (h : j ≠ i) (op : Op) : fleet.act i op j = fleet j :=
  Function.update_of_ne h ..

theorem play_append (fleet : Fleet ι) (u v : List (ι × Op)) :
    fleet.play (u ++ v) = (fleet.play u).play v := by
  induction u generalizing fleet with
  | nil => rfl
  | cons move u ih => exact ih (fleet.act move.1 move.2)

theorem follows_append {rule : Fleet ι → ι → Op → Prop} {fleet : Fleet ι} {u v : List (ι × Op)} :
    fleet.Follows rule (u ++ v) ↔ fleet.Follows rule u ∧ (fleet.play u).Follows rule v := by
  induction u generalizing fleet with
  | nil => simp [Follows, play]
  | cons move u ih => exact (and_congr_right fun _ => ih).trans and_assoc.symm

/-- What every station has before an allowed move and keeps in it, every station has after
all moves. -/
theorem holds_play {rule : Fleet ι → ι → Op → Prop} (P : ι → Station → Prop)
    (hstep : ∀ fleet : Fleet ι, (∀ i, P i (fleet i)) → ∀ i op, rule fleet i op →
      P i ((fleet i).step op))
    {fleet : Fleet ι} (h : ∀ i, P i (fleet i)) {moves : List (ι × Op)}
    (hm : fleet.Follows rule moves) (i : ι) : P i (fleet.play moves i) := by
  induction moves generalizing fleet with
  | nil => exact h i
  | cons move moves ih =>
    refine ih (fun j => ?_) hm.2
    by_cases hj : j = move.1
    · subst hj
      rw [act_self]
      exact hstep fleet h move.1 move.2 hm.1
    · rw [act_of_ne fleet hj]
      exact h j

end Fleet
end ClusterMesh
