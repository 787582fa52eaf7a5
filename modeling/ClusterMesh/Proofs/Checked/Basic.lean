import ClusterMesh.Survey.Ring
import ClusterMesh.Table

/-! Checked arithmetic. A checked operation works on whole numbers. It has no result where a
number leaves its word, where a difference falls below zero, where the divisor is zero, or where
a place lies outside of what is looked up. -/
namespace ClusterMesh

namespace Checked
variable {α : Type} {n : Nat}

def below (limit a : Nat) : Option Nat := if a < limit then some a else none

/-- A signed number, of which `limit` values are negative and as many are not. -/
def within (limit : Nat) (a : Int) : Option Int :=
  if -limit ≤ a ∧ a < limit then some a else none

def difference (a b : Nat) : Option Nat := if b ≤ a then some (a - b) else none

def remainder (a b : Nat) : Option Nat := if b = 0 then none else some (a % b)

def quotient (a b : Int) : Option Int := if b = 0 then none else some (a.tdiv b)

def look (v : Vector α n) (i : Nat) : Option α := v[i]?

def put (v : Vector α n) (i : Nat) (a : α) : Option (Vector α n) :=
  if h : i < n then some (v.set i a h) else none

def slice (xs : List α) (start stop : Nat) : Option (List α) :=
  if start ≤ stop ∧ stop ≤ xs.length then some ((xs.drop start).take (stop - start)) else none

def word : Nat := 0x100000000

/-- Sizes are kept in words of sixteen bits at least. -/
def sizes : Nat := 0x10000

theorem bind_eq {β : Type} {x : Option α} {a : α} (h : x = some a) (f : α → Option β) :
    (x >>= f) = f a := by
  rw [h]
  rfl

theorem below_eq {limit a : Nat} (h : a < limit) : below limit a = some a := if_pos h

theorem within_eq {limit : Nat} {a : Int} (h : -limit ≤ a ∧ a < limit) :
    within limit a = some a := if_pos h

theorem difference_eq {a b : Nat} (h : b ≤ a) : difference a b = some (a - b) := if_pos h

theorem remainder_eq {a b : Nat} (h : b ≠ 0) : remainder a b = some (a % b) := if_neg h

theorem quotient_eq {a b : Int} (h : b ≠ 0) : quotient a b = some (a.tdiv b) := if_neg h

theorem look_eq (v : Vector α n) (i : Fin n) : look v i.val = some (v.get i) :=
  Vector.getElem?_eq_getElem i.isLt

theorem put_eq (v : Vector α n) {i : Nat} (h : i < n) (a : α) :
    put v i a = some (v.set i a h) := dif_pos h

theorem slice_eq {xs : List α} {start stop : Nat} (h : start ≤ stop) (h' : stop ≤ xs.length) :
    slice xs start stop = some ((xs.drop start).take (stop - start)) := if_pos ⟨h, h'⟩

end Checked

/-! ## Rings -/

namespace Ring
variable {α : Type} {cap : Nat}

structure InBounds (r : Ring α cap) : Prop where
  first_lt : r.first < cap
  size_le : r.size ≤ cap

inductive Turns (r : Ring α cap) : Ring α cap → Prop
  | kept : Turns r r
  | pushed (a : α) : Turns r (r.push a)
  | cleared : Turns r r.clear

def checkedPush (r : Ring α cap) (a : α) : Option (Ring α cap) := do
  let last ← Checked.below Checked.sizes (r.first + r.size)
  let last ← Checked.remainder last cap
  let cells ← Checked.put r.cells last a
  if r.size < cap then
    let size ← Checked.below Checked.sizes (r.size + 1)
    pure { r with cells, size }
  else
    let first ← Checked.below Checked.sizes (r.first + 1)
    let first ← Checked.remainder first cap
    pure { r with cells, first }

def checkedHeld (r : Ring α cap) : Option (List α) := Checked.slice r.cells.toList 0 r.size

variable {r : Ring α cap}

theorem InBounds.push (h : r.InBounds) (a : α) : (r.push a).InBounds := by
  have hpos : 0 < cap := Nat.zero_lt_of_lt h.first_lt
  unfold Ring.push
  dsimp only
  split
  · next hs => exact ⟨h.first_lt, hs⟩
  · exact ⟨Nat.mod_lt _ hpos, h.size_le⟩

theorem InBounds.turns {r' : Ring α cap} (h : r.InBounds) (ht : r.Turns r') : r'.InBounds := by
  cases ht with
  | kept => exact h
  | pushed a => exact h.push a
  | cleared => exact ⟨Nat.zero_lt_of_lt h.first_lt, Nat.zero_le _⟩

theorem InBounds.checkedPush_eq (h : r.InBounds) (hcap : cap + cap < Checked.sizes) (a : α) :
    r.checkedPush a = some (r.push a) := by
  have hfirst := h.first_lt
  have hsize := h.size_le
  have hpos : cap ≠ 0 := by omega
  have hlast : (r.first + r.size) % cap < cap := Nat.mod_lt _ (Nat.pos_of_ne_zero hpos)
  unfold checkedPush Ring.push
  rw [Checked.bind_eq (Checked.below_eq (by omega)), Checked.bind_eq (Checked.remainder_eq hpos),
    Checked.bind_eq (Checked.put_eq _ hlast a)]
  have hput : r.cells.setIfInBounds ((r.first + r.size) % cap) a =
      r.cells.set ((r.first + r.size) % cap) a hlast := by
    apply Vector.ext
    intro i hi
    rw [Vector.getElem_setIfInBounds, Vector.getElem_set]
  rw [hput]
  split
  · rw [Checked.bind_eq (Checked.below_eq (by omega))]
    rfl
  · rw [Checked.bind_eq (Checked.below_eq (by omega)),
      Checked.bind_eq (Checked.remainder_eq hpos)]
    rfl

theorem InBounds.checkedHeld_eq (h : r.InBounds) : r.checkedHeld = some r.held := by
  have hlen : r.size ≤ r.cells.toList.length := by
    rw [Vector.length_toList]
    exact h.size_le
  exact Checked.slice_eq (Nat.zero_le _) hlen

-- a ring that claims to hold more than it has cells
example : (⟨#v[0], 0, 2⟩ : Ring Nat 1).checkedHeld = none := rfl

end Ring

/-! ## Tables -/

namespace Table
variable {κ ν : Type}

def checkedRetain (t : Table κ ν) (p : κ → ν → Bool) : Option (Table κ ν × Nat) := do
  let kept := t.filter p
  let gone ← Checked.difference t.size kept.size
  pure (kept, gone)

theorem checkedRetain_eq (t : Table κ ν) (p : κ → ν → Bool) :
    t.checkedRetain p = some (t.retain p) := by
  unfold checkedRetain retain
  rw [Checked.bind_eq (Checked.difference_eq (t.size_filter_le p))]
  rfl

end Table

end ClusterMesh
