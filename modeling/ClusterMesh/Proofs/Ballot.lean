import Mathlib
import ClusterMesh.Packet

/-! What the hops of an announcement make of its ballot: the history grows by one count per
hop, and the reach is the product of what each hop multiplies it by, up to the largest word. -/
namespace ClusterMesh

theorem toNat_reachStep (reached fresh : UInt32) :
    (reachStep reached fresh).toNat = min 0xffffffff (max 1 reached.toNat * (1 + fresh.toNat)) := by
  have hm : max 1 reached.toNat + max 1 reached.toNat * fresh.toNat =
      max 1 reached.toNat * (1 + fresh.toNat) := by ring
  simp only [reachStep, UInt32.toNat_ofNat', hm]
  omega

/-- A step on a count that was cut off where the word ends is the step on the whole count, cut off
there: once the product has left the range of words it stays out of it. -/
theorem toNat_reachStep_of_min {reached : UInt32} {n : Nat}
    (h : max 1 reached.toNat = min 0xffffffff n) (fresh : UInt32) :
    (reachStep reached fresh).toNat = min 0xffffffff (n * (1 + fresh.toNat)) := by
  rw [toNat_reachStep, h]
  by_cases hw : n ≤ 0xffffffff
  · rw [min_eq_right hw]
  · have hle : n ≤ n * (1 + fresh.toNat) := Nat.le_mul_of_pos_right _ (by omega)
    have hbig : 0xffffffff ≤ 0xffffffff * (1 + fresh.toNat) := Nat.le_mul_of_pos_right _ (by omega)
    have hcut : min 0xffffffff n = 0xffffffff := by omega
    rw [hcut, min_eq_left hbig, min_eq_left (by omega)]

namespace Ballot

/-- The history has one count for each of `hops` hops, the first for the neighbors announced,
and the reach is their joint multiple. -/
structure Counted (b : Ballot) (hops : Nat) : Prop where
  length : b.history.toList.length = hops
  first : b.history.toList.head? = some b.direct
  reach : b.reach.toNat = min 0xffffffff (b.history.toList.map fun h => 1 + h.toNat).prod

theorem direct_addHop (b : Ballot) (direct known : UInt32) :
    (b.addHop direct known).direct = b.direct := by
  unfold addHop
  dsimp only
  split <;> rfl

theorem addHop_of_room {b : Ballot} (h : b.history.toList.length < maxHops)
    (direct known : UInt32) :
    ∃ history, history.toList = b.history.toList ++ [direct - min known direct] ∧
      b.addHop direct known =
        { b with history, reach := reachStep b.reach (direct - min known direct) } := by
  unfold addHop
  dsimp only
  cases hp : b.history.push? (direct - min known direct) with
  | none =>
    have hf : maxHops ≤ b.history.toList.length := of_decide_eq_true (Bounded.push?_eq_none_iff.1 hp)
    omega
  | some history => exact ⟨history, Bounded.toList_of_push? hp, rfl⟩

theorem addHop_of_full {b : Ballot} (h : maxHops ≤ b.history.toList.length)
    (direct known : UInt32) : b.addHop direct known = b := by
  have hp : b.history.push? (direct - min known direct) = none :=
    Bounded.push?_eq_none_iff.2 (decide_eq_true h)
  unfold addHop
  dsimp only
  rw [hp]

/-- A ballot with room in its history counts the hop. Where nobody was known before, all
direct neighbors are fresh. -/
theorem addHop_eq {b : Ballot} (h : b.history.toList.length < maxHops) (direct known : UInt32) :
    ∃ fresh history, (known = 0 → fresh = direct) ∧
      history.toList = b.history.toList ++ [fresh] ∧
      b.addHop direct known = { b with history, reach := reachStep b.reach fresh } := by
  obtain ⟨history, hl, he⟩ := addHop_of_room h direct known
  refine ⟨_, history, ?_, hl, he⟩
  rintro rfl
  have hle : (0 : UInt32) ≤ direct := by simp [UInt32.le_iff_toNat_le]
  rw [show min 0 direct = 0 from if_pos hle]
  simp

theorem counted_first {b : Ballot} (hh : b.history = .empty) (hr : b.reach = 0) :
    (b.addHop b.direct 0).Counted 1 := by
  have hl : b.history.toList.length < maxHops := by simp [hh, maxHops]
  obtain ⟨fresh, history, hall, hl, he⟩ := addHop_eq hl b.direct 0
  rw [hh, hall rfl, Bounded.toList_empty, List.nil_append] at hl
  rw [he, hall rfl, hr]
  refine ⟨by rw [hl]; rfl, by rw [hl]; rfl, ?_⟩
  rw [toNat_reachStep, hl]
  simp

theorem Counted.addHop {b : Ballot} {hops : Nat} (h : b.Counted hops) (hl : hops < maxHops)
    (direct known : UInt32) : (b.addHop direct known).Counted (hops + 1) := by
  obtain ⟨fresh, history, -, hh, he⟩ := addHop_eq (h.length.symm ▸ hl) direct known
  rw [he]
  refine ⟨?_, ?_, ?_⟩
  · rw [hh, List.length_append, h.length, List.length_singleton]
  · rw [hh, List.head?_append, h.first]
    rfl
  · have hpos : 0 < (b.history.toList.map fun h => 1 + h.toNat).prod := by
      refine List.prod_pos fun n hn => ?_
      obtain ⟨f, -, rfl⟩ := List.mem_map.1 hn
      omega
    have hreach : max 1 b.reach.toNat =
        min 0xffffffff (b.history.toList.map fun h => 1 + h.toNat).prod := by
      rw [h.reach]
      omega
    rw [toNat_reachStep_of_min hreach, hh, List.map_append, List.prod_append, List.map_singleton,
      List.prod_singleton]

end Ballot
end ClusterMesh
