import ClusterMesh.Proofs.Ballot
import ClusterMesh.Proofs.Checked.Parts

/-! A ballot through any number of hops. Every hop stops its count at the largest word and the
next one goes on from there. What comes out is still the product over all hops, taken exactly and
cut off once. Hops beyond the length of the history leave no trace. -/
namespace ClusterMesh

structure Hop where
  direct : UInt32
  known : UInt32

def Hop.fresh (h : Hop) : Nat := h.direct.toNat - min h.known.toNat h.direct.toNat

theorem Hop.toNat_sub_min (h : Hop) : (h.direct - min h.known h.direct).toNat = h.fresh := by
  have hle : min h.known h.direct ≤ h.direct := by
    rw [UInt32.le_iff_toNat_le, UInt32.toNat_min]
    exact min_le_right _ _
  rw [UInt32.toNat_sub_of_le _ _ hle, UInt32.toNat_min]
  rfl

theorem reached_le_reachStep (reached fresh : UInt32) : reached ≤ reachStep reached fresh := by
  have hlt := reached.toNat_lt
  have hle : max 1 reached.toNat ≤ max 1 reached.toNat * (1 + fresh.toNat) :=
    Nat.le_mul_of_pos_right _ (by omega)
  rw [UInt32.le_iff_toNat_le, toNat_reachStep]
  omega

namespace Ballot

def addHops (b : Ballot) (hops : List Hop) : Ballot :=
  hops.foldl (fun b h => b.addHop h.direct h.known) b

theorem addHops_append (b : Ballot) (hops more : List Hop) :
    b.addHops (hops ++ more) = (b.addHops hops).addHops more :=
  List.foldl_append

theorem addHops_of_full {b : Ballot} (h : maxHops ≤ b.history.toList.length) (hops : List Hop) :
    b.addHops hops = b := by
  induction hops with
  | nil => rfl
  | cons hop hops ih =>
    rw [addHops, List.foldl_cons, addHop_of_full h]
    exact ih

def checkedTellHop (b : Ballot) (h : Hop) : Option (UInt32 × Ballot) := do
  let fresh ← Checked.difference h.direct.toNat (min h.known h.direct).toNat
  let fresh := UInt32.ofNat fresh
  match b.history.push? fresh with
  | none => pure (b.reach, b)
  | some history => do
    let reach ← checkedReachStep b.reach fresh
    pure (reach, { b with history, reach })

theorem checkedTellHop_eq (b : Ballot) (h : Hop) :
    b.checkedTellHop h = some ((b.addHop h.direct h.known).reach, b.addHop h.direct h.known) := by
  unfold checkedTellHop addHop
  rw [Checked.bind_eq (checkedFresh_eq h.direct h.known), UInt32.ofNat_toNat]
  dsimp only
  cases b.history.push? (h.direct - min h.known h.direct) with
  | none => rfl
  | some history =>
    dsimp only
    rw [Checked.bind_eq (checkedReachStep_eq ..)]
    rfl

theorem reach_le_addHop (b : Ballot) (h : Hop) : b.reach ≤ (b.addHop h.direct h.known).reach := by
  by_cases hroom : b.history.toList.length < maxHops
  · obtain ⟨history, -, he⟩ := addHop_of_room hroom h.direct h.known
    rw [he]
    exact reached_le_reachStep ..
  · rw [addHop_of_full (Nat.not_lt.1 hroom)]
    exact UInt32.le_refl _

theorem reach_le_addHops (b : Ballot) (hops : List Hop) : b.reach ≤ (b.addHops hops).reach := by
  induction hops generalizing b with
  | nil => exact UInt32.le_refl _
  | cons h hops ih => exact UInt32.le_trans (b.reach_le_addHop h) (ih _)

/-- What `hops` have made of a ballot that had a reach of `start` and no history. A reach of
nothing counts as one. -/
structure Tells (b : Ballot) (start : UInt32) (hops : List Hop) : Prop where
  history : b.history.toList.map UInt32.toNat = (hops.take maxHops).map Hop.fresh
  reach : max 1 b.reach.toNat =
    min 0xffffffff (max 1 start.toNat * (b.history.toList.map fun f => 1 + f.toNat).prod)
  pos : hops ≠ [] → 0 < b.reach.toNat

theorem tells_nil {b : Ballot} (h : b.history = .empty) : b.Tells b.reach [] where
  history := by rw [h]; rfl
  reach := by
    have hlt := b.reach.toNat_lt
    rw [h, Bounded.toList_empty, List.map_nil, List.prod_nil]
    omega
  pos hne := absurd rfl hne

section tells
variable {b : Ballot} {start : UInt32} {hops : List Hop} (ht : b.Tells start hops)
include ht

theorem Tells.length_history : b.history.toList.length = min maxHops hops.length := by
  have hlen := congrArg List.length ht.history
  rwa [List.length_map, List.length_map, List.length_take] at hlen

theorem Tells.addHop (h : Hop) :
    (b.addHop h.direct h.known).Tells start (hops ++ [h]) := by
  have hlen := ht.length_history
  by_cases hroom : b.history.toList.length < maxHops
  · have hold : b.history.toList.map UInt32.toNat = hops.map Hop.fresh := by
      rw [ht.history, List.take_of_length_le (by omega)]
    have hnow : (hops ++ [h]).take maxHops = hops ++ [h] := by
      rw [List.take_of_length_le]
      rw [List.length_append, List.length_singleton]
      omega
    have hstep := toNat_reachStep_of_min ht.reach (h.direct - min h.known h.direct)
    have hpos : 0 < (reachStep b.reach (h.direct - min h.known h.direct)).toNat := by
      rw [toNat_reachStep]
      have : 0 < max 1 b.reach.toNat * (1 + (h.direct - min h.known h.direct).toNat) :=
        Nat.mul_pos (by omega) (by omega)
      omega
    obtain ⟨history, hh, he⟩ := addHop_of_room hroom h.direct h.known
    rw [he]
    refine ⟨?_, ?_, fun _ => hpos⟩
    · rw [hnow, hh, List.map_append, List.map_append, hold, List.map_singleton,
        List.map_singleton, h.toNat_sub_min]
    · rw [max_eq_right hpos, hstep, hh, List.map_append, List.prod_append, List.map_singleton,
        List.prod_singleton, Nat.mul_assoc]
  · have hfull : maxHops ≤ hops.length := by omega
    have hne : hops ≠ [] := List.ne_nil_of_length_pos (Nat.lt_of_lt_of_le (by decide) hfull)
    rw [addHop_of_full (Nat.not_lt.1 hroom)]
    refine ⟨?_, ht.reach, fun _ => ht.pos hne⟩
    rw [ht.history, List.take_append_of_le_length hfull]

theorem Tells.addHops (more : List Hop) : (b.addHops more).Tells start (hops ++ more) := by
  induction more generalizing b hops with
  | nil => rwa [List.append_nil]
  | cons h more ih =>
    have hrest := ih (ht.addHop h)
    rwa [List.append_assoc] at hrest

end tells

/-- The history of a ballot that begins without one holds what each of the first hops adds, and its
reach is the product of what they multiply it by, taken exactly and cut off once. Later hops change
nothing. A node is told the reach that the ballot holds, and no sum leaves its word on the way. The
reach never falls, so that a ballot that has covered a cluster goes on having done so. -/
theorem reach_of_hops {b : Ballot} (hb : b.history = .empty) (hops : List Hop) :
    (b.addHops hops).history.toList.map UInt32.toNat = (hops.take 50).map Hop.fresh ∧
      (hops = [] → (b.addHops hops).reach = b.reach) ∧
      (hops ≠ [] → (b.addHops hops).reach.toNat = min 0xffffffff
        (max 1 b.reach.toNat * ((b.addHops hops).history.toList.map fun f => 1 + f.toNat).prod)) ∧
      (50 ≤ hops.length → ∀ more, b.addHops (hops ++ more) = b.addHops hops) ∧
      (∀ h, (b.addHops hops).checkedTellHop h =
        some ((b.addHops (hops ++ [h])).reach, b.addHops (hops ++ [h]))) ∧
      ∀ more, (b.addHops hops).reach ≤ (b.addHops (hops ++ more)).reach ∧
        ((b.addHops hops).isSaturated = true →
          (b.addHops (hops ++ more)).isSaturated = true) := by
  have ht := (tells_nil hb).addHops hops
  rw [List.nil_append] at ht
  refine ⟨ht.history, ?_, fun hne => ?_, fun hlong more => ?_, fun h => ?_, fun more => ?_⟩
  · rintro rfl
    rfl
  · rw [← ht.reach, max_eq_right (ht.pos hne)]
  · rw [addHops_append, addHops_of_full]
    rw [ht.length_history]
    exact le_min le_rfl hlong
  · rw [addHops_append]
    exact checkedTellHop_eq _ h
  · have hle := (b.addHops hops).reach_le_addHops more
    rw [addHops_append]
    refine ⟨hle, fun hs => ?_⟩
    exact decide_eq_true (UInt32.le_trans (of_decide_eq_true hs) hle)

/-- Two hops that stay within a word, one that adds nobody, and one that leaves the word. -/
theorem reach_of_hops_beyond_word :
    let b : Ballot := {}
    let hops : List Hop := [⟨10, 0⟩, ⟨6, 2⟩, ⟨3, 8⟩]
    let far : Hop := ⟨0xffffffff, 0⟩
    (b.history = .empty ∧ hops ≠ []) ∧
      (b.addHops hops).history.toList.map UInt32.toNat = [10, 4, 0] ∧
      (b.addHops hops).reach.toNat = 55 ∧
      (b.addHops hops).checkedTellHop far =
        some ((b.addHops (hops ++ [far])).reach, b.addHops (hops ++ [far])) ∧
      (b.addHops (hops ++ [far])).reach.toNat = 0xffffffff ∧
      (b.addHops (hops ++ [far] ++ hops)).isSaturated = true := by
  intro b hops far
  have hne : hops ≠ [] := List.cons_ne_nil _ _
  have hne' : hops ++ [far] ≠ [] := List.cons_ne_nil _ _
  obtain ⟨hhistory, -, hreach, -, htold, -⟩ := reach_of_hops (b := b) rfl hops
  obtain ⟨-, -, hbeyond, -, -, hrises⟩ := reach_of_hops (b := b) rfl (hops ++ [far])
  have hend : (b.addHops (hops ++ [far])).reach.toNat = 0xffffffff :=
    (hbeyond hne').trans (by decide)
  have hcovered : (b.addHops (hops ++ [far])).isSaturated = true := by
    refine decide_eq_true (UInt32.le_iff_toNat_le.2 ?_)
    rw [hend]
    decide
  exact ⟨⟨rfl, hne⟩, hhistory, (hreach hne).trans (by decide), htold far, hend,
    (hrises hops).2 hcovered⟩

end Ballot
end ClusterMesh
