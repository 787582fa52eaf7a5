import ClusterMesh.Proofs.Checked.Parts
import ClusterMesh.Proofs.Station.Accounts

/-! A schedule through any calls of its host. A stochastic one has a budget of broadcasts that
begins anew with every lap and with every measured crowding, and what is broadcast in between stays
within it, whatever is drawn. Every slot that a schedule goes on to is listened in or broadcast
in. -/
namespace ClusterMesh.Airtime

inductive Op
  | advance
  | setCrowding (crowding : Float)
  | reseed (seed : UInt32)
  | recordSuccess
  | recordFailure
  | resetRetries

def step (a : Airtime) : Op → Airtime
  | .advance => a.advance
  | .setCrowding crowding => a.setCrowding crowding
  | .reseed seed => a.reseed seed
  | .recordSuccess => a.recordSuccess
  | .recordFailure => a.recordFailure.2
  | .resetRetries => a.resetRetries

def run (a : Airtime) (ops : List Op) : Airtime := ops.foldl step a

/-- The sum of what the operations of a run count for, each in the state it finds. -/
def total (count : Airtime → Op → Nat) : Airtime → List Op → Nat
  | _, [] => 0
  | a, op :: ops => count a op + total count (a.step op) ops

def slotsOf (_ : Airtime) : Op → Nat
  | .advance => 1
  | _ => 0

def listensOf (a : Airtime) : Op → Nat
  | .advance => if a.advance.broadcasting then 0 else 1
  | _ => 0

def broadcastsOf (a : Airtime) : Op → Nat
  | .advance => if a.advance.broadcasting then 1 else 0
  | _ => 0

def lapsOf (a : Airtime) : Op → Nat
  | .advance => if a.advance.slot = 0 then 1 else 0
  | _ => 0

def renewalsOf (a : Airtime) : Op → Nat
  | .setCrowding _ => 1
  | op => a.lapsOf op

theorem total_eq_add {f g k : Airtime → Op → Nat} (h : ∀ a op, f a op = g a op + k a op)
    (a : Airtime) (ops : List Op) : total f a ops = total g a ops + total k a ops := by
  induction ops generalizing a with
  | nil => rfl
  | cons op ops ih =>
    unfold total
    rw [h, ih]
    omega

theorem slotsOf_eq (a : Airtime) (op : Op) : a.slotsOf op = a.listensOf op + a.broadcastsOf op := by
  cases op with
  | advance =>
    unfold slotsOf listensOf broadcastsOf
    dsimp only
    split <;> rfl
  | _ => rfl

/-! ## What an operation can do -/

def withDice (a : Airtime) (dice : Lcg32) : Airtime := { a with dice }

/-- What the next slot makes of a schedule. It broadcasts only on a budget that is not spent. -/
inductive Advances (a : Airtime) : Airtime → Prop
  | listens (dice : Lcg32) : Advances a (a.turn.withDice dice).listen
  | broadcasts (dice : Lcg32) (h : a.turn.isSpent = false) :
      Advances a (a.turn.withDice dice).broadcast

theorem advance_eq {a : Airtime} {draw : Float} {dice : Lcg32}
    (h : Generator.nextUnit a.turn.dice = (draw, dice)) :
    a.advance = if a.turn.isSpent || draw < a.turn.listenRatio
      then (a.turn.withDice dice).listen else (a.turn.withDice dice).broadcast := by
  unfold Airtime.advance
  dsimp only
  rw [h]
  rfl

theorem advances_advance (a : Airtime) : a.Advances a.advance := by
  obtain ⟨d, hd⟩ : ∃ d, Generator.nextUnit a.turn.dice = d := ⟨_, rfl⟩
  rw [advance_eq hd]
  split
  · exact .listens d.2
  · next h =>
    rw [Bool.or_eq_true, not_or] at h
    exact .broadcasts d.2 (Bool.eq_false_iff.2 h.1)

def SameSlot (a b : Airtime) : Prop :=
  ∃ dice retries delivered successes failures,
    b = { a with dice, retries, delivered, successes, failures }

def Op.stays : Op → Bool
  | .advance | .setCrowding _ => false
  | _ => true

theorem sameSlot_step {a : Airtime} {op : Op} (h : op.stays = true) : a.SameSlot (a.step op) := by
  cases op with
  | advance | setCrowding => cases h
  | recordFailure =>
    unfold step recordFailure
    dsimp only
    split <;> exact ⟨_, _, _, _, _, rfl⟩
  | _ => exact ⟨_, _, _, _, _, rfl⟩

/-! ## Slots and counters -/

theorem toNat_min_maxSlots (n : UInt32) : (min n maxSlots).toNat = min n.toNat 10 := by
  have hmin : (min n maxSlots).toNat = if n ≤ maxSlots then n.toNat else maxSlots.toNat :=
    apply_ite UInt32.toNat ..
  simp only [UInt32.le_iff_toNat_le, toNat_maxSlots] at hmin
  omega

theorem onLap_make (pattern : Pattern) (slots? : Option UInt32) (slotMs : UInt32)
    (ratio? : Option Float) : (make pattern slots? slotMs ratio?).OnLap := by
  have hzero : (0 : UInt32).toNat < maxSlots.toNat := by decide
  cases pattern with
  | stochastic => exact onLap_of_empty rfl hzero rfl
  | noisy =>
    generalize hslots : (make .noisy slots? slotMs ratio?).slots = slots
    have hbounds : 0 < slots.toNat ∧ slots.toNat ≤ maxSlots.toNat := by
      rw [← hslots]
      unfold make fit
      dsimp only
      generalize slots?.getD maxSlots = n
      split
      · exact ⟨hzero, Nat.le_refl _⟩
      · next hn =>
        have hpos : n.toNat ≠ 0 := fun h => hn (UInt32.toNat.inj h)
        rw [toNat_min_maxSlots, toNat_maxSlots]
        omega
    exact ⟨hslots ▸ hbounds.1, hslots ▸ hbounds.2, hslots ▸ hbounds.1, Nat.zero_le _⟩

theorem OnLap.sameSlot {a b : Airtime} (h : a.OnLap) (hs : a.SameSlot b) : b.OnLap := by
  obtain ⟨_, _, _, _, _, rfl⟩ := hs
  exact ⟨h.slots_pos, h.slots_le, h.slot_lt, h.lap_le⟩

theorem OnLap.step {a : Airtime} (h : a.OnLap) (op : Op) : (a.step op).OnLap := by
  cases op with
  | advance => exact h.advance
  | setCrowding crowding => exact h.setCrowding crowding
  | _ => exact h.sameSlot (sameSlot_step rfl)

theorem OnLap.run {a : Airtime} (h : a.OnLap) (ops : List Op) : (a.run ops).OnLap := by
  induction ops generalizing a with
  | nil => exact h
  | cons op ops ih => exact ih (h.step op)

structure Tallies (a : Airtime) (listens broadcasts : Nat) : Prop where
  listens : Shows a.listenSlots listens
  broadcasts : Shows a.broadcastSlots broadcasts
  attempts : a.attempts = a.broadcastSlots

theorem Tallies.sameSlot {a b : Airtime} {l n : Nat} (h : a.Tallies l n) (hs : a.SameSlot b) :
    b.Tallies l n := by
  obtain ⟨_, _, _, _, _, rfl⟩ := hs
  exact ⟨h.listens, h.broadcasts, h.attempts⟩

theorem Tallies.step {a : Airtime} {l b : Nat} (h : a.Tallies l b) (op : Op) :
    (a.step op).Tallies (l + a.listensOf op) (b + a.broadcastsOf op) := by
  cases op with
  | advance =>
    have hadvances := a.advances_advance
    unfold listensOf broadcastsOf Airtime.step
    dsimp only
    generalize a.advance = b at hadvances
    cases hadvances with
    | listens dice => exact ⟨h.listens.succSat, h.broadcasts, h.attempts⟩
    | broadcasts dice => exact ⟨h.listens, h.broadcasts.succSat, congrArg UInt32.succSat h.attempts⟩
  | setCrowding crowding =>
    unfold Airtime.step Airtime.setCrowding fit
    cases a.pattern <;> exact ⟨h.listens, h.broadcasts, h.attempts⟩
  | _ => exact h.sameSlot (sameSlot_step rfl)

theorem Tallies.run {a : Airtime} {l b : Nat} (h : a.Tallies l b) (ops : List Op) :
    (a.run ops).Tallies (l + total listensOf a ops) (b + total broadcastsOf a ops) := by
  induction ops generalizing a l b with
  | nil => exact h
  | cons op ops ih =>
    unfold total
    rw [← Nat.add_assoc, ← Nat.add_assoc]
    exact ih (h.step op)

theorem tallies_make (pattern : Pattern) (slots? : Option UInt32) (slotMs : UInt32)
    (ratio? : Option Float) : (make pattern slots? slotMs ratio?).Tallies 0 0 := by
  cases pattern <;> exact ⟨rfl, rfl, rfl⟩

/-! ## The budget -/

theorem budgetFor_bounds (crowding : Float) :
    1 ≤ (budgetFor crowding).toNat ∧ (budgetFor crowding).toNat ≤ 3 := by
  unfold budgetFor
  dsimp only
  split
  · decide
  · split <;> decide

structure InBudget (a : Airtime) : Prop where
  stochastic : a.pattern = .stochastic
  slots_eq : a.slots = maxSlots
  budget_pos : 1 ≤ a.budget.toNat
  budget_le : a.budget.toNat ≤ 3
  lap_le : a.lapBroadcasts.toNat ≤ a.budget.toNat

theorem fit_eq {a : Airtime} (h : a.pattern = .stochastic) :
    a.fit = { a with slots := maxSlots, budget := budgetFor a.crowding,
                     listenRatio := clampUnit (1.0 - (budgetFor a.crowding).toFloat /
                       maxSlots.toFloat) } := by
  unfold fit
  rw [h]

theorem setCrowding_eq {a : Airtime} (h : a.pattern = .stochastic) (crowding : Float) :
    a.setCrowding crowding =
      { a with crowding := clampUnit crowding, lapBroadcasts := 0 }.fit := by
  unfold Airtime.setCrowding fit
  dsimp only
  rw [h]

theorem inBudget_fit {a : Airtime} (h : a.pattern = .stochastic) (hlap : a.lapBroadcasts = 0) :
    a.fit.InBudget := by
  obtain ⟨hpos, hle⟩ := budgetFor_bounds a.crowding
  rw [fit_eq h]
  exact ⟨h, rfl, hpos, hle, hlap ▸ Nat.zero_le _⟩

theorem inBudget_make (slots? : Option UInt32) (slotMs : UInt32) (ratio? : Option Float) :
    (make .stochastic slots? slotMs ratio?).InBudget := by
  unfold make
  exact inBudget_fit rfl rfl

section budget
variable {a : Airtime} (h : a.InBudget)
include h

theorem InBudget.setCrowding (crowding : Float) : (a.setCrowding crowding).InBudget := by
  rw [setCrowding_eq h.stochastic]
  exact inBudget_fit h.stochastic rfl

theorem InBudget.lt_budget (hspent : a.turn.isSpent = false) :
    a.turn.lapBroadcasts.toNat < a.budget.toNat := by
  unfold isSpent at hspent
  have hp : a.turn.pattern = .stochastic := h.stochastic
  rw [hp, decide_eq_true rfl, Bool.true_and, decide_eq_false_iff_not] at hspent
  exact UInt32.lt_iff_toNat_lt.1 (UInt32.not_le.1 hspent)

/-- A turn takes the broadcasts of a lap that it ends along, and there were no more of them than
the budget. -/
theorem InBudget.turn : a.turn.lapBroadcasts.toNat ≤ a.budget.toNat ∧
    a.lapBroadcasts.toNat ≤
      a.budget.toNat * (if a.turn.slot = 0 then 1 else 0) + a.turn.lapBroadcasts.toNat := by
  have hlap := h.lap_le
  have hturn : a.turn.lapBroadcasts.toNat = if a.turn.slot = 0 then 0 else a.lapBroadcasts.toNat :=
    apply_ite UInt32.toNat ..
  rw [hturn]
  split
  · rw [Nat.mul_one]
    exact ⟨Nat.zero_le _, hlap⟩
  · exact ⟨hlap, Nat.le_add_left ..⟩

theorem InBudget.broadcast (dice : Lcg32) :
    (a.turn.withDice dice).broadcast.lapBroadcasts.toNat = a.turn.lapBroadcasts.toNat + 1 := by
  have hpattern : (a.turn.withDice dice).pattern = .stochastic := h.stochastic
  have hle := h.budget_le
  have hlap := h.turn.1
  have hsum := UInt32.toNat_add a.turn.lapBroadcasts 1
  simp only [UInt32.reduceToNat] at hsum
  unfold Airtime.broadcast
  rw [hpattern]
  exact hsum.trans (by omega)

/-- The next slot keeps to the budget, and what it broadcasts it enters into the lap. -/
theorem InBudget.advance : a.advance.InBudget ∧ a.advance.budget = a.budget ∧
    a.broadcastsOf .advance ≤ a.advance.lapBroadcasts.toNat ∧
    a.lapBroadcasts.toNat + a.broadcastsOf .advance ≤
      a.budget.toNat * a.lapsOf .advance + a.advance.lapBroadcasts.toNat := by
  obtain ⟨hle, hspend⟩ := h.turn
  have hadvances := a.advances_advance
  unfold broadcastsOf lapsOf
  dsimp only
  generalize a.advance = b at hadvances
  cases hadvances with
  | listens dice =>
    exact ⟨⟨h.stochastic, h.slots_eq, h.budget_pos, h.budget_le, hle⟩, rfl, Nat.zero_le _, hspend⟩
  | broadcasts dice hspent =>
    have hlap := h.broadcast dice
    refine ⟨⟨h.stochastic, h.slots_eq, h.budget_pos, h.budget_le, ?_⟩, rfl, ?_, ?_⟩
    · rw [hlap]
      exact h.lt_budget hspent
    · rw [hlap]
      exact Nat.le_add_left ..
    · rw [hlap]
      exact Nat.succ_le_succ hspend

theorem InBudget.sameSlot {b : Airtime} (hs : a.SameSlot b) : b.InBudget := by
  obtain ⟨_, _, _, _, _, rfl⟩ := hs
  exact ⟨h.stochastic, h.slots_eq, h.budget_pos, h.budget_le, h.lap_le⟩

theorem InBudget.step (op : Op) : (a.step op).InBudget := by
  cases op with
  | advance => exact h.advance.1
  | setCrowding crowding => exact h.setCrowding crowding
  | _ => exact h.sameSlot (sameSlot_step rfl)

omit h in
theorem InBudget.run {a : Airtime} (h : a.InBudget) (ops : List Op) : (a.run ops).InBudget := by
  induction ops generalizing a with
  | nil => exact h
  | cons op ops ih => exact ih (h.step op)

/-- What an operation broadcasts it enters into the lap that it leads to. -/
theorem InBudget.broadcastsOf_le (op : Op) :
    a.broadcastsOf op ≤ (a.step op).lapBroadcasts.toNat := by
  cases op with
  | advance => exact h.advance.2.2.1
  | _ => exact Nat.zero_le _

omit h in
theorem SameSlot.spends {b : Airtime} (hs : a.SameSlot b) : b.budget = a.budget ∧
    a.lapBroadcasts.toNat + 0 ≤ a.budget.toNat * 0 + b.lapBroadcasts.toNat := by
  obtain ⟨_, _, _, _, _, rfl⟩ := hs
  exact ⟨rfl, Nat.le_add_left ..⟩

theorem InBudget.spend_step {op : Op} (hop : ∀ crowding, .setCrowding crowding ≠ op) :
    (a.step op).budget = a.budget ∧ a.lapBroadcasts.toNat + a.broadcastsOf op ≤
      a.budget.toNat * a.lapsOf op + (a.step op).lapBroadcasts.toNat := by
  cases op with
  | advance => exact ⟨h.advance.2.1, h.advance.2.2.2⟩
  | setCrowding crowding => exact absurd rfl (hop crowding)
  | _ => exact (sameSlot_step rfl).spends

end budget

/-- As long as no crowding is measured, every lap that ends takes no more than one budget of
broadcasts along. -/
theorem InBudget.spend_run {a : Airtime} (h : a.InBudget) {ops : List Op}
    (hops : ∀ crowding, .setCrowding crowding ∉ ops) :
    (a.run ops).budget = a.budget ∧ a.lapBroadcasts.toNat + total broadcastsOf a ops ≤
      a.budget.toNat * total lapsOf a ops + (a.run ops).lapBroadcasts.toNat := by
  induction ops generalizing a with
  | nil => exact ⟨rfl, Nat.le_add_left ..⟩
  | cons op ops ih =>
    obtain ⟨hbudget, hstep⟩ :=
      h.spend_step fun crowding he => hops crowding (he ▸ List.mem_cons_self)
    obtain ⟨hbudget', hrun⟩ := ih (h.step op) fun c hc => hops c (List.mem_cons_of_mem _ hc)
    refine ⟨hbudget'.trans hbudget, ?_⟩
    rw [hbudget] at hrun
    unfold total
    rw [Nat.mul_add]
    show _ ≤ _ + ((a.step op).run ops).lapBroadcasts.toNat
    omega

theorem total_renewalsOf_eq_zero {a : Airtime} {ops : List Op} (h : total renewalsOf a ops = 0) :
    total lapsOf a ops = 0 ∧ ∀ crowding, .setCrowding crowding ∉ ops := by
  induction ops generalizing a with
  | nil => exact ⟨rfl, fun _ => List.not_mem_nil⟩
  | cons op ops ih =>
    obtain ⟨hop, hops⟩ := Nat.add_eq_zero_iff.1 h
    obtain ⟨hlaps, hnone⟩ := ih hops
    cases op with
    | setCrowding crowding => cases hop
    | _ =>
      refine ⟨Nat.add_eq_zero_iff.2 ⟨hop, hlaps⟩, fun crowding hmem => ?_⟩
      obtain he | hmem := List.mem_cons.1 hmem
      · cases he
      · exact hnone crowding hmem

/-- A schedule of any kind, built with any arguments, is at any time in one of its ten slots or
fewer, and its counters agree on what it did. A stochastic one has a budget of one to three
broadcasts, which it never exceeds before the next budget begins, and so never exceeds by more than
one budget for every lap that it ends. -/
theorem broadcasts_within_budget (pattern : Pattern) (slots? : Option UInt32) (slotMs : UInt32)
    (ratio? : Option Float) (ops : List Op) :
    let start := make pattern slots? slotMs ratio?
    let a := start.run ops
    (a.slot.toNat < a.slots.toNat ∧ a.slots.toNat ≤ 10) ∧
    (a.attempts = a.broadcastSlots ∧
      (a.listenSlots ≠ 0xffffffff → a.broadcastSlots ≠ 0xffffffff →
        a.listenSlots.toNat + a.broadcastSlots.toNat = total slotsOf start ops)) ∧
    (pattern = .stochastic →
      a.slots = 10 ∧ 1 ≤ a.budget.toNat ∧ a.budget.toNat ≤ 3 ∧
      a.lapBroadcasts.toNat ≤ a.budget.toNat ∧
      (∀ op window, total renewalsOf (a.step op) window = 0 →
        total broadcastsOf a (op :: window) ≤ (a.step op).budget.toNat) ∧
      ∀ more, (∀ crowding, .setCrowding crowding ∉ more) →
        total broadcastsOf a more ≤ a.budget.toNat * (total lapsOf a more + 1)) := by
  intro start a
  have hlap : a.OnLap := (onLap_make pattern slots? slotMs ratio?).run ops
  have htallies := (tallies_make pattern slots? slotMs ratio?).run ops
  refine ⟨⟨hlap.slot_lt, hlap.slots_le⟩, ⟨htallies.attempts, fun hlistens hbroadcasts => ?_⟩, ?_⟩
  · rw [total_eq_add slotsOf_eq, htallies.listens.eq_of_ne hlistens,
      htallies.broadcasts.eq_of_ne hbroadcasts, Nat.zero_add, Nat.zero_add]
  · rintro rfl
    have h : a.InBudget := (inBudget_make slots? slotMs ratio?).run ops
    refine ⟨h.slots_eq, h.budget_pos, h.budget_le, h.lap_le, fun op window hwindow => ?_,
      fun more hmore => ?_⟩
    · -- the lap so far holds what the operation before the window broadcast, if anything
      have hop := h.step op
      obtain ⟨hnolap, hnone⟩ := total_renewalsOf_eq_zero hwindow
      obtain ⟨hbudget, hspend⟩ := hop.spend_run hnone
      have hend := (hop.run window).lap_le
      rw [hnolap, Nat.mul_zero, Nat.zero_add] at hspend
      rw [hbudget] at hend
      calc total broadcastsOf a (op :: window)
          = a.broadcastsOf op + total broadcastsOf (a.step op) window := rfl
        _ ≤ (a.step op).lapBroadcasts.toNat + total broadcastsOf (a.step op) window :=
            Nat.add_le_add_right (h.broadcastsOf_le op) _
        _ ≤ ((a.step op).run window).lapBroadcasts.toNat := hspend
        _ ≤ (a.step op).budget.toNat := hend
    · obtain ⟨hbudget, hspend⟩ := h.spend_run hmore
      have hend := (h.run more).lap_le
      rw [hbudget] at hend
      calc total broadcastsOf a more
          ≤ a.lapBroadcasts.toNat + total broadcastsOf a more := Nat.le_add_left ..
        _ ≤ a.budget.toNat * total lapsOf a more + (a.run more).lapBroadcasts.toNat := hspend
        _ ≤ a.budget.toNat * total lapsOf a more + a.budget.toNat := Nat.add_le_add_left hend _
        _ = a.budget.toNat * (total lapsOf a more + 1) := (Nat.mul_succ ..).symm

/-- With one slot listened in and one broadcast in, a crowding that leaves a budget of one allows
for one more broadcast in the rest of the lap. -/
theorem broadcasts_within_budget_shrunk :
    let start := make .stochastic (some 200) 10 none
    let a := start.run [.setCrowding 0.0, .reseed 7, .advance, .recordFailure, .advance]
    let rest := List.replicate 7 Op.advance
    let laps := List.replicate 18 Op.advance
    (a.listenSlots.toNat + a.broadcastSlots.toNat = 2 ∧ a.broadcastSlots = 1) ∧
    (total broadcastsOf a (.setCrowding 1.0 :: rest) ≤ 1 ∧
      total broadcastsOf (a.setCrowding 1.0) rest = 1) ∧
    (total broadcastsOf a laps ≤ 3 * (2 + 1) ∧ total broadcastsOf a laps = 6) := by
  intro start a rest laps
  obtain ⟨-, ⟨-, htally⟩, hbudget⟩ := broadcasts_within_budget .stochastic (some 200) 10 none
    [.setCrowding 0.0, .reseed 7, .advance, .recordFailure, .advance]
  obtain ⟨-, -, -, -, hwindow, hmore⟩ := hbudget rfl
  have hslots := htally (by decide +kernel) (by decide +kernel)
  have hrest := hwindow (.setCrowding 1.0) rest (by decide +kernel)
  have hlaps := hmore laps fun crowding hmem => by cases List.eq_of_mem_replicate hmem
  have hone : (a.step (.setCrowding 1.0)).budget.toNat = 1 := by decide +kernel
  have hthree : a.budget.toNat = 3 := by decide +kernel
  have htwo : total lapsOf a laps = 2 := by decide +kernel
  refine ⟨⟨hslots, by decide +kernel⟩, ⟨?_, by decide +kernel⟩, ?_, by decide +kernel⟩
  · exact Nat.le_trans hrest (Nat.le_of_eq hone)
  · rw [hthree, htwo] at hlaps
    exact hlaps

end ClusterMesh.Airtime
