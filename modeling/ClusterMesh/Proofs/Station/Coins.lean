import ClusterMesh.Proofs.Airtime
import ClusterMesh.Proofs.Generator
import ClusterMesh.Proofs.Station.Schedule

/-! The coins of a station. Its noisy and its neighbor slots each toss a coin of their own between
listening and broadcasting. A coin is a seed, stepped once for every toss since the start or the
last reset, whatever else happened to the station. The seeds of two nodes with one timing seed
differ, and so do the two seeds of one node. As a step can be taken back, coins that were tossed
equally often never agree. -/
namespace ClusterMesh
open Function

namespace Lcg32

/-- Two generators of which nothing agrees: not their states and not what they draw next. -/
structure Apart (g h : Lcg32) : Prop where
  state : g.state ≠ h.state
  word : (Generator.next g).1 ≠ (Generator.next h).1
  unit : (Generator.nextUnit g).1 ≠ (Generator.nextUnit h).1

theorem apart_of_ne {g h : Lcg32} (hne : g.state ≠ h.state) : Apart g h := by
  have hword : step g.state ≠ step h.state := bijective_step.injective.ne hne
  exact ⟨hne, hword, Rounding.injective_word_div.ne hword⟩

theorem apart_of_iterate {g h : Lcg32} {a b : UInt32} {n : Nat} (hab : a ≠ b)
    (hg : g.state = step^[n] a) (hh : h.state = step^[n] b) : Apart g h := by
  refine apart_of_ne ?_
  rw [hg, hh]
  exact (bijective_step.injective.iterate n).ne hab

end Lcg32

namespace Airtime

/-- A slot tosses once, spent budget or not. -/
theorem dice_advance (a : Airtime) : a.advance.dice = ⟨Lcg32.step a.dice.state⟩ := by
  obtain ⟨draw, hdraw⟩ :
      ∃ draw, Generator.nextUnit a.turn.dice = (draw, ⟨Lcg32.step a.dice.state⟩) := ⟨_, rfl⟩
  rw [advance_eq hdraw]
  split <;> rfl

theorem dice_setCrowding (a : Airtime) (crowding : Float) :
    (a.setCrowding crowding).dice = a.dice := by
  unfold Airtime.setCrowding fit
  cases a.pattern <;> rfl

end Airtime

inductive Stage
  | noisy
  | neighbor

def Stage.phase : Stage → Phase
  | .noisy => .noisy
  | .neighbor => .neighbor

def Instruments.coin (i : Instruments) : Stage → Lcg32
  | .noisy => i.noisy.dice
  | .neighbor => i.neighborly.dice

namespace Station

def coin (s : Station) (stage : Stage) : Lcg32 := s.instruments.coin stage

def coinSeed (c : Settings) : Stage → UInt32
  | .noisy => nodeSeed c.timingSeed c.id
  | .neighbor => nodeSeed c.timingSeed c.id ^^^ neighborMix

def tosses (s : Station) (stage : Stage) : Op → Bool
  | .tick _ => s.enabled && s.phase = stage.phase
  | _ => false

/-- Slots of a stage run since the start or the last reset. -/
def tossed (stage : Stage) : Station → Nat → List Op → Nat :=
  tally fun s op => (s.tosses stage op).toNat

/-! ## The seeds -/

theorem injective_nodeSeed (seed : UInt32) : Injective (nodeSeed seed) := by
  intro id id' h
  have hmul : Injective ((0x85ebca6b : UInt32) * ·) := injective_mul (b := 0xa5cb9243) (by decide)
  have hprod : id * 0x85ebca6b = id' * 0x85ebca6b := (UInt32.xor_right_inj seed).1 h
  rw [UInt32.mul_comm id, UInt32.mul_comm id'] at hprod
  exact hmul hprod

theorem coinSeed_ne_of_id {c c' : Settings} (hseed : c'.timingSeed = c.timingSeed)
    (hid : c'.id ≠ c.id) (stage : Stage) : coinSeed c stage ≠ coinSeed c' stage := by
  have hne : nodeSeed c.timingSeed c.id ≠ nodeSeed c'.timingSeed c'.id := by
    rw [hseed]
    exact (injective_nodeSeed _).ne hid.symm
  cases stage with
  | noisy => exact hne
  | neighbor => exact fun h => hne ((UInt32.xor_left_inj neighborMix).1 h)

theorem coinSeed_noisy_ne_neighbor (c : Settings) : coinSeed c .noisy ≠ coinSeed c .neighbor := by
  intro h
  have hmix : 0 = neighborMix :=
    (UInt32.xor_right_inj (nodeSeed c.timingSeed c.id)).1 (UInt32.xor_zero.trans h)
  exact absurd hmix (by decide)

/-! ## The tosses -/

theorem coin_fresh (c : Settings) (r : Receivers) (stage : Stage) :
    (fresh c r).coin stage = ⟨coinSeed c stage⟩ := by
  cases stage <;> rfl

theorem coin_tick {s : Station} (h : s.clockwork.InStep) (now : Instant) (stage : Stage) :
    (s.step (.tick now)).coin stage =
      if s.tosses stage (.tick now) then ⟨Lcg32.step (s.coin stage).state⟩ else s.coin stage := by
  have htosses : s.tosses stage (.tick now) = (s.enabled && decide (s.phase = stage.phase)) := rfl
  obtain ⟨he, ht⟩ | ⟨he, ⟨hp, ht⟩ | ⟨hp, ht⟩ | ⟨hp, ht⟩⟩ := tick_cases s now
  · rw [htosses, he, ht]
    rfl
  · rw [htosses, he, hp, ht, coin, instruments_noisySlot]
    cases stage with
    | noisy =>
      have hdice := s.noisy.dice_advance
      dsimp only
      split <;> exact hdice
    | neighbor =>
      -- the last noisy slot fits the neighbor schedule to the crowding
      dsimp only
      split
      · exact s.neighborly.dice_setCrowding _
      · rfl
  · rw [htosses, he, hp, ht, coin, instruments_neighborSlot]
    cases stage with
    | noisy => rfl
    | neighbor => exact s.neighborly.dice_advance
  · obtain ⟨dice, m, hi⟩ := instruments_discoverySlot (s := { s with now }) h hp
    rw [htosses, he, hp, ht, coin, hi]
    cases stage with
    | noisy => split <;> rfl
    | neighbor => split <;> rfl

theorem not_tosses (s : Station) (stage : Stage) {op : Op} (h : ∀ now, op ≠ .tick now) :
    s.tosses stage op = false := by
  cases op with
  | tick now => exact absurd rfl (h now)
  | _ => rfl

theorem coin_step {s : Station} (h : s.clockwork.InStep) (op : Op) (stage : Stage) :
    (s.step op).coin stage =
      if op.isReset then ⟨coinSeed s.settings stage⟩
      else if s.tosses stage op then ⟨Lcg32.step (s.coin stage).state⟩
      else s.coin stage := by
  obtain ⟨now, rfl⟩ | rfl | ⟨p, hp⟩ | hp := op.kinds
  · exact coin_tick h now stage
  · cases stage <;> rfl
  · obtain ⟨rssi, now, hs⟩ := step_of_packet? s hp
    have hop : ∀ now, op ≠ .tick now := by
      rintro now rfl
      cases hp
    rw [isReset_of_packet? hp, s.not_tosses stage hop, hs, coin, instruments_receive]
    rfl
  · obtain ⟨dice, crowding, noise, hi⟩ := instruments_step_plain s hp
    rw [hp.noReset, s.not_tosses stage hp.noTick, coin, hi]
    cases stage <;> rfl

theorem state_coin_run {s : Station} (h : s.clockwork.InStep) {stage : Stage} {n : Nat}
    (hn : (s.coin stage).state = Lcg32.step^[n] (coinSeed s.settings stage)) (ops : List Op) :
    ((s.run ops).coin stage).state =
      Lcg32.step^[s.tossed stage n ops] (coinSeed s.settings stage) := by
  induction ops generalizing s n with
  | nil => exact hn
  | cons op ops ih =>
    have hset := settings_step h op
    rw [← hset]
    refine ih (inStep_step h op) ?_
    rw [coin_step h op, hset]
    cases op.isReset with
    | true => rfl
    | false =>
      dsimp only
      cases s.tosses stage op with
      | true => exact (congrArg Lcg32.step hn).trans (iterate_succ_apply' Lcg32.step n _).symm
      | false => exact hn

theorem state_coin_of_start {c : Settings} {r : Receivers} {s : Station}
    (hs : Station.start c r = .ok s) (stage : Stage) (ops : List Op) :
    ((s.run ops).coin stage).state = Lcg32.step^[s.tossed stage 0 ops] (coinSeed c stage) := by
  obtain ⟨-, rfl⟩ := start_eq hs
  refine state_coin_run (inStep_fresh c r) ?_ ops
  rw [coin_fresh]
  rfl

/-- The coins that two nodes with one timing seed toss in the same stage agree in nothing after
equally many tosses, and neither do the two coins of one node. -/
theorem coins_stay_apart {c : Settings} {r : Receivers} {s : Station}
    (hs : Station.start c r = .ok s) (ops : List Op) :
    (∀ stage, ((s.run ops).coin stage).state =
      Lcg32.step^[s.tossed stage 0 ops] (coinSeed c stage)) ∧
    (∀ (c' : Settings) (r' : Receivers) (s' : Station), Station.start c' r' = .ok s' →
      c'.timingSeed = c.timingSeed → c'.id ≠ c.id →
        ∀ (stage : Stage) (ops' : List Op), s'.tossed stage 0 ops' = s.tossed stage 0 ops →
          Lcg32.Apart ((s.run ops).coin stage) ((s'.run ops').coin stage)) ∧
    (∀ ops' : List Op, s.tossed .neighbor 0 ops' = s.tossed .noisy 0 ops →
      Lcg32.Apart ((s.run ops).coin .noisy) ((s.run ops').coin .neighbor)) ∧
    (∀ seed, Injective (nodeSeed seed)) ∧ Bijective Lcg32.step := by
  have hstate (stage : Stage) := state_coin_of_start hs stage ops
  refine ⟨hstate, fun c' r' s' hs' hseed hid stage ops' htossed => ?_, fun ops' htossed => ?_,
    injective_nodeSeed, Lcg32.bijective_step⟩
  · have hstate' := state_coin_of_start hs' stage ops'
    rw [htossed] at hstate'
    exact Lcg32.apart_of_iterate (coinSeed_ne_of_id hseed hid stage) (hstate stage) hstate'
  · have hstate' := state_coin_of_start hs .neighbor ops'
    rw [htossed] at hstate'
    exact Lcg32.apart_of_iterate (coinSeed_noisy_ne_neighbor c) (hstate .noisy) hstate'

/-- One toss each. A packet and a disabled tick toss nothing, and the neighbor stage has its slot
after the noisy one. -/
theorem coins_stay_apart_one_toss :
    let c : Settings := { id := 1, plan := ⟨1, 50, 1, 10⟩ }
    let c' : Settings := { id := 2, plan := ⟨2, 50, 1, 10⟩ }
    let ops : List Op := [.tick .zero, .receive { sender := 2 } (-60) .zero]
    let ops' : List Op := [.tick .zero, .disable, .tick .zero]
    let later : List Op := [.tick .zero, .tick .zero, .tick .zero]
    Station.start c {} = .ok (fresh c {}) ∧ Station.start c' {} = .ok (fresh c' {}) ∧
      c'.timingSeed = c.timingSeed ∧ c'.id ≠ c.id ∧
      (fresh c {}).tossed .noisy 0 ops = 1 ∧ (fresh c' {}).tossed .noisy 0 ops' = 1 ∧
      (fresh c {}).tossed .neighbor 0 later = 1 ∧
      Lcg32.Apart (((fresh c {}).run ops).coin .noisy) (((fresh c' {}).run ops').coin .noisy) ∧
      Lcg32.Apart (((fresh c {}).run ops).coin .noisy)
        (((fresh c {}).run later).coin .neighbor) := by
  intro c c' ops ops' later
  have hs : Station.start c {} = .ok (fresh c {}) := rfl
  have hs' : Station.start c' {} = .ok (fresh c' {}) := rfl
  have hid : c'.id ≠ c.id := by decide
  have hops : (fresh c {}).tossed .noisy 0 ops = 1 := rfl
  have hops' : (fresh c' {}).tossed .noisy 0 ops' = 1 := rfl
  have hlater : (fresh c {}).tossed .neighbor 0 later = 1 := by decide +kernel
  obtain ⟨-, hnodes, hstages, -⟩ := coins_stay_apart hs ops
  exact ⟨hs, hs', rfl, hid, hops, hops', hlater,
    hnodes c' {} _ hs' rfl hid .noisy ops' (hops'.trans hops.symm),
    hstages later (hlater.trans hops.symm)⟩

end Station
end ClusterMesh
