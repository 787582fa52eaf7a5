import ClusterMesh.Airtime
import ClusterMesh.Cycle
import ClusterMesh.Node.Standing
import ClusterMesh.Proofs.Checked.Basic
import ClusterMesh.Proofs.Relay.Waiting
import ClusterMesh.Survey.Basic

/-! The parts of a station in checked arithmetic: its schedules, its cycle, what it keeps of its
neighborhood, the ballots that it counts and the queue. A part that is within its bounds does the
same with the checks as without them. -/
namespace ClusterMesh

/-! ## Schedules -/

namespace Airtime

structure OnLap (a : Airtime) : Prop where
  slots_pos : 0 < a.slots.toNat
  slots_le : a.slots.toNat ≤ maxSlots.toNat
  slot_lt : a.slot.toNat < a.slots.toNat
  lap_le : a.lapBroadcasts.toNat ≤ a.slot.toNat + 1

def checkedTurn (a : Airtime) : Option Airtime := do
  let next ← Checked.below Checked.word (a.slot.toNat + 1)
  let slot ← Checked.remainder next a.slots.toNat
  let slot := UInt32.ofNat slot
  pure { a with slot, lapBroadcasts := if slot = 0 then 0 else a.lapBroadcasts }

def checkedBroadcast (a : Airtime) : Option Airtime :=
  match a.pattern with
  | .noisy => some a.broadcast
  | .stochastic => do
    let lap ← Checked.below Checked.word (a.lapBroadcasts.toNat + 1)
    pure { a.broadcast with lapBroadcasts := UInt32.ofNat lap }

def checkedAdvance (a : Airtime) : Option Airtime := do
  let a ← a.checkedTurn
  let (draw, dice) := Generator.nextUnit a.dice
  let a := { a with dice }
  if a.isSpent || draw < a.listenRatio then pure a.listen else a.checkedBroadcast

theorem toNat_maxSlots : maxSlots.toNat = 10 := rfl

variable {a : Airtime}

/-- In the slot that a turn leads to nothing was sent yet. -/
theorem OnLap.turn (h : a.OnLap) :
    a.turn.OnLap ∧ a.turn.lapBroadcasts.toNat ≤ a.turn.slot.toNat := by
  have hslots := h.slots_le
  have hslot := h.slot_lt
  have hlap := h.lap_le
  rw [toNat_maxSlots] at hslots
  have hturn : a.turn.slot.toNat = (a.slot.toNat + 1) % a.slots.toNat := by
    have hone : a.slot.toNat + 1 < 4294967296 := by omega
    simp [Airtime.turn, UInt32.toNat_add, Nat.mod_eq_of_lt hone]
  have hle : a.turn.lapBroadcasts.toNat ≤ a.turn.slot.toNat := by
    by_cases h0 : a.turn.slot = 0
    · have hl : a.turn.lapBroadcasts = 0 := if_pos h0
      rw [hl]
      exact Nat.zero_le _
    · have hl : a.turn.lapBroadcasts = a.lapBroadcasts := if_neg h0
      have hpos : a.turn.slot.toNat ≠ 0 := fun hz => h0 (UInt32.toNat.inj hz)
      -- a turn that does not lead to slot zero leads to the slot behind this one
      have hnext : a.slot.toNat + 1 < a.slots.toNat := by
        obtain hn | hn := Nat.lt_or_ge (a.slot.toNat + 1) a.slots.toNat
        · exact hn
        · have he : a.slot.toNat + 1 = a.slots.toNat := by omega
          rw [hturn, he, Nat.mod_self] at hpos
          exact absurd rfl hpos
      rw [hl, hturn, Nat.mod_eq_of_lt hnext]
      exact hlap
  refine ⟨⟨h.slots_pos, h.slots_le, ?_, Nat.le_succ_of_le hle⟩, hle⟩
  rw [hturn]
  exact Nat.mod_lt _ h.slots_pos

theorem OnLap.checkedTurn_eq (h : a.OnLap) : a.checkedTurn = some a.turn := by
  have hslots := h.slots_le
  have hslot := h.slot_lt
  rw [toNat_maxSlots] at hslots
  have hfits : a.slot.toNat + 1 < Checked.word := by
    unfold Checked.word
    omega
  have hrem : UInt32.ofNat ((a.slot.toNat + 1) % a.slots.toNat) = (a.slot + 1) % a.slots := by
    have hone : a.slot.toNat + 1 < 4294967296 := hfits
    apply UInt32.toNat.inj
    rw [UInt32.toNat_mod, UInt32.toNat_add, UInt32.toNat_ofNat']
    have hlt := Nat.mod_lt (a.slot.toNat + 1) h.slots_pos
    simp only [UInt32.reduceToNat, Nat.mod_eq_of_lt hone]
    omega
  unfold checkedTurn
  rw [Checked.bind_eq (Checked.below_eq hfits),
    Checked.bind_eq (Checked.remainder_eq (Nat.pos_iff_ne_zero.1 h.slots_pos)), hrem]
  rfl

theorem checkedBroadcast_eq (h : a.lapBroadcasts.toNat ≤ maxSlots.toNat) :
    a.checkedBroadcast = some a.broadcast := by
  rw [toNat_maxSlots] at h
  have hfits : a.lapBroadcasts.toNat + 1 < Checked.word := by
    unfold Checked.word
    omega
  have hsucc : UInt32.ofNat (a.lapBroadcasts.toNat + 1) = a.lapBroadcasts + 1 := by
    rw [UInt32.ofNat_add, UInt32.ofNat_toNat]
    rfl
  unfold checkedBroadcast
  cases hp : a.pattern with
  | noisy => rfl
  | stochastic =>
    dsimp only
    rw [Checked.bind_eq (Checked.below_eq hfits), hsucc]
    unfold broadcast
    rw [hp]
    rfl

theorem OnLap.checkedAdvance_eq (h : a.OnLap) : a.checkedAdvance = some a.advance := by
  obtain ⟨ht, hlap⟩ := h.turn
  have hle : a.turn.lapBroadcasts.toNat ≤ maxSlots.toNat := by
    have hslots := ht.slots_le
    have hslot := ht.slot_lt
    omega
  unfold checkedAdvance advance
  rw [Checked.bind_eq h.checkedTurn_eq]
  dsimp only
  split
  · rfl
  · exact checkedBroadcast_eq hle

theorem OnLap.advance (h : a.OnLap) : a.advance.OnLap := by
  obtain ⟨ht, hlap⟩ := h.turn
  have hslots := ht.slots_le
  have hslot := ht.slot_lt
  rw [toNat_maxSlots] at hslots
  unfold Airtime.advance
  dsimp only
  split
  · exact ⟨ht.slots_pos, ht.slots_le, ht.slot_lt, ht.lap_le⟩
  · refine ⟨ht.slots_pos, ht.slots_le, ht.slot_lt, ?_⟩
    unfold broadcast
    dsimp only
    split
    · exact ht.lap_le
    · have hsum := UInt32.toNat_add a.turn.lapBroadcasts 1
      simp only [UInt32.reduceToNat] at hsum
      omega

theorem onLap_of_empty (hs : a.slots = maxSlots) (hlt : a.slot.toNat < maxSlots.toNat)
    (hl : a.lapBroadcasts = 0) : a.OnLap := by
  have hslots : a.slots.toNat = maxSlots.toNat := congrArg UInt32.toNat hs
  have hlap : a.lapBroadcasts.toNat = 0 := congrArg UInt32.toNat hl
  have hpos : 0 < maxSlots.toNat := by decide
  exact {
    slots_pos := Nat.lt_of_lt_of_eq hpos hslots.symm
    slots_le := Nat.le_of_eq hslots
    slot_lt := Nat.lt_of_lt_of_eq hlt hslots.symm
    lap_le := Nat.le_trans (Nat.le_of_eq hlap) (Nat.zero_le _) }

theorem onLap_noisy (slotMs seed : UInt32) : ((noisy slotMs).reseed seed).OnLap :=
  onLap_of_empty rfl (by decide : (0 : UInt32).toNat < maxSlots.toNat) rfl

theorem onLap_stochastic (slotMs seed : UInt32) : ((stochastic slotMs).reseed seed).OnLap :=
  onLap_of_empty rfl (by decide : (0 : UInt32).toNat < maxSlots.toNat) rfl

/-- A measured crowding leaves a schedule in its slot. -/
theorem OnLap.setCrowding (h : a.OnLap) (crowding : Float) : (a.setCrowding crowding).OnLap := by
  have hslot := Nat.lt_of_lt_of_le h.slot_lt h.slots_le
  unfold Airtime.setCrowding fit
  cases a.pattern with
  | noisy => exact ⟨h.slots_pos, h.slots_le, h.slot_lt, h.lap_le⟩
  | stochastic => exact onLap_of_empty rfl hslot rfl

end Airtime

/-! ## The discovery cycle -/

namespace Cycle
variable {α β : Type}

def checkedDue (c : Cycle α β) : Option (Option α) :=
  if c.running then Checked.look c.work c.slot.val else some none

theorem zero_lt_slots : 0 < 4 := by decide

def first : Fin 4 := ⟨0, zero_lt_slots⟩

def checkedAdvance (c : Cycle α β) : Option (Advance β × Cycle α β) :=
  if !c.running then some (⟨first, none⟩, c)
  else do
    let next ← Checked.below 0x100 (c.slot.val + 1)
    if h : next < 4 then pure (⟨⟨next, h⟩, none⟩, { c with slot := ⟨next, h⟩ })
    else
      let count := c.count + 1
      pure (⟨first, c.completion.map fun b => (b, count)⟩, { c with slot := first, count })

theorem checkedDue_eq (c : Cycle α β) : c.checkedDue = some c.due? := by
  unfold checkedDue due?
  split
  · exact Checked.look_eq c.work c.slot
  · rfl

theorem checkedAdvance_eq (c : Cycle α β) : c.checkedAdvance = some c.advance := by
  have hlt := c.slot.isLt
  have hfits : c.slot.val + 1 < 0x100 := by omega
  unfold checkedAdvance advance
  split
  · rfl
  · rw [Checked.bind_eq (Checked.below_eq hfits)]
    by_cases h3 : c.slot = 3
    · have hend : ¬ c.slot.val + 1 < 4 := by
        rw [h3]
        decide
      rw [dif_neg hend, if_pos h3]
      rfl
    · have hnext : c.slot.val + 1 < 4 := by
        have hne : c.slot.val ≠ 3 := fun hv => h3 (Fin.ext hv)
        omega
      have hsucc : (⟨c.slot.val + 1, hnext⟩ : Fin 4) = c.slot + 1 := by
        apply Fin.ext
        rw [Fin.val_add]
        exact (Nat.mod_eq_of_lt hnext).symm
      rw [dif_pos hnext, if_neg h3, hsucc]
      rfl

end Cycle

/-! ## The survey -/

namespace Survey

def checkedSample (s : Survey) (rssi : Int8) : Option Survey :=
  if s.measuring then do
    let window ← s.window.checkedPush rssi
    pure { s with window }
  else some s

def checkedCrowding (s : Survey) : Option Float :=
  if s.window.isEmpty then some s.lastCrowding else s.window.checkedHeld.map Relay.crowdingOf

def checkedEndMeasuring (s : Survey) : Option Survey := do
  let found ← s.checkedCrowding
  pure { s with lastCrowding := found, measures := { s.measures with crowding := found },
                measuring := false, window := s.window.clear }

def checkedForget (s : Survey) (now : Instant) (maxAge : Span) : Option (Survey × Nat) := do
  let (heard, gone) ← s.heard.checkedRetain fun _ h => now.since h.lastSeen ≤ maxAge
  pure ({ s with heard }, gone)

def checkedMeasure (s : Survey) : Option Survey := do
  let crowding ← s.checkedCrowding
  let direct := s.countDirect
  pure { s with measures := { s.measures with
    direct
    total := UInt32.ofNat s.heard.size
    crowding
    signalRatio := direct.toFloat / (1.0 + crowding)
    places := s.places
    relayRate :=
      if 0 < s.measures.received then s.measures.relayed.toFloat / s.measures.received.toFloat
      else 0.0 } }

theorem checkedForget_eq (s : Survey) (now : Instant) (maxAge : Span) :
    s.checkedForget now maxAge = some (s.forget now maxAge) := by
  unfold checkedForget forget
  rw [Checked.bind_eq (s.heard.checkedRetain_eq _)]
  rfl

section window
variable {s : Survey} (h : s.window.InBounds)
include h

theorem checkedSample_eq (rssi : Int8) : s.checkedSample rssi = some (s.sample rssi) := by
  unfold checkedSample sample
  split
  · rw [Checked.bind_eq (h.checkedPush_eq (by decide) rssi)]
    rfl
  · rfl

theorem checkedCrowding_eq : s.checkedCrowding = some s.crowding := by
  unfold checkedCrowding crowding
  rw [h.checkedHeld_eq]
  split <;> rfl

theorem checkedEndMeasuring_eq : s.checkedEndMeasuring = some s.endMeasuring := by
  unfold checkedEndMeasuring endMeasuring
  rw [Checked.bind_eq (checkedCrowding_eq h)]
  rfl

theorem checkedMeasure_eq : s.checkedMeasure = some s.measure := by
  unfold checkedMeasure measure
  rw [Checked.bind_eq (checkedCrowding_eq h)]
  rfl

end window

end Survey

/-! ## Neighbors -/

namespace Roster

def checkedTotal (r : Roster) : Option Int :=
  r.values.foldlM (fun total n => Checked.within 0x80000000 (total + n.rssi.toInt)) 0

def checkedMeanRssi (r : Roster) : Option Int8 :=
  if r.size = 0 then some 0
  else do
    let total ← r.checkedTotal
    let mean ← Checked.quotient total r.size
    let mean ← Checked.within 0x80 mean
    pure (Int8.ofInt mean)

/-- The sum of `n` signal strengths is between `n` times the weakest and the strongest. -/
theorem foldlM_rssi {ns : List Neighbor} {total : Int} {n : Nat} (hlow : -128 * n ≤ total)
    (hhigh : total ≤ 127 * n) (hn : n + ns.length ≤ capacity) :
    let sum := ns.foldl (fun total n => total + n.rssi.toInt) total
    ns.foldlM (fun total n => Checked.within 0x80000000 (total + n.rssi.toInt)) total = some sum ∧
      -128 * ((n + ns.length : Nat) : Int) ≤ sum ∧
      sum ≤ 127 * ((n + ns.length : Nat) : Int) := by
  induction ns generalizing total n with
  | nil => exact ⟨rfl, hlow, hhigh⟩
  | cons m ns ih =>
    have hweak := Int8.le_toInt m.rssi
    have hstrong := Int8.toInt_lt m.rssi
    rw [List.length_cons, Nat.add_comm ns.length, ← Nat.add_assoc] at hn ⊢
    unfold capacity at hn ih
    have hword : -((0x80000000 : Nat) : Int) ≤ total + m.rssi.toInt ∧
        total + m.rssi.toInt < (0x80000000 : Nat) := by omega
    rw [List.foldlM_cons, Checked.bind_eq (Checked.within_eq hword)]
    exact ih (by omega) (by omega) hn

/-- A quotient lies between the bounds that hold of every part, also with its fraction cut off. -/
theorem tdiv_between {lo hi total : Int} {n : Nat} (hn : n ≠ 0) (hlow : lo * n ≤ total)
    (hhigh : total ≤ hi * n) : lo ≤ total.tdiv n ∧ total.tdiv n ≤ hi := by
  have hpos : (0 : Int) < n := Int.natCast_pos.2 (Nat.pos_of_ne_zero hn)
  have hleft := Int.tdiv_le_tdiv hpos hlow
  have hright := Int.tdiv_le_tdiv hpos hhigh
  rw [Int.mul_tdiv_cancel _ (Int.ne_of_gt hpos)] at hleft hright
  exact ⟨hleft, hright⟩

theorem checkedMeanRssi_eq {r : Roster} (h : r.size ≤ capacity) :
    r.checkedMeanRssi = some r.meanRssi := by
  unfold checkedMeanRssi meanRssi
  split
  · rfl
  · next hn =>
    have hlen : r.values.length = r.size := List.length_map ..
    have hroom : 0 + r.values.length ≤ capacity := by
      rw [Nat.zero_add, hlen]
      exact h
    obtain ⟨hsum, hlow, hhigh⟩ := foldlM_rssi (Int.le_refl 0) (Int.le_refl 0) hroom
    rw [Nat.zero_add, hlen] at hlow hhigh
    obtain ⟨hweakest, hstrongest⟩ := tdiv_between hn hlow hhigh
    have hne : (r.size : Int) ≠ 0 := Int.natCast_ne_zero.2 hn
    rw [Checked.bind_eq (x := r.checkedTotal) hsum, Checked.bind_eq (Checked.quotient_eq hne),
      Checked.bind_eq (Checked.within_eq ⟨hweakest, Int.lt_add_one_of_le hstrongest⟩)]
    rfl

end Roster

namespace Node

def checkedPrune (n : Node) (patience : UInt32) : Option (Node × Nat) := do
  let (roster, gone) ← n.roster.checkedRetain fun _ m => n.cycle.subSat m.lastSeen ≤ patience
  pure ({ n with roster }, gone)

def checkedRefreshCounts (n : Node) : Option Node := do
  let meanRssi ← n.roster.checkedMeanRssi
  pure { n with counts := { n.counts with meanRssi, direct := UInt16.ofNat n.countDirect } }

def checkedIsEdge (n : Node) : Option Bool := do
  let mean ← n.roster.checkedMeanRssi
  pure (n.countDirect < coreNeighbors || mean < weakSignal)

def checkedMayStand (n : Node) : Option Bool := do
  let mean ← n.roster.checkedMeanRssi
  let meetsBaseline := candidateNeighbors ≤ n.countDirect &&
    !n.roster.isFull Roster.capacity && weakSignal ≤ mean
  let cluster := fullCluster.toFloat
  let share := Float.ofNat n.countDirect / cluster / (1.0 + n.noise)
  let bar := n.bar.toFloat
  pure (meetsBaseline && bar * bar / (0.5 * cluster) ≤ share)

theorem checkedPrune_eq (n : Node) (patience : UInt32) :
    n.checkedPrune patience = some (n.prune patience) := by
  unfold checkedPrune prune
  rw [Checked.bind_eq (n.roster.checkedRetain_eq _)]
  rfl

section roster
variable {n : Node} (h : n.roster.size ≤ Roster.capacity)
include h

theorem checkedRefreshCounts_eq : n.checkedRefreshCounts = some n.refreshCounts := by
  unfold checkedRefreshCounts
  rw [Checked.bind_eq (Roster.checkedMeanRssi_eq h)]
  rfl

theorem checkedIsEdge_eq : n.checkedIsEdge = some n.isEdge := by
  unfold checkedIsEdge
  rw [Checked.bind_eq (Roster.checkedMeanRssi_eq h)]
  rfl

theorem checkedMayStand_eq : n.checkedMayStand = some n.mayStand := by
  unfold checkedMayStand
  rw [Checked.bind_eq (Roster.checkedMeanRssi_eq h)]
  rfl

end roster

end Node

/-! ## Packets -/

def checkedReachStep (reached fresh : UInt32) : Option UInt32 := do
  let base := max 1 reached.toNat
  let product ← Checked.below 0x10000000000000000 (base * fresh.toNat)
  let next ← Checked.below 0x10000000000000000 (base + product)
  pure (UInt32.ofNat (min next 0xffffffff))

theorem checkedReachStep_eq (reached fresh : UInt32) :
    checkedReachStep reached fresh = some (reachStep reached fresh) := by
  have hreached := reached.toNat_lt
  have hfresh := fresh.toNat_lt
  have hbase : max 1 reached.toNat ≤ 0xffffffff := by omega
  have hproduct : max 1 reached.toNat * fresh.toNat ≤ 0xffffffff * 0xffffffff :=
    Nat.mul_le_mul hbase (by omega)
  unfold checkedReachStep reachStep
  rw [Checked.bind_eq (Checked.below_eq (by omega)),
    Checked.bind_eq (Checked.below_eq (by omega))]
  rfl

namespace Ballot

def checkedAddHop (b : Ballot) (direct known : UInt32) : Option Ballot := do
  let fresh ← Checked.difference direct.toNat (min known direct).toNat
  let fresh := UInt32.ofNat fresh
  match b.history.push? fresh with
  | none => pure b
  | some history => do
    let reach ← checkedReachStep b.reach fresh
    pure { b with history, reach }

/-- What was known of the direct neighbors is taken off them within a word. -/
theorem checkedFresh_eq (direct known : UInt32) :
    Checked.difference direct.toNat (min known direct).toNat =
      some (direct - min known direct).toNat := by
  have hle : min known direct ≤ direct := by
    rw [show min known direct = if known ≤ direct then known else direct from rfl]
    split
    · assumption
    · exact UInt32.le_refl direct
  rw [UInt32.toNat_sub_of_le _ _ hle]
  exact Checked.difference_eq (UInt32.le_iff_toNat_le.1 hle)

theorem checkedAddHop_eq (b : Ballot) (direct known : UInt32) :
    b.checkedAddHop direct known = some (b.addHop direct known) := by
  unfold checkedAddHop addHop
  rw [Checked.bind_eq (checkedFresh_eq direct known), UInt32.ofNat_toNat]
  dsimp only
  cases b.history.push? (direct - min known direct) with
  | none => rfl
  | some history =>
    dsimp only
    rw [Checked.bind_eq (checkedReachStep_eq ..)]
    rfl

end Ballot

namespace Packet

def checkedSpendLife (p : Packet) : Option (Option Packet) :=
  if p.life = 0 then some none
  else do
    let life ← Checked.difference p.life.toNat 1
    pure (some { p with life := UInt8.ofNat life })

theorem checkedSpendLife_eq (p : Packet) : p.checkedSpendLife = some p.spendLife? := by
  unfold checkedSpendLife spendLife?
  split
  · rfl
  · next hl =>
    have hpos : 1 ≤ p.life.toNat := Nat.one_le_iff_ne_zero.2 fun h0 => hl (UInt8.toNat.inj h0)
    have hof : UInt8.ofNat (p.life.toNat - 1) = p.life - 1 := by
      rw [show p.life.toNat - 1 = (p.life - 1).toNat from
        (UInt8.toNat_sub_of_le _ 1 (UInt8.le_iff_toNat_le.2 hpos)).symm, UInt8.ofNat_toNat]
    rw [Checked.bind_eq (Checked.difference_eq hpos), hof]
    rfl

end Packet

/-! ## The queue -/

namespace Relay

def checkedUrgency (life : UInt8) : Option UInt8 :=
  if life = 0 then some 255
  else do
    let urgency ← Checked.difference 255 life.toNat
    pure (UInt8.ofNat urgency)

theorem checkedUrgency_eq (life : UInt8) : checkedUrgency life = some (urgency life) := by
  have hlt := life.toNat_lt
  have hle : life.toNat ≤ 255 := by omega
  have hof : UInt8.ofNat (255 - life.toNat) = 255 - life := by
    apply UInt8.toNat.inj
    rw [UInt8.toNat_ofNat', UInt8.toNat_sub_of_le _ _ (UInt8.le_iff_toNat_le.2 hle)]
    simp only [UInt8.reduceToNat]
    omega
  unfold checkedUrgency urgency
  split
  · rfl
  · rw [Checked.bind_eq (Checked.difference_eq hle), hof]
    rfl

namespace Queue

def Tallied (q : Queue) : Prop := q.size = q.waiting.length

def checkedStore (q : Queue) (slot : Fin capacity) (p : Packet) (now : Instant) :
    Option Queue := do
  let urgency ← checkedUrgency p.life
  let slots ← Checked.put q.slots slot.val (some ⟨p, now, urgency⟩)
  let size ← Checked.below Checked.sizes (q.size + 1)
  let q := { q with slots, size }.remember p now
  pure { q with counts := { q.counts with enqueued := q.counts.enqueued.succSat } }

def checkedEnqueue (q : Queue) (p : Packet) (own : NodeId) (now : Instant) :
    Option (Except Refusal Unit × Queue) :=
  if p.path.contains own then some (.error .loop, q.refuse .loop)
  else if q.hasSeen p.sender (mark p) then some (.error .duplicate, q.refuse .duplicate)
  else
    match q.freeSlot? with
    | none => some (.error .overflow, q.refuse .overflow)
    | some slot => do
      let q ← q.checkedStore slot p now
      pure (.ok (), q)

def checkedDequeue (q : Queue) : Option (Option (Entry × Queue)) :=
  match q.best? with
  | none => some none
  | some (slot, _) => do
    match ← Checked.look q.slots slot.val with
    | none => pure none
    | some e =>
      let slots ← Checked.put q.slots slot.val none
      let size ← Checked.difference q.size 1
      pure (some (e, { q with slots, size,
                              counts := { q.counts with
                                dequeued := q.counts.dequeued.succSat } }))

def checkedForget (q : Queue) (now : Instant) (maxAge : Span) : Option (Queue × Nat) := do
  let (memory, gone) ← q.memory.checkedRetain fun _ s => now.since s.seenAt ≤ maxAge
  pure ({ q with memory }, gone)

theorem length_waiting_le (q : Queue) : q.waiting.length ≤ capacity := by
  have hle := List.length_filterMap_le id q.slots.toList
  rwa [Vector.length_toList] at hle

theorem checkedForget_eq (q : Queue) (now : Instant) (maxAge : Span) :
    q.checkedForget now maxAge = some (q.forget now maxAge) := by
  unfold checkedForget forget
  rw [Checked.bind_eq (q.memory.checkedRetain_eq _)]
  rfl

variable {q : Queue} (h : q.Tallied)
include h

theorem Tallied.size_le : q.size ≤ capacity := h ▸ q.length_waiting_le

theorem Tallied.checkedStore_eq (slot : Fin capacity) (p : Packet) (now : Instant) :
    q.checkedStore slot p now = some (q.store slot p now) := by
  have hsize : q.size + 1 < Checked.sizes := by
    have hle := h.size_le
    unfold capacity at hle
    unfold Checked.sizes
    omega
  unfold checkedStore
  rw [Checked.bind_eq (checkedUrgency_eq p.life),
    Checked.bind_eq (Checked.put_eq q.slots slot.isLt _),
    Checked.bind_eq (Checked.below_eq hsize)]
  rfl

theorem Tallied.checkedEnqueue_eq (p : Packet) (own : NodeId) (now : Instant) :
    q.checkedEnqueue p own now = some (q.enqueue p own now) := by
  unfold checkedEnqueue enqueue
  split
  · rfl
  · split
    · rfl
    · cases q.freeSlot? with
      | none => rfl
      | some slot =>
        dsimp only
        rw [Checked.bind_eq (h.checkedStore_eq slot p now)]
        rfl

theorem Tallied.checkedDequeue_eq : q.checkedDequeue = some q.dequeue? := by
  unfold checkedDequeue
  cases hb : q.best? with
  | none =>
    unfold dequeue?
    rw [hb]
    rfl
  | some b =>
    obtain ⟨slot, e⟩ := b
    have hq : q.dequeue? = some (e, _) := congrArg (Option.map _) hb
    have he : q.slots.get slot = some e := foldl_better (by simp) hb
    -- what is taken out was counted
    have hpos : 1 ≤ q.size := by
      have hlen := (waiting_dequeue hq).length_eq
      have hsize : q.size = q.waiting.length := h
      rw [List.length_cons] at hlen
      omega
    dsimp only
    rw [Checked.bind_eq (Checked.look_eq q.slots slot), he]
    dsimp only
    rw [Checked.bind_eq (Checked.put_eq q.slots slot.isLt none),
      Checked.bind_eq (Checked.difference_eq hpos), hq]
    rfl

theorem Tallied.enqueue (p : Packet) (own : NodeId) (now : Instant) :
    (q.enqueue p own now).2.Tallied := by
  have he := q.enqueues p own now
  generalize q.enqueue p own now = r at he
  cases he with
  | loop | duplicate | overflow => exact h
  | @stored slot _ hf =>
    have hlen := (waiting_store hf p now).length_eq
    have hsize := (q.store_keeps slot p now).1
    have hq : q.size = q.waiting.length := h
    rw [List.length_cons, ← hq, ← hsize] at hlen
    exact hlen.symm

theorem Tallied.forget (now : Instant) (maxAge : Span) : (q.forget now maxAge).1.Tallied := h

theorem Tallied.dequeue {e : Entry} {q' : Queue} (hq : q.dequeue? = some (e, q')) :
    q'.Tallied := by
  have hlen := (waiting_dequeue hq).length_eq
  have hsize := (dequeue_keeps hq).1
  have hs : q.size = q.waiting.length := h
  unfold Tallied
  rw [List.length_cons] at hlen
  omega

end Queue
end Relay
end ClusterMesh
