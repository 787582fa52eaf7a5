import ClusterMesh.Proofs.Station.Fixtures
import ClusterMesh.Proofs.Station.Relaying

/-! How long a station remembers what it queued. Whether a packet is a duplicate is asked of the
memory alone, and the memory is cleared of what is too old only when a cycle completes. So a
packet refused as a duplicate was queued before, and was young enough at each completion since. -/
namespace ClusterMesh

def Settings.memoryMs (c : Settings) : Nat := c.patience.toNat * (4 * c.slotMs.toNat)

namespace Station
open Relay (Queue Entry Sighting mark)

/-- No operation of a run resets the station, and whenever one completes a cycle, at most `limit`
milliseconds have passed since a given time. -/
def Retains (limit : Nat) (since : Instant) : Station → List Op → Prop
  | _, [] => True
  | s, op :: ops =>
    op.isReset = false ∧
      (s.completes op = true → ∀ now, op.time? = some now →
        now.ms.toNat ≤ since.ms.toNat + limit) ∧
      Retains limit since (s.step op) ops

/-- The product that limits an age stops at the largest word, as every age does. -/
theorem Fixed.toNat_maxAge {c : Settings} {r : Receivers} {s : Station} (h : s.Fixed c r) :
    s.maxAge.ms.toNat = min c.memoryMs 0xffffffffffffffff := by
  have hage : s.maxAge.ms = (c.slotMs.toUInt64.mulSat 4).mulSat c.patience.toUInt64 := by
    rw [maxAge, Cycle.length, h.slotLength, h.settings]
    rfl
  have hslot := c.slotMs.toNat_lt
  have hlength : (c.slotMs.toUInt64.mulSat 4).toNat = 4 * c.slotMs.toNat := by
    rw [UInt64.toNat_mulSat, UInt32.toNat_toUInt64]
    simp only [UInt64.reduceToNat]
    omega
  rw [hage, UInt64.toNat_mulSat, UInt32.toNat_toUInt64, hlength, Nat.mul_comm, Settings.memoryMs]

/-- What is young enough is so by its age in whole numbers. -/
theorem Fixed.since_le_iff {c : Settings} {r : Receivers} {s : Station} (h : s.Fixed c r)
    {now seen : Instant} :
    now.since seen ≤ s.maxAge ↔ now.ms.toNat - seen.ms.toNat ≤ c.memoryMs := by
  have hnow := now.ms.toNat_lt
  rw [Instant.since_le_iff, h.toNat_maxAge]
  omega

/-! ## What is remembered -/

theorem not_completes_of_marks {s : Station} {op : Op} {m : Marks} (hm : s.marks op = m)
    (hr : m.relays = false) : s.completes op = false := by
  have hrelays : s.relays op = false := (congrArg Marks.relays hm).trans hr
  simp only [relays, Bool.or_eq_false_iff] at hrelays
  exact hrelays.2.2

def Recalls (c : Settings) (s : Station) (op : Op) (k : NodeId × UInt64) (v : Sighting) : Prop :=
  s.queue.memory.get? k = some v ∧ op.isReset = false ∧
    (s.completes op = true → ∀ now, op.time? = some now →
      now.ms.toNat ≤ v.seenAt.ms.toNat + c.memoryMs)

theorem recalls_of_marks {c : Settings} {s : Station} {op : Op} {m : Marks}
    {k : NodeId × UInt64} {v : Sighting} (hm : s.marks op = m) (hr : m.relays = false)
    (hn : m.resets = false) (hv : s.queue.memory.get? k = some v) : s.Recalls c op k v :=
  ⟨hv, (congrArg Marks.resets hm).trans hn, fun h3 =>
    nomatch h3.symm.trans (not_completes_of_marks hm hr)⟩

theorem recalls_of_tidied {c : Settings} {r : Receivers} {s : Station} (h : s.Fixed c r) {op : Op}
    {m : Marks} {q : Queue} {k : NodeId × UInt64} {v : Sighting} (hm : s.marks op = m)
    (hn : m.resets = false) (hq : q.memory = s.queue.memory)
    (hv : (s.tidied op q).memory.get? k = some v) : s.Recalls c op k v := by
  have hreset : op.isReset = false := (congrArg Marks.resets hm).trans hn
  unfold tidied at hv
  split at hv
  · obtain ⟨hv, hage⟩ := Relay.Queue.memory_of_forget hv
    refine ⟨hq ▸ hv, hreset, fun _ now ht => ?_⟩
    rw [ht] at hage
    have hlimit : now.ms.toNat - v.seenAt.ms.toNat ≤ c.memoryMs := h.since_le_iff.1 hage
    omega
  · next h3 => exact ⟨hq ▸ hv, hreset, fun h3' => absurd h3' h3⟩

/-- A record after an operation is that of the packet just queued, or one from before. -/
theorem memory_step {c : Settings} {r : Receivers} {s : Station} (h : s.Fixed c r) {op : Op}
    {k : NodeId × UInt64} {v : Sighting} (hv : (s.step op).queue.memory.get? k = some v) :
    (∃ e, s.accepts? op = some e ∧ k = (e.packet.sender, mark e.packet) ∧
        v.seenAt = e.receivedAt) ∨
      s.Recalls c op k v := by
  have hb := books_step h.inStep op
  generalize hl : (s.step op).ledger = l at hb
  have hqueue : (s.step op).queue = l.queue := congrArg Ledger.queue hl
  rw [hqueue] at hv
  cases hb with
  | kept hm => exact .inr (recalls_of_marks hm rfl rfl hv)
  | refused hm => exact .inr (recalls_of_marks hm rfl rfl hv)
  | beacon hm => exact .inr (recalls_of_marks hm rfl rfl hv)
  | message hm => exact .inr (recalls_of_marks hm rfl rfl hv)
  | @accepted p now _ hm hp ht =>
    obtain ⟨hk, hseen⟩ | hv := Relay.Queue.memory_of_store hv
    · have hr : s.reception? op = some .queued := congrArg Marks.reception hm
      refine .inl ⟨⟨p, now, Relay.urgency p.life⟩, ?_, hk, hseen⟩
      rw [accepts?, hr, hp, ht]
    · exact .inr (recalls_of_marks hm rfl rfl hv)
  | idle hm hq => exact .inr (recalls_of_tidied h hm rfl rfl hv)
  | lost hm hq => exact .inr (recalls_of_tidied h hm rfl (Relay.Queue.dequeue_keeps hq).2.1 hv)
  | copied hm hq => exact .inr (recalls_of_tidied h hm rfl (Relay.Queue.dequeue_keeps hq).2.1 hv)
  | reset hm => cases hv

/-- A record at the end of a run was there before it, or belongs to a packet queued in it, and
was young enough at each completion since. -/
theorem memory_run {c : Settings} {r : Receivers} {s : Station} (h : s.Fixed c r) {ops : List Op}
    {k : NodeId × UInt64} {v : Sighting} (hv : (s.run ops).queue.memory.get? k = some v) :
    s.queue.memory.get? k = some v ∧ s.Retains c.memoryMs v.seenAt ops ∨
      ∃ before op after e, ops = before ++ op :: after ∧ (s.run before).accepts? op = some e ∧
        k = (e.packet.sender, mark e.packet) ∧ v.seenAt = e.receivedAt ∧
        ((s.run before).step op).Retains c.memoryMs v.seenAt after := by
  induction ops generalizing s with
  | nil => exact .inl ⟨hv, trivial⟩
  | cons op ops ih =>
    obtain ⟨hv, hret⟩ | ⟨before, op', after, e, rfl, ha, hk, ht, hret⟩ := ih (h.step op) hv
    · obtain ⟨e, ha, hk, ht⟩ | ⟨hv, hreset, hage⟩ := memory_step h hv
      · exact .inr ⟨[], op, ops, e, rfl, ha, hk, ht, hret⟩
      · exact .inl ⟨hv, hreset, hage, hret⟩
    · exact .inr ⟨op :: before, op', after, e, rfl, ha, hk, ht, hret⟩

theorem hasSeen_of_duplicate {s : Station} {op : Op} {p : Packet} (hp : op.packet? = some p)
    (hr : s.reception? op = some (.rejected .duplicate)) :
    s.queue.hasSeen p.sender (mark p) = true := by
  obtain ⟨r, now, hr', -, hadmits⟩ := admits_step s hp
  cases hr'.symm.trans hr
  generalize (s.step op).ledger = l at hadmits
  cases hadmits with
  | kept _ _ hn => exact absurd rfl (hn .duplicate)
  | refused hd => exact hd rfl

/-- A packet is refused as a duplicate only if one with the same sender and the same life was
queued before and was at no completion of a cycle since then older than the limit. So no record
that was too old when a cycle completed ever refuses a packet. -/
theorem duplicates_were_queued {settings : Settings} {receivers : Receivers} {s : Station}
    (hs : Station.start settings receivers = .ok s) (ops : List Op) {op : Op} {p : Packet}
    (hp : op.packet? = some p)
    (hr : (s.run ops).reception? op = some (.rejected .duplicate)) :
    ∃ before op' after e, ops = before ++ op' :: after ∧ (s.run before).accepts? op' = some e ∧
      e.packet.sender = p.sender ∧ e.packet.life = p.life ∧
      ((s.run before).step op').Retains settings.memoryMs e.receivedAt after := by
  have hseen := hasSeen_of_duplicate hp hr
  obtain ⟨v, hv⟩ := Option.isSome_iff_exists.1 hseen
  obtain ⟨hv, -⟩ | ⟨before, op', after, e, hops, ha, hk, ht, hret⟩ := memory_run (fixed_start hs) hv
  · obtain ⟨-, rfl⟩ := start_eq hs
    cases hv
  · obtain ⟨hsender, hmark⟩ := Prod.mk.inj hk
    rw [ht] at hret
    exact ⟨before, op', after, e, hops, ha, hsender.symm,
      (Relay.Queue.life_eq_of_mark_eq hsender hmark).symm, hret⟩

/-- A packet heard twice in one slot of the discovery cycle. -/
theorem duplicates_were_queued_at_once :
    let c : Settings := { id := 1, plan := ⟨1, 50, 1, 10⟩ }
    let p : Packet := { sender := 7, path := ⟨[7], by simp [maxHops]⟩ }
    let ops : List Op := [.tick ⟨0⟩, .tick ⟨10⟩, .receive p (-50) ⟨110⟩]
    let s := fresh c {}
    Station.start c {} = .ok s ∧
      (s.run ops).reception? (.receive p (-60) ⟨130⟩) = some (.rejected .duplicate) ∧
      ∃ before op after e, ops = before ++ op :: after ∧ (s.run before).accepts? op = some e ∧
        e.packet.sender = p.sender ∧
        ((s.run before).step op).Retains c.memoryMs e.receivedAt after := by
  intro c p ops s
  have hs : Station.start c {} = .ok s := rfl
  have hr : (s.run ops).reception? (.receive p (-60) ⟨130⟩) = some (.rejected .duplicate) := by
    decide +kernel
  obtain ⟨before, op, after, e, hops, ha, hsender, -, hret⟩ :=
    duplicates_were_queued hs ops rfl hr
  exact ⟨hs, hr, before, op, after, e, hops, ha, hsender, hret⟩

/-- The age of a record counts at completions only. In a round with long phases a packet is
refused although the only one like it was queued more than the limit of 1200 milliseconds ago. -/
theorem duplicate_beyond_limit :
    let c : Settings := { id := 1, plan := ⟨1, 5000, 1, 10⟩ }
    let p : Packet := { sender := 7, path := ⟨[7], by simp [maxHops]⟩ }
    let ops : List Op := [.tick ⟨0⟩, .tick ⟨10⟩, .receive p (-50) ⟨110⟩, .tick ⟨110⟩, .tick ⟨210⟩,
      .tick ⟨310⟩, .tick ⟨410⟩, .tick ⟨5410⟩, .tick ⟨5420⟩]
    let again : Op := .receive p (-50) ⟨5520⟩
    let s := fresh c {}
    Station.start c {} = .ok s ∧
      ((ops ++ [again]).filterMap Op.time?).Pairwise (· ≤ ·) ∧
      (s.run ops).phase = .discovery ∧
      (s.run ops).reception? again = some (.rejected .duplicate) ∧
      c.memoryMs = 1200 ∧
      ¬ ∃ e ∈ s.accepted ops, e.packet.sender = p.sender ∧ e.packet.life = p.life ∧
        5520 ≤ e.receivedAt.ms.toNat + c.memoryMs := by
  refine ⟨rfl, ?_⟩
  decide +kernel

end Station
end ClusterMesh
