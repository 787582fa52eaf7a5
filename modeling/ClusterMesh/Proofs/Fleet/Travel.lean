import Mathlib
import ClusterMesh.Proofs.Ballot
import ClusterMesh.Proofs.Fleet.Basic
import ClusterMesh.Proofs.Relay.Queue

/-! Packets in a fleet whose stations hear only what stations of the fleet have sent, late,
repeatedly, in any order or never. Each copy on the air shows the way it took, the life it
has left and, on an announcement, the count of every hop. -/
namespace ClusterMesh
open Station (Op)
variable {ι : Type} {settings : ι → Settings}

structure Travelled (settings : ι → Settings) (i : ι) (p : Packet) : Prop where
  first : p.path.toList.head? = some p.sender
  last : p.path.toList.getLast? = some (settings i).id
  known : ∀ id ∈ p.path.toList, ∃ j, (settings j).id = id
  nodup : p.path.toList.Nodup
  length_le : p.path.toList.length ≤ 50
  life : ∀ j, (settings j).id = p.sender →
    p.life.toNat + p.path.toList.length = (settings j).life.toNat + 1
  ballot : ∀ b, p.content = .candidacy b → b.Counted p.path.toList.length
  unsaturated : ∀ b, p.content = .candidacy b → 2 ≤ p.path.toList.length → b.reach.toNat < 150

namespace Station

structure Originates (s : Station) (p : Packet) : Prop where
  sender : p.sender = s.id
  life : p.life = s.settings.life
  path : p.path.toList = [s.id]
  ballot : ∀ b, p.content = .candidacy b → b.Counted 1

theorem originates_beacon (s : Station) : s.Originates s.beacon :=
  ⟨rfl, rfl, rfl, fun _ hb => nomatch hb⟩

theorem originates_message (s : Station) : s.Originates s.message := by
  have hb : s.ownBallot.Counted 1 := by
    unfold ownBallot
    exact Ballot.counted_first rfl rfl
  unfold message
  split
  · exact ⟨rfl, rfl, rfl, fun _ hb => nomatch hb⟩
  · split
    · refine ⟨rfl, rfl, rfl, fun b he => ?_⟩
      cases he
      exact hb
    · exact originates_beacon s

/-- The copy of an announcement carries the ballot with one more hop. -/
theorem countHop_eq {s : Station} {p : Packet} {b : Ballot} (h : s.countHop p = .candidacy b) :
    ∃ ballot known, p.content = .candidacy ballot ∧
      b = ballot.addHop (UInt32.ofNat s.node.countDirect) known := by
  unfold countHop at h
  split at h
  · next ballot hp =>
    cases h
    exact ⟨ballot, _, hp, rfl⟩
  · next hn => exact absurd h (hn b)

end Station

theorem travelled_of_originates {i : ι} {s : Station} {p : Packet}
    (hinj : Function.Injective fun j => (settings j).id) (hid : s.id = (settings i).id)
    (hs : s.settings = settings i) (h : s.Originates p) : Travelled settings i p := by
  have hlen : p.path.toList.length = 1 := by rw [h.path, List.length_singleton]
  refine ⟨?_, ?_, ?_, ?_, ?_, ?_, ?_, ?_⟩
  · rw [h.path, h.sender, List.head?_cons]
  · rw [h.path, hid, List.getLast?_singleton]
  · intro id hm
    rw [h.path, List.mem_singleton] at hm
    exact ⟨i, hm ▸ hid.symm⟩
  · rw [h.path]
    exact List.nodup_singleton _
  · omega
  · intro j hj
    have he : j = i := hinj (hj.trans (h.sender.trans hid))
    rw [h.life, hs, hlen, he]
  · rw [hlen]
    exact h.ballot
  · omega

theorem travelled_copy {i j : ι} {s : Station} {p q : Packet} (hid : s.id = (settings i).id)
    (h : Travelled settings j p) (hn : s.id ∉ p.path.toList) (hc : s.copyOf p = .ok q) :
    Travelled settings i q := by
  obtain ⟨hl, hlt, hp, hsat, hq⟩ := Station.copyOf_eq_ok hc
  have hsender : q.sender = p.sender := by rw [hq]
  have hlife : q.life = p.life - 1 := by rw [hq]
  have hcontent : q.content = s.countHop p := by rw [hq]
  have hlen : q.path.toList.length = p.path.toList.length + 1 := by
    rw [hp, List.length_append, List.length_singleton]
  refine ⟨?_, ?_, ?_, ?_, q.path.length_le, ?_, ?_, ?_⟩
  · rw [hp, hsender, List.head?_append, h.first]
    rfl
  · rw [hp, hid, List.getLast?_concat]
  · intro id hm
    rw [hp, List.mem_append, List.mem_singleton] at hm
    obtain hm | rfl := hm
    · exact h.known id hm
    · exact ⟨i, hid.symm⟩
  · rw [hp, ← List.concat_eq_append]
    exact h.nodup.concat hn
  · -- the hop that the path gains is the one that the life loses
    intro k hk
    have hpos : p.life.toNat ≠ 0 := fun h0 => hl (UInt8.toNat.inj h0)
    have hone : (1 : UInt8) ≤ p.life := UInt8.le_iff_toNat_le.2 (Nat.one_le_iff_ne_zero.2 hpos)
    have hsub : q.life.toNat = p.life.toNat - 1 := by rw [hlife, UInt8.toNat_sub_of_le _ _ hone]; rfl
    have hsum := h.life k (hk.trans hsender)
    omega
  · intro b hb
    obtain ⟨ballot, known, hb', rfl⟩ := Station.countHop_eq (hcontent.symm.trans hb)
    rw [hlen]
    exact (h.ballot ballot hb').addHop hlt _ known
  · intro b hb _
    rw [hb] at hsat
    have hlt : ¬ fullCluster ≤ b.reach := of_decide_eq_false hsat
    rw [UInt32.le_iff_toNat_le] at hlt
    exact Nat.lt_of_not_le hlt

structure Station.Honest (settings : ι → Settings) (i : ι) (s : Station) : Prop where
  inStep : s.clockwork.InStep
  id_eq : s.id = (settings i).id
  settings_eq : s.settings = settings i
  sent : ∀ p ∈ s.traffic.sent, Travelled settings i p
  waiting : ∀ e, s.traffic.queue.Holds e →
    (∃ j, Travelled settings j e.packet) ∧ s.id ∉ e.packet.path.toList

namespace Station

theorem honest_start {i : ι} {receivers : Receivers} {s : Station}
    (h : Station.start (settings i) receivers = .ok s) : s.Honest settings i := by
  obtain ⟨-, rfl⟩ := start_eq h
  refine ⟨inStep_fresh _ _, rfl, rfl, ?_, ?_⟩
  · intro p hp
    exact absurd hp (Array.not_mem_empty p)
  · intro e he
    exact absurd he (Relay.Queue.not_holds_empty e)

theorem Honest.step {i : ι} {s : Station} (h : s.Honest settings i)
    (hinj : Function.Injective fun j => (settings j).id) {op : Op}
    (hop : ∀ p, op.packet? = some p → ∃ j, Travelled settings j p) :
    (s.step op).Honest settings i := by
  have hid := id_step h.inStep op
  have hown {p : Packet} (hp : s.Originates p) : Travelled settings i p :=
    travelled_of_originates hinj h.id_eq h.settings_eq hp
  have hcopy : ∀ p q, (∃ j, Travelled settings j p) ∧ s.id ∉ p.path.toList →
      s.copyOf p = .ok q → Travelled settings i q := by
    rintro p q ⟨⟨j, hj⟩, hn⟩ hc
    exact travelled_copy h.id_eq hj hn hc
  obtain ⟨hsent, hwaiting⟩ := (carries_step h.inStep op).keeps h.sent h.waiting
    (hown (originates_beacon s)) (hown (originates_message s)) hcopy
    fun p hp hn => ⟨hop p hp, hn⟩
  exact ⟨inStep_step h.inStep op, hid.trans h.id_eq,
    (settings_step h.inStep op).trans h.settings_eq, hsent, hid ▸ hwaiting⟩

end Station

namespace Fleet

/-- Stations hear nothing but what some station has sent before. -/
def HearsSent (fleet : Fleet ι) (_ : ι) (op : Op) : Prop :=
  ∀ p, op.packet? = some p → ∃ j, p ∈ (fleet j).outbox.packets

variable [DecidableEq ι]

/-- Whatever stations with distinct names do, and however what they send is delivered, every
packet sent has travelled as it shows. No station queues a packet of its own, and those that
it sends under its own name are its own messages, not copies. -/
theorem packets_travelled {receivers : ι → Receivers} {fleet : Fleet ι}
    (hs : ∀ i, Station.start (settings i) (receivers i) = .ok (fleet i))
    (hinj : Function.Injective fun i => (settings i).id) {moves : List (ι × Op)}
    (hm : fleet.Follows HearsSent moves) (i : ι) :
    (∀ p ∈ (fleet.play moves i).outbox.packets, Travelled settings i p) ∧
      (∀ e, (fleet.play moves i).queue.Holds e → e.packet.sender ≠ (settings i).id) ∧
      ∀ p ∈ (fleet.play moves i).outbox.packets,
        p.sender = (settings i).id → p.path.toList = [(settings i).id] := by
  have hstep : ∀ fleet : Fleet ι, (∀ i, (fleet i).Honest settings i) → ∀ i op,
      HearsSent fleet i op → ((fleet i).step op).Honest settings i := by
    intro fleet h i op hop
    refine (h i).step hinj fun p hp => ?_
    obtain ⟨j, hj⟩ := hop p hp
    exact ⟨j, (h j).sent p hj⟩
  have h := holds_play (fun i s => s.Honest settings i) hstep
    (fun i => Station.honest_start (hs i)) hm i
  refine ⟨h.sent, fun e he hown => ?_, fun p hp hown => ?_⟩
  · obtain ⟨⟨j, hj⟩, hn⟩ := h.waiting e he
    have hmem : e.packet.sender ∈ e.packet.path.toList := List.mem_of_head? hj.first
    exact hn (h.id_eq ▸ hown ▸ hmem)
  · have ht := h.sent p hp
    have hfirst := ht.first
    have hlast := ht.last
    have hnodup := ht.nodup
    rw [hown] at hfirst
    cases hpath : p.path.toList with
    | nil => simp [hpath] at hfirst
    | cons id ids =>
      rw [hpath, List.head?_cons, Option.some.injEq] at hfirst
      subst hfirst
      rw [hpath, List.nodup_cons] at hnodup
      cases ids with
      | nil => rfl
      | cons next ids =>
        rw [hpath, List.getLast?_cons_cons] at hlast
        exact absurd (List.mem_of_getLast? hlast) hnodup.1

/-- Two stations with short phases. The second hears the first message of the first, and relays it
after a beacon and a message of its own. -/
theorem packets_travelled_through_neighbor :
    let settings : Bool → Settings := fun i => { id := if i then 2 else 1, plan := ⟨1, 1, 1, 1⟩ }
    let fleet : Fleet Bool := fun i => Station.fresh (settings i) {}
    let tick : Op := .tick .zero
    let speaker := ((fleet false).step tick).step tick
    let moves := [(false, tick), (false, tick), (false, tick), (true, tick), (true, tick),
      (true, .receive speaker.message (-60) .zero), (true, tick), (true, tick)]
    (∀ i, Station.start (settings i) {} = .ok (fleet i)) ∧
      Function.Injective (fun i => (settings i).id) ∧ fleet.Follows HearsSent moves ∧
      (fleet.play moves true).outbox.packets.toList.map (fun p => p.path.toList) =
        [[2], [2], [1, 2]] ∧
      ∀ p ∈ (fleet.play moves true).outbox.packets, Travelled settings true p := by
  intro settings fleet tick speaker moves
  have hs : ∀ i, Station.start (settings i) {} = .ok (fleet i) := by
    intro i
    cases i <;> rfl
  have hinj : Function.Injective fun i => (settings i).id := by decide
  have hm : fleet.Follows HearsSent moves := by
    have htick : ∀ (f : Fleet Bool) i, HearsSent f i tick := fun _ _ _ hp => nomatch hp
    refine ⟨htick _ _, htick _ _, htick _ _, htick _ _, htick _ _, fun p hp => ⟨false, ?_⟩,
      htick _ _, htick _ _, trivial⟩
    cases hp
    have hi : ∀ i, (fleet i).clockwork.InStep := fun i => (Station.Reachable.start (hs i)).inStep
    have hslot : speaker.runsSlot 0 tick = true :=
      Station.runsSlot_third_tick (hi false) rfl rfl rfl rfl .zero
    have hsent := Station.traffic_step_of_runsSlot
      (Station.inStep_step (Station.inStep_step (hi false) _) _) hslot
    rw [act_of_ne _ Bool.false_ne_true, act_of_ne _ Bool.false_ne_true, act_self, act_self, act_self]
    change speaker.message ∈ (speaker.step tick).traffic.sent
    rw [hsent]
    exact Array.mem_push_self
  have hpaths : (fleet.play moves true).outbox.packets.toList.map (fun p => p.path.toList) =
      [[2], [2], [1, 2]] := by
    decide +kernel
  exact ⟨hs, hinj, hm, hpaths, (packets_travelled hs hinj hm true).1⟩

end Fleet
end ClusterMesh
