import ClusterMesh.Proofs.Fleet.Travel
import ClusterMesh.Proofs.Station.Allegiance
import ClusterMesh.Proofs.Station.Roles

/-! Who is taken for a head. A station follows the sender of a packet only if that packet says
that it heads a cluster or stands for one. Such packets come from stations that stood once, and
copies say nothing else, so that where all packets heard tell the truth about that, a station
follows none but those that stood. -/
namespace ClusterMesh
variable {stood : NodeId → Prop}

def Packet.Claims (p : Packet) : Prop := p.fromHead = true ∨ ∃ b, p.content = .candidacy b

structure Packet.Credible (stood : NodeId → Prop) (p : Packet) : Prop where
  named : p.sender ≠ nobody
  claim : p.Claims → stood p.sender

theorem Packet.Credible.mono {also : NodeId → Prop} (hs : ∀ id, stood id → also id) {p : Packet}
    (h : p.Credible stood) : p.Credible also :=
  ⟨h.named, fun hp => hs _ (h.claim hp)⟩

namespace Allegiance

theorem head_consider (a : Allegiance) (head : NodeId) (hops : UInt8) (direct : UInt32) :
    (a.consider head hops direct).office.head = a.office.head ∨
      (a.consider head hops direct).office.head = head := by
  unfold consider
  split
  · exact .inl rfl
  · split
    · exact .inl rfl
    · split
      · exact .inr rfl
      · exact .inl rfl

/-- A packet leaves the head as it is, takes it away or makes one of a sender that says it is
one. -/
theorem head_heed (a : Allegiance) (p : Packet) :
    (a.heed p).office.head = a.office.head ∨ (a.heed p).office.head = nobody ∨
      (a.heed p).office.head = p.sender ∧ p.Claims := by
  unfold heed
  cases hp : p.content with
  | beacon =>
    dsimp only
    split
    · next hf =>
      exact (head_consider a p.sender p.distance 0).imp_right fun h => .inr ⟨h, .inl hf⟩
    · exact .inl rfl
  | renouncement b =>
    unfold forsake
    dsimp only
    split
    · exact .inr (.inl rfl)
    · exact .inl rfl
  | candidacy b =>
    have hclaims : p.Claims := .inr ⟨b, hp⟩
    dsimp only
    split
    · unfold meet
      split
      · exact .inr (.inr ⟨rfl, hclaims⟩)
      · exact .inl rfl
    · exact (head_consider a p.sender p.distance b.direct).imp_right fun h => .inr ⟨h, hclaims⟩

end Allegiance

namespace Station

/-- What holds of a station that has heard credible packets only. -/
structure Vouched (stood : NodeId → Prop) (s : Station) : Prop where
  sound : s.Sound
  headed : s.node.role = .head → stood s.id
  follows : s.node.head ≠ nobody → stood s.node.head
  sent : ∀ p ∈ s.outbox.packets, p.Credible stood
  waiting : ∀ e, s.queue.Holds e → e.packet.Credible stood

theorem Vouched.mono {also : NodeId → Prop} (hs : ∀ id, stood id → also id) {s : Station}
    (h : s.Vouched stood) : s.Vouched also :=
  ⟨h.sound, fun hr => hs _ (h.headed hr), fun hn => hs _ (h.follows hn),
    fun p hp => (h.sent p hp).mono hs, fun e he => (h.waiting e he).mono hs⟩

theorem vouched_start {settings : Settings} {receivers : Receivers} {s : Station}
    (h : Station.start settings receivers = .ok s) : s.Vouched stood := by
  have hsound := sound_start h
  obtain ⟨-, rfl⟩ := start_eq h
  exact ⟨hsound, nofun, fun hn => absurd rfl hn, fun p hp => absurd hp (Array.not_mem_empty p),
    fun e he => absurd he (Relay.Queue.not_holds_empty e)⟩

/-! ## Packets -/

variable {s : Station}

theorem Vouched.credible_beacon (h : s.Vouched stood) : s.beacon.Credible stood := by
  refine ⟨h.sound.id_ne, fun hp => ?_⟩
  obtain hp | ⟨b, hb⟩ := hp
  · exact h.headed (of_decide_eq_true hp)
  · cases hb

theorem Vouched.credible_message (h : s.Vouched stood) (hc : s.node.role = .candidate → stood s.id) :
    s.message.Credible stood := by
  unfold message
  split
  · refine ⟨h.sound.id_ne, fun hp => ?_⟩
    obtain hp | ⟨b, hb⟩ := hp
    · exact h.headed (of_decide_eq_true hp)
    · cases hb
  · split
    · next hr => exact ⟨h.sound.id_ne, fun _ => hc hr.1⟩
    · exact h.credible_beacon

/-- A copy says of its sender what the packet says. -/
theorem credible_copy {p q : Packet} (h : p.Credible stood) (hc : s.copyOf p = .ok q) :
    q.Credible stood := by
  obtain ⟨-, -, -, -, hq⟩ := copyOf_eq_ok hc
  have hsender : q.sender = p.sender := by rw [hq]
  have hflag : q.fromHead = p.fromHead := by rw [hq]
  have hcontent : q.content = s.countHop p := by rw [hq]
  have hclaims (hn : q.Claims) : p.Claims := by
    obtain hf | ⟨b, hb⟩ := hn
    · exact .inl (hflag ▸ hf)
    · obtain ⟨ballot, known, hp, -⟩ := countHop_eq (hcontent.symm.trans hb)
      exact .inr ⟨ballot, hp⟩
  exact ⟨hsender ▸ h.named, fun hn => hsender ▸ h.claim (hclaims hn)⟩

/-! ## Operations -/

/-- After a packet that a station handles it follows whom it followed, nobody, or the sender. -/
theorem head_receive {op : Op} {p : Packet} (hh : s.handled? op = some p) :
    (s.step op).node.head = s.node.head ∨ (s.step op).node.head = nobody ∨
      (s.step op).node.head = p.sender ∧ p.Claims := by
  obtain ⟨hp, hhandles⟩ := packet?_of_handled? hh
  obtain ⟨rssi, now, hs⟩ := step_of_packet? s hp
  have ha := allegiance_receive s p rssi now
  rw [if_pos hhandles, ← hs] at ha
  have hhead : (s.step op).node.head = (s.allegiance.heed p).office.head :=
    congrArg (fun a : Allegiance => a.office.head) ha
  rw [hhead]
  exact s.allegiance.head_heed p

/-- Only the decision of a candidate makes a station head. -/
theorem Turns.headed {op : Op} {o : Office} (h : s.Turns op o)
    (hr : o.role = .head) : s.node.role = .head ∨ s.node.role = .candidate := by
  cases h with
  | kept => exact .inl hr
  | spoke h0 =>
    obtain ⟨campaign, -, he⟩ := s.office.spoken_eq
    rw [he] at hr
    exact .inl hr
  | decided h3 hd =>
    cases hd with
    | promote hc => exact .inr hc
    | wait | reign | stay => exact .inl hr
    | wake | stand | recede | join => cases hr
  | heeded hh ho =>
    cases ho with
    | nothing | follow => exact .inl hr
    | concede => cases hr
    | release =>
      refine .inl ?_
      generalize hs : s.node.role = role
      have hr : s.node.role.released = .head := hr
      rw [hs] at hr
      cases role <;> first | rfl | cases hr
  | reset => cases hr

/-- A station that follows a new head heard of it, or is that head itself. -/
theorem Turns.follows {op : Op} {o : Office} (h : s.Turns op o) :
    o.head = s.node.head ∨ o.head = nobody ∨ (s.node.role = .candidate ∧ o.head = s.id) ∨
      ∃ p, s.handled? op = some p := by
  cases h with
  | kept => exact .inl rfl
  | spoke h0 =>
    obtain ⟨campaign, -, he⟩ := s.office.spoken_eq
    rw [he]
    exact .inl rfl
  | decided h3 hd =>
    cases hd with
    | promote hc => exact .inr (.inr (.inl ⟨hc, rfl⟩))
    | wake | wait | reign | stand | recede | join | stay => exact .inl rfl
  | heeded hh ho => exact .inr (.inr (.inr ⟨_, hh⟩))
  | reset => exact .inr (.inl rfl)

/-- A station of which it is known if it stands goes on as one that hears the truth. -/
theorem Vouched.step (h : s.Vouched stood) (hc : s.node.role = .candidate → stood s.id) {op : Op}
    (hop : ∀ p, op.packet? = some p → p.Credible stood) : (s.step op).Vouched stood := by
  have hi := h.sound.inStep
  have hid := id_step hi op
  have hturns := turns_step hi op
  obtain ⟨hsent, hwaiting⟩ := (carries_step hi op).keeps h.sent h.waiting h.credible_beacon
    (h.credible_message hc) (fun p q => credible_copy) fun p hp _ => hop p hp
  refine ⟨h.sound.step fun p hp => (hop p hp).named, fun hr => ?_, fun hn => ?_, hsent, hwaiting⟩
  · rw [hid]
    exact (hturns.headed hr).elim h.headed hc
  · obtain he | he | ⟨hr, he⟩ | ⟨p, hp⟩ := hturns.follows
    · have he : (s.step op).node.head = s.node.head := he
      rw [he] at hn ⊢
      exact h.follows hn
    · exact absurd he hn
    · have he : (s.step op).node.head = s.id := he
      rw [he]
      exact hc hr
    · obtain he | he | ⟨he, hclaims⟩ := head_receive hp
      · rw [he] at hn ⊢
        exact h.follows hn
      · exact absurd he hn
      · rw [he]
        exact (hop p (packet?_of_handled? hp).1).claim hclaims

end Station
end ClusterMesh
