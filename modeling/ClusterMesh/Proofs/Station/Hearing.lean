import ClusterMesh.Proofs.Station.Frame

/-! What a station makes of a packet that it hears. Only packets of others that a station
attends to touch its office, in one of three ways; none touches its clockwork, and none
makes it send. -/
namespace ClusterMesh

def Role.released : Role → Role
  | starting => discovering
  | member => edge
  | r => r

theorem Role.released_eq_candidate {r : Role} : r.released = .candidate ↔ r = .candidate := by
  cases r <;> simp [Role.released]

namespace Office

def YieldsTo (o : Office) (rival : NodeId) (direct : UInt32) : Prop :=
  o.campaign.direct < direct ∨ direct = o.campaign.direct ∧ rival < o.id

def concede (o : Office) (rival : NodeId) : Office :=
  { o.turn .edge with
    head := rival
    campaign := { o.campaign with rounds := 0, renouncements := Station.electionRounds } }

def release (o : Office) : Office := { o with head := nobody }.turn o.role.released

inductive Heeds (o : Office) (p : Packet) : Office → Prop
  | nothing
      (hc : ∀ b, p.content = .candidacy b → o.role = .candidate → ¬ o.YieldsTo p.sender b.direct)
      (hr : ∀ b, p.content = .renouncement b → o.head ≠ p.sender) : Heeds o p o
  | follow (hc : o.role ≠ .candidate) (hh : o.role ≠ .head)
      (hp : ∀ b, p.content ≠ .renouncement b) : Heeds o p { o with head := p.sender }
  | concede (b : Ballot) (hc : o.role = .candidate) (hp : p.content = .candidacy b)
      (hy : o.YieldsTo p.sender b.direct) : Heeds o p (o.concede p.sender)
  | release (b : Ballot) (hp : p.content = .renouncement b) (hh : o.head = p.sender) :
      Heeds o p o.release

end Office

theorem Office.Heeds.id_eq {o o' : Office} {p : Packet} (h : o.Heeds p o') : o'.id = o.id := by
  cases h <;> rfl

namespace Station

/-! ## Choosing a head -/

@[simp] theorem consider_keeps (s : Station) (head : NodeId) (hops : UInt8) (direct : UInt32)
    (clusterClass : UInt16) :
    (s.consider head hops direct clusterClass).clockwork = s.clockwork ∧
      (s.consider head hops direct clusterClass).traffic = s.traffic := by
  unfold consider
  split
  · exact ⟨rfl, rfl⟩
  · split
    · exact ⟨rfl, rfl⟩
    · split
      · simp only [note_keeps, trace_keeps]
        exact ⟨rfl, rfl⟩
      · exact ⟨rfl, rfl⟩

theorem office_consider (s : Station) (head : NodeId) (hops : UInt8) (direct : UInt32)
    (clusterClass : UInt16) :
    (s.consider head hops direct clusterClass).office = s.office ∨
      s.node.role ≠ .candidate ∧ s.node.role ≠ .head ∧
        (s.consider head hops direct clusterClass).office = { s.office with head } := by
  unfold consider
  split
  · exact .inl rfl
  · next hr =>
    split
    · exact .inl rfl
    · split
      · refine .inr ⟨fun h => hr (.inl h), fun h => hr (.inr h), ?_⟩
        rw [office_note _ _ rfl]
        rfl
      · exact .inl rfl

theorem office_heedRenouncement (s : Station) (head : NodeId) :
    (s.heedRenouncement head).office =
      if s.node.head = head then s.office.release else s.office := by
  unfold heedRenouncement
  by_cases hh : s.node.head = head
  · rw [if_neg (not_not_intro hh), if_pos hh]
    dsimp only
    -- the station that has left its head, which then looks for another one
    generalize ht : Station.note _ (.headRenounced head) = t
    have hto : t.office = { s.office with head := nobody } := by
      rw [← ht, office_note _ _ rfl]
      rfl
    have hrole : t.office.role = s.node.role := by rw [hto]; rfl
    change _ = Office.turn { s.office with head := nobody } s.node.role.released
    rw [← hto, ← hrole]
    cases hr : t.node.role with
    | candidate =>
      rw [if_pos rfl]
      exact (Office.turn_self (by rw [show t.office.role = _ from hr]; rfl)).symm
    | starting | discovering =>
      have hb : t.node.role.mayBecome .discovering = true := by rw [hr]; rfl
      rw [if_neg nofun, become_eq t .discovering, hb]
      exact (office_become hb).trans (by rw [show t.office.role = _ from hr]; rfl)
    | edge | head =>
      have hb : t.node.role.mayBecome .discovering = false := by rw [hr]; rfl
      rw [if_neg nofun, become_eq t .discovering, hb]
      exact (office_become_of_not hb).trans
        (Office.turn_self (by rw [show t.office.role = _ from hr]; rfl)).symm
    | member =>
      have hb : t.node.role.mayBecome .discovering = false := by rw [hr]; rfl
      have he : t.node.role.mayBecome .edge = true := by rw [hr]; rfl
      have hm : (!false && decide (Role.member = .member)) = true := rfl
      rw [if_neg nofun, become_of_not hb]
      dsimp only
      rw [if_pos hm, office_become (by rw [(note_keeps _ _).2.2.1]; exact he), office_note _ _ rfl,
        show t.office.role = _ from hr]
      rfl
  · rw [if_pos hh, if_neg hh]

@[simp] theorem heedRenouncement_keeps (s : Station) (head : NodeId) :
    (s.heedRenouncement head).clockwork = s.clockwork ∧
      (s.heedRenouncement head).traffic = s.traffic := by
  unfold heedRenouncement
  split
  · exact ⟨rfl, rfl⟩
  · dsimp only
    split
    · simp only [note_keeps]
      exact ⟨rfl, rfl⟩
    · rw [become_eq]
      dsimp only
      split <;> simp only [note_keeps, become_keeps] <;> exact ⟨rfl, rfl⟩

/-! ## Candidates -/

theorem isBeatenBy_iff (s : Station) (rival : NodeId) (direct : UInt32) :
    s.isBeatenBy rival direct = true ↔ s.office.YieldsTo rival direct := by
  unfold isBeatenBy Office.YieldsTo
  rw [Bool.or_eq_true, Bool.and_eq_true, decide_eq_true_iff, decide_eq_true_iff,
    decide_eq_true_iff]
  rfl

@[simp] theorem meetRival_keeps (s : Station) (rival : NodeId) (hops : UInt8) (ballot : Ballot) :
    (s.meetRival rival hops ballot).clockwork = s.clockwork ∧
      (s.meetRival rival hops ballot).traffic = s.traffic := by
  unfold meetRival
  split
  · exact ⟨rfl, rfl⟩
  · rw [become_eq]
    cases s.node.role.mayBecome .edge with
    | false => simp
    | true =>
      simp only [note_keeps, trace_keeps]
      exact ⟨(become_keeps s .edge).2.1, (become_keeps s .edge).2.2.1⟩

/-- A candidate that meets a rival concedes exactly when it yields to the announcement. -/
theorem office_meetRival {s : Station} (hr : s.node.role = .candidate) (rival : NodeId)
    (hops : UInt8) (ballot : Ballot) :
    (s.office.YieldsTo rival ballot.direct ∧
        (s.meetRival rival hops ballot).office = s.office.concede rival) ∨
      ¬ s.office.YieldsTo rival ballot.direct ∧
        (s.meetRival rival hops ballot).office = s.office := by
  unfold meetRival
  rw [← isBeatenBy_iff]
  by_cases hy : s.isBeatenBy rival ballot.direct = true
  · refine .inl ⟨hy, ?_⟩
    have hb : s.node.role.mayBecome .edge = true := by rw [hr]; rfl
    have ho := office_become hb
    have hc := (become_keeps s .edge).2.2.2.1
    rw [if_neg (by simp [hy]), become_eq, hb]
    dsimp only
    rw [office_note _ _ rfl, (trace_keeps _ _).1]
    unfold Office.concede
    rw [← ho]
    simp only [office, hc]
    rfl
  · exact .inr ⟨hy, by rw [if_pos (by simpa using hy)]⟩

/-! ## Reception -/

/-- What is said about heads and candidates is at most marked, and then acted upon by one of three
functions. So whatever these leave alone stays. -/
theorem heed_holds {P : Station → Prop} {s : Station} {p : Packet} (h : P s)
    (hmark : P { s with node := s.node.markHead p.sender 0 })
    (hheard : P { s with node := s.node.noteCandidate })
    (hconsider : ∀ t head hops direct clusterClass, P t →
      P (t.consider head hops direct clusterClass))
    (hrenounce : P (s.heedRenouncement p.sender))
    (hmeet : ∀ t rival hops ballot, P t → P (t.meetRival rival hops ballot)) : P (s.heed p) := by
  unfold heed
  split
  · exact h
  · split
    · split
      · exact hconsider _ _ _ _ _ hmark
      · exact h
    · exact hrenounce
    · dsimp only
      split
      · exact hmeet _ _ _ _ hheard
      · exact hheard
      · exact hconsider _ _ _ _ _ hheard

@[simp] theorem heed_keeps (s : Station) (p : Packet) :
    (s.heed p).clockwork = s.clockwork ∧ (s.heed p).traffic = s.traffic := by
  refine heed_holds (P := fun t => t.clockwork = s.clockwork ∧ t.traffic = s.traffic) ⟨rfl, rfl⟩
    ⟨rfl, rfl⟩ ⟨rfl, rfl⟩ ?_ (heedRenouncement_keeps ..) ?_
  · intro t head hops direct clusterClass ht
    simpa only [consider_keeps] using ht
  · intro t rival hops ballot ht
    simpa only [meetRival_keeps] using ht

theorem heeds_heed {s : Station} {p : Packet} (hs : p.sender ≠ s.id) :
    s.office.Heeds p (s.heed p).office := by
  unfold heed
  rw [if_neg hs]
  cases hp : p.content with
  | beacon =>
    have hn : s.office.Heeds p s.office := .nothing (by simp [hp]) (by simp [hp])
    by_cases hf : p.fromHead = true
    · rw [if_pos hf]
      obtain ho | ⟨hc, hh, ho⟩ := office_consider
        { s with node := s.node.markHead p.sender 0 } p.sender p.distance 0 0
      · rw [ho]
        exact hn
      · rw [ho]
        exact .follow hc hh (by simp [hp])
    · rw [if_neg hf]
      exact hn
  | renouncement b =>
    rw [office_heedRenouncement]
    by_cases hh : s.node.head = p.sender
    · rw [if_pos hh]
      exact .release b hp hh
    · rw [if_neg hh]
      exact .nothing (by simp [hp]) (fun _ _ => hh)
  | candidacy b =>
    have hnr : ∀ b', p.content = .renouncement b' → s.office.head ≠ p.sender := by simp [hp]
    dsimp only
    split
    · next hr =>
      obtain ⟨hy, ho⟩ | ⟨hy, ho⟩ := office_meetRival
        (s := { s with node := s.node.noteCandidate }) hr p.sender p.distance b
      · rw [ho]
        exact .concede b hr hp hy
      · rw [ho]
        refine .nothing (fun b' hb' _ => ?_) hnr
        rw [hp] at hb'
        cases hb'
        exact hy
    · next hr => exact .nothing (fun _ _ hc => nomatch hr.symm.trans hc) hnr
    · next hc hh =>
      obtain ho | ⟨_, _, ho⟩ := office_consider { s with node := s.node.noteCandidate }
        p.sender p.distance b.direct b.clusterClass
      · rw [ho]
        exact .nothing (fun _ _ h => absurd h hc) hnr
      · rw [ho]
        exact .follow hc hh (by simp [hp])

theorem eq_of_hear? {n m : Node} {id : NodeId} {rssi : Int8} {hops : UInt8}
    (h : n.hear? id rssi hops = some m) : m = { n with roster := m.roster } := by
  obtain ⟨roster, _, rfl⟩ := Option.map_eq_some_iff.1 h
  rfl

@[simp] theorem hearTransmitter_keeps (s : Station) (p : Packet) (rssi : Int8) :
    (s.hearTransmitter p rssi).office = s.office ∧
      (s.hearTransmitter p rssi).clockwork = s.clockwork ∧
      (s.hearTransmitter p rssi).traffic = s.traffic := by
  unfold hearTransmitter
  dsimp only
  cases hn : s.node.hear? p.transmitter rssi 1 with
  | none =>
    have ho := office_note s (.rosterFull p.transmitter) rfl
    have hk := note_keeps s (.rosterFull p.transmitter)
    cases p.position with
    | none => exact ⟨ho, hk.1, hk.2.1⟩
    | some position => exact ⟨ho, hk.1, hk.2.1⟩
  | some m =>
    rw [eq_of_hear? hn]
    cases p.position <;> exact ⟨rfl, rfl, rfl⟩

@[simp] theorem hearSender_keeps (s : Station) (p : Packet) (rssi : Int8) :
    (s.hearSender p rssi).office = s.office ∧ (s.hearSender p rssi).clockwork = s.clockwork ∧
      (s.hearSender p rssi).traffic = s.traffic := by
  unfold hearSender
  split
  · exact ⟨rfl, rfl, rfl⟩
  · split
    · next hn =>
      rw [eq_of_hear? hn]
      exact ⟨rfl, rfl, rfl⟩
    · exact ⟨rfl, rfl, rfl⟩

/-- A station learns from a packet, then heeds it. -/
theorem observe_eq {s : Station} {p : Packet} (rssi : Int8) (h : p.transmitter ≠ s.id) :
    ∃ t : Station, t.office = s.office ∧ t.clockwork = s.clockwork ∧ t.traffic = s.traffic ∧
      s.observe p rssi = t.heed p := by
  have hs := hearSender_keeps (s.hearTransmitter p rssi) p rssi
  have ht := hearTransmitter_keeps s p rssi
  refine ⟨{ (s.hearTransmitter p rssi).hearSender p rssi with
    survey := ((s.hearTransmitter p rssi).hearSender p rssi).survey.note p.transmitter p.position
      rssi ((s.hearTransmitter p rssi).hearSender p rssi).now },
    hs.1.trans ht.1, hs.2.1.trans ht.2.1, hs.2.2.trans ht.2.2, ?_⟩
  rw [observe, if_neg h]

@[simp] theorem observe_keeps (s : Station) (p : Packet) (rssi : Int8) :
    (s.observe p rssi).clockwork = s.clockwork ∧ (s.observe p rssi).traffic = s.traffic := by
  by_cases h : p.transmitter = s.id
  · rw [observe, if_pos h]
    exact ⟨rfl, rfl⟩
  · obtain ⟨t, -, hc, ht, ho⟩ := observe_eq rssi h
    rw [ho, ← hc, ← ht]
    exact heed_keeps t p

/-- A station that is not disabled and either in its discovery phase or listening in its
neighbor phase learns from the packets that it hears. -/
def attends (s : Station) : Bool :=
  s.enabled &&
    match s.phase with
    | .noisy => false
    | .neighbor => !s.neighborly.broadcasting
    | .discovery => true

/-- Whether a station acts on a packet. What it sent or passed on itself says nothing new. -/
def handles (s : Station) (p : Packet) : Bool :=
  s.attends && p.transmitter != s.id && p.sender != s.id

theorem office_take (s : Station) (p : Packet) : (s.take p).2.office = s.office := by
  unfold take
  split
  · rfl
  · dsimp only
    rw [office_note _ _ rfl]
    rfl

@[simp] theorem take_keeps (s : Station) (p : Packet) :
    (s.take p).2.clockwork = s.clockwork ∧
      (s.take p).2.traffic =
        { s.traffic with queue := (s.queue.enqueue p s.id s.now).2 } := by
  unfold take
  split
  · next h => exact ⟨rfl, by rw [h]; rfl⟩
  · next h =>
    simp only [note_keeps, trace_keeps]
    exact ⟨rfl, by rw [h]; rfl⟩

theorem office_observe_of_not {s : Station} {p : Packet} {rssi : Int8}
    (h : p.transmitter = s.id ∨ p.sender = s.id) : (s.observe p rssi).office = s.office := by
  by_cases ht : p.transmitter = s.id
  · rw [observe, if_pos ht]
  · obtain ⟨t, ho, -, -, he⟩ := observe_eq rssi ht
    have hid : t.id = s.id := congrArg Office.id ho
    rw [he, heed, if_pos (hid ▸ h.resolve_left ht), ho]

theorem heeds_observe {s : Station} {p : Packet} {rssi : Int8} (ht : p.transmitter ≠ s.id)
    (hs : p.sender ≠ s.id) : s.office.Heeds p (s.observe p rssi).office := by
  obtain ⟨t, ho, -, -, he⟩ := observe_eq rssi ht
  have hid : t.id = s.id := congrArg Office.id ho
  rw [he, ← ho]
  exact heeds_heed (hid ▸ hs)

theorem id_observe (s : Station) (p : Packet) (rssi : Int8) : (s.observe p rssi).id = s.id := by
  by_cases h : p.transmitter = s.id ∨ p.sender = s.id
  · exact congrArg Office.id (office_observe_of_not h)
  · exact (heeds_observe (not_or.1 h).1 (not_or.1 h).2).id_eq

inductive Receives (s : Station) (p : Packet) (rssi : Int8) (now : Instant) :
    Reception × Station → Prop
  | off (he : s.enabled = false) (ha : s.attends = false) : Receives s p rssi now (.ignored, s)
  | busy (he : s.enabled = true) (ha : s.attends = false) :
      Receives s p rssi now (.ignored, { s with now })
  | sampled (ha : s.attends = false) :
      Receives s p rssi now (.sampled, { s with now, survey := s.survey.sample rssi })
  | observed (ha : s.attends = true) :
      Receives s p rssi now (.observed, { s with now }.observe p rssi)
  | taken (ha : s.attends = true) :
      Receives s p rssi now (({ s with now }.observe p rssi).take p)

theorem receives (s : Station) (p : Packet) (rssi : Int8) (now : Instant) :
    s.Receives p rssi now (s.receive p rssi now) := by
  unfold receive
  by_cases he : s.enabled = true
  · rw [if_neg (by simp [he])]
    dsimp only
    split
    · next hp =>
      have ha : s.attends = false := by simp [attends, hp]
      split
      · exact .busy he ha
      · exact .sampled ha
    · next hp =>
      split
      · next hb => exact .busy he (by simp [attends, hp, hb])
      · next hb => exact .observed (by simp [attends, he, hp, hb])
    · next hp => exact .taken (by simp [attends, he, hp])
  · rw [if_pos (by simp [he])]
    exact .off (Bool.eq_false_iff.2 he) (by simp [attends, he])

theorem office_receive_of_not {s : Station} {p : Packet} (rssi : Int8) (now : Instant)
    (h : s.handles p = false) : (s.receive p rssi now).2.office = s.office := by
  have hobserve (ha : s.attends = true) : ({ s with now }.observe p rssi).office = s.office := by
    rw [handles, ha, Bool.true_and, Bool.and_eq_false_iff, bne_eq_false_iff_eq,
      bne_eq_false_iff_eq] at h
    exact office_observe_of_not (s := { s with now }) h
  have hr := s.receives p rssi now
  generalize s.receive p rssi now = r at hr
  cases hr with
  | off | busy | sampled => rfl
  | observed ha => exact hobserve ha
  | taken ha => exact (office_take ..).trans (hobserve ha)

theorem heeds_receive {s : Station} {p : Packet} (rssi : Int8) (now : Instant)
    (h : s.handles p = true) : s.office.Heeds p (s.receive p rssi now).2.office := by
  simp only [handles, Bool.and_eq_true, bne_iff_ne] at h
  obtain ⟨⟨hattends, ht⟩, hs⟩ := h
  have hobserve : s.office.Heeds p ({ s with now }.observe p rssi).office :=
    heeds_observe (s := { s with now }) ht hs
  have hr := s.receives p rssi now
  generalize s.receive p rssi now = r at hr
  cases hr with
  | off _ ha | busy _ ha | sampled ha => exact absurd hattends (Bool.eq_false_iff.1 ha)
  | observed => exact hobserve
  | taken => exact (office_take ..).symm ▸ hobserve

@[simp] theorem clockwork_receive (s : Station) (p : Packet) (rssi : Int8) (now : Instant) :
    (s.receive p rssi now).2.clockwork = s.clockwork := by
  have hobserve := (observe_keeps { s with now } p rssi).1
  have hr := s.receives p rssi now
  generalize s.receive p rssi now = r at hr
  cases hr with
  | off | busy | sampled => rfl
  | observed => exact hobserve
  | taken => exact (take_keeps _ p).1.trans hobserve

/-- All that a reception can do to the traffic is to offer the packet to the queue. -/
theorem traffic_receive (s : Station) (p : Packet) (rssi : Int8) (now : Instant) :
    (s.receive p rssi now).2.traffic = s.traffic ∨
      ∃ time, (s.receive p rssi now).2.traffic =
        { s.traffic with queue := (s.queue.enqueue p s.id time).2 } := by
  have hobserve := (observe_keeps { s with now } p rssi).2
  have hid := id_observe { s with now } p rssi
  have hr := s.receives p rssi now
  generalize s.receive p rssi now = r at hr
  cases hr with
  | off | busy | sampled => exact .inl rfl
  | observed => exact .inl hobserve
  | taken =>
    have hq : ({ s with now }.observe p rssi).queue = s.queue := congrArg Traffic.queue hobserve
    rw [(take_keeps _ p).2, hobserve, hid, hq]
    exact .inr ⟨_, rfl⟩

end Station
end ClusterMesh
