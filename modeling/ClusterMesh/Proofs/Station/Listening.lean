import ClusterMesh.Proofs.Relay.Waiting
import ClusterMesh.Proofs.Station.Hearing

/-! What a station writes down when it hears a packet. Whoever learns from a packet keeps an
impression of it and nothing else: no reception sends, moves a slot or takes a draw, and which
counts go up can be told from the answer. -/
namespace ClusterMesh

/-- What a packet can change in a station that learns from it: what it knows of the nodes that it
heard, its part in the cluster, and the lines and traces that say so. -/
structure Impression where
  roster : Roster
  heard : Table NodeId Heard
  role : Role
  previousRole : Role
  roleSince : UInt32
  head : NodeId
  clusterClass : UInt16
  candidateHeard : UInt32
  campaign : Campaign
  choice : Choice
  traces : Bounded Trace traceCapacity
  notices : Array Notice

namespace Station

def impression (s : Station) : Impression where
  roster := s.node.roster
  heard := s.survey.heard
  role := s.node.role
  previousRole := s.node.previousRole
  roleSince := s.node.roleSince
  head := s.node.head
  clusterClass := s.node.clusterClass
  candidateHeard := s.node.candidateHeard
  campaign := s.campaign
  choice := s.choice
  traces := s.outbox.traces
  notices := s.outbox.notices

def impress (s : Station) (i : Impression) : Station :=
  { s with
    node := { s.node with
      roster := i.roster
      role := i.role
      previousRole := i.previousRole
      roleSince := i.roleSince
      head := i.head
      clusterClass := i.clusterClass
      candidateHeard := i.candidateHeard }
    survey := { s.survey with heard := i.heard }
    campaign := i.campaign
    choice := i.choice
    outbox := { s.outbox with traces := i.traces, notices := i.notices } }

def Impressed (s t : Station) : Prop := ∃ i, t = s.impress i

theorem impressed_refl (s : Station) : s.Impressed s := ⟨s.impression, rfl⟩

theorem Impressed.trans {s t u : Station} (h : s.Impressed t) (k : t.Impressed u) :
    s.Impressed u := by
  obtain ⟨i, rfl⟩ := h
  obtain ⟨j, rfl⟩ := k
  exact ⟨j, rfl⟩

/-! ## Output and changes of role -/

theorem impressed_trace (s : Station) (t : Trace) : s.Impressed (s.trace t) :=
  ⟨(s.trace t).impression, rfl⟩

theorem impressed_note (s : Station) (n : Notice) : s.Impressed (s.note n) := by
  unfold note
  split
  · exact ⟨{ s.impression with notices := s.outbox.notices.push n }, rfl⟩
  · exact impressed_refl s

theorem impressed_report (s : Station) (t : Trace) (n : Notice) :
    s.Impressed ((s.trace t).note n) :=
  (impressed_trace s t).trans (impressed_note _ n)

theorem impressed_become (s : Station) (next : Role) : s.Impressed (s.become next).2 := by
  cases h : s.node.role.mayBecome next with
  | false =>
    rw [become_of_not h]
    exact impressed_note s _
  | true =>
    have hrole : s.Impressed (s.inRole next) := ⟨(s.inRole next).impression, rfl⟩
    rw [become_of_mayBecome h]
    dsimp only
    split
    · exact hrole
    · exact hrole.trans (impressed_report _ _ _)

/-! ## Heads and candidates -/

theorem impressed_consider (s : Station) (head : NodeId) (hops : UInt8) (direct : UInt32)
    (clusterClass : UInt16) : s.Impressed (s.consider head hops direct clusterClass) := by
  unfold consider
  split
  · exact impressed_refl s
  · split
    · exact ⟨{ s.impression with choice := _ }, rfl⟩
    · split
      · exact .trans ⟨{ s.impression with head, clusterClass, choice := ⟨hops, direct⟩ }, rfl⟩
          (impressed_report _ _ _)
      · exact impressed_refl s

theorem impressed_heedRenouncement (s : Station) (head : NodeId) :
    s.Impressed (s.heedRenouncement head) := by
  unfold heedRenouncement
  split
  · exact impressed_refl s
  · have hleft : s.Impressed { s with node := s.node.leave, choice := {} } :=
      ⟨{ s.impression with head := nobody, clusterClass := 0, choice := {} }, rfl⟩
    have hnoted := hleft.trans (impressed_note _ (.headRenounced head))
    dsimp only
    split
    · exact hnoted
    · rw [become_eq]
      have hsearching := hnoted.trans (impressed_become _ .discovering)
      dsimp only
      split
      · exact hsearching.trans (impressed_become _ .edge)
      · exact hsearching

theorem impressed_meetRival (s : Station) (rival : NodeId) (hops : UInt8) (ballot : Ballot) :
    s.Impressed (s.meetRival rival hops ballot) := by
  unfold meetRival
  split
  · exact impressed_refl s
  · have hedge := impressed_become s .edge
    rw [become_eq]
    generalize (s.become .edge).2 = t at hedge
    cases s.node.role.mayBecome .edge with
    | false => exact hedge
    | true =>
      have hlost : t.Impressed { t with
          campaign := { t.campaign with rounds := 0, renouncements := electionRounds }
          node := t.node.follow rival ballot.clusterClass
          choice := ⟨hops, ballot.direct⟩ } :=
        ⟨{ t.impression with
            campaign := { t.campaign with rounds := 0, renouncements := electionRounds }
            head := rival
            clusterClass := ballot.clusterClass
            choice := ⟨hops, ballot.direct⟩ }, rfl⟩
      exact (hedge.trans hlost).trans (impressed_report _ _ _)

theorem impressed_heed (s : Station) (p : Packet) : s.Impressed (s.heed p) := by
  have hmarked : s.Impressed { s with node := s.node.markHead p.sender 0 } :=
    ⟨{ s.impression with roster := (s.node.markHead p.sender 0).roster }, rfl⟩
  have hheard : s.Impressed { s with node := s.node.noteCandidate } :=
    ⟨{ s.impression with candidateHeard := s.node.cycle }, rfl⟩
  exact heed_holds (impressed_refl s) hmarked hheard
    (fun _ _ _ _ _ ht => ht.trans (impressed_consider ..)) (impressed_heedRenouncement ..)
    fun _ _ _ _ ht => ht.trans (impressed_meetRival ..)

/-! ## Observations -/

theorem impressed_hearTransmitter (s : Station) (p : Packet) (rssi : Int8) :
    s.Impressed (s.hearTransmitter p rssi) := by
  have hlocated (t : Station) (position : Position) :
      t.Impressed { t with node := t.node.locateNeighbor p.transmitter position } :=
    ⟨{ t.impression with roster := (t.node.locateNeighbor p.transmitter position).roster }, rfl⟩
  unfold hearTransmitter
  cases hm : s.node.hear? p.transmitter rssi 1 with
  | none =>
    have hnoted : s.Impressed (s.note (.rosterFull p.transmitter)) := impressed_note s _
    cases p.position with
    | none => exact hnoted
    | some position => exact hnoted.trans (hlocated _ position)
  | some m =>
    have hentered : s.Impressed { s with node := m } := by
      rw [eq_of_hear? hm]
      exact ⟨{ s.impression with roster := m.roster }, rfl⟩
    cases p.position with
    | none => exact hentered
    | some position => exact hentered.trans (hlocated _ position)

theorem impressed_hearSender (s : Station) (p : Packet) (rssi : Int8) :
    s.Impressed (s.hearSender p rssi) := by
  unfold hearSender
  split
  · exact impressed_refl s
  · split
    · next m hm =>
      rw [eq_of_hear? hm]
      exact ⟨{ s.impression with roster := m.roster }, rfl⟩
    · exact impressed_refl s

theorem impressed_survey (s : Station) (id : NodeId) (position : Option Position) (rssi : Int8)
    (now : Instant) : s.Impressed { s with survey := s.survey.note id position rssi now } := by
  unfold Survey.note
  dsimp only
  split
  · exact ⟨{ s.impression with heard := _ }, rfl⟩
  · split
    · exact impressed_refl s
    · exact ⟨{ s.impression with heard := _ }, rfl⟩

theorem impressed_observe (s : Station) (p : Packet) (rssi : Int8) :
    s.Impressed (s.observe p rssi) := by
  unfold observe
  split
  · exact impressed_refl s
  · have hknown := (impressed_hearTransmitter s p rssi).trans (impressed_hearSender _ p rssi)
    exact (hknown.trans (impressed_survey _ _ _ _ _)).trans (impressed_heed _ p)

/-! ## Receptions -/

/-- What a station answers to a packet, and all that changes in it. -/
inductive Listens (s : Station) (p : Packet) (now : Instant) : Reception → Station → Prop
  | off (h : s.enabled = false) : Listens s p now .ignored s
  | busy (h : s.enabled = true) : Listens s p now .ignored { s with now }
  | sampled (window : Ring Int8 100) :
      Listens s p now .sampled { s with now, survey := { s.survey with window } }
  | observed (i : Impression) : Listens s p now .observed ({ s with now }.impress i)
  | refused (why : Refusal) (i : Impression) :
      Listens s p now (.rejected why) ({ s with now, queue := s.queue.refuse why }.impress i)
  | taken (slot : Fin Relay.capacity) (i : Impression) :
      Listens s p now .queued
        ({ s with
            now
            queue := s.queue.store slot p now
            node := s.node.noteReceived
            survey := s.survey.noteReceived }.impress i)

structure Undisturbed (s t : Station) : Prop where
  sent : t.outbox.packets = s.outbox.packets
  published : t.outbox.measures = s.outbox.measures
  phase : t.phase = s.phase
  phaseSlot : t.phaseSlot = s.phaseSlot
  cycle : t.cycle = s.cycle
  cycles : t.node.cycle = s.node.cycle
  crowding : t.crowding = s.crowding
  noise : t.node.noise = s.node.noise
  noisy : t.noisy = s.noisy
  neighborly : t.neighborly = s.neighborly
  dice : t.dice = s.dice

theorem Listens.undisturbed {s t : Station} {p : Packet} {now : Instant} {r : Reception}
    (h : s.Listens p now r t) : s.Undisturbed t := by
  cases h <;> exact ⟨rfl, rfl, rfl, rfl, rfl, rfl, rfl, rfl, rfl, rfl, rfl⟩

/-- What was learned from is offered to the queue under the same impression. -/
theorem listens_take {s t : Station} {p : Packet} {now : Instant}
    (h : { s with now }.Impressed t) : s.Listens p now (t.take p).1 (t.take p).2 := by
  obtain ⟨i, rfl⟩ := h
  generalize ht : { s with now }.impress i = t
  have hrefused (why : Refusal) : s.Listens p now (.rejected why)
      (({ t with queue := t.queue.refuse why }.trace (.refused p.sender why)).note
        (.refused p.sender why)) := by
    obtain ⟨j, hj⟩ := impressed_report { t with queue := t.queue.refuse why }
      (.refused p.sender why) (.refused p.sender why)
    rw [hj, ← ht]
    exact .refused why j
  have he := t.queue.enqueues p t.id t.now
  unfold take
  generalize t.queue.enqueue p t.id t.now = r at he
  cases he with
  | loop | duplicate | overflow => exact hrefused _
  | @stored slot =>
    obtain ⟨j, hj⟩ := impressed_trace { t with
      queue := t.queue.store slot p t.now
      node := t.node.noteReceived
      survey := t.survey.noteReceived } (.enqueued p.sender p.life p.content.kind)
    dsimp only
    rw [hj, ← ht]
    exact .taken slot j

theorem listens_receive (s : Station) (p : Packet) (rssi : Int8) (now : Instant) :
    s.Listens p now (s.receive p rssi now).1 (s.receive p rssi now).2 := by
  have hr := s.receives p rssi now
  generalize s.receive p rssi now = r at hr
  cases hr with
  | off he => exact .off he
  | busy he => exact .busy he
  | sampled =>
    have hsampled (v : Survey) : ∃ window, v.sample rssi = { v with window } := by
      unfold Survey.sample
      split <;> exact ⟨_, rfl⟩
    obtain ⟨window, hw⟩ := hsampled s.survey
    rw [hw]
    exact .sampled window
  | observed =>
    obtain ⟨i, hi⟩ := impressed_observe { s with now } p rssi
    rw [hi]
    exact .observed i
  | taken => exact listens_take (impressed_observe { s with now } p rssi)

/-- Hearing a packet changes a station in no other way than its answer tells, and disturbs
neither its slots and draws nor what it has sent. Bytes that are no frame change nothing at all,
and a frame is heard as its packet is. -/
theorem receptions_only_listen (s : Station) (p : Packet) (rssi : Int8) (now : Instant) :
    s.Listens p now (s.receive p rssi now).1 (s.receive p rssi now).2 ∧
      s.Undisturbed (s.receive p rssi now).2 ∧
      ∀ bytes, s.receiveBytes bytes rssi now =
        match Packet.ofBytes bytes with
        | .ok q => (.ok (s.receive q rssi now).1, (s.receive q rssi now).2)
        | .error e => (.error e, s) := by
  have hlistens := listens_receive s p rssi now
  refine ⟨hlistens, hlistens.undisturbed, fun bytes => ?_⟩
  unfold receiveBytes
  cases Packet.ofBytes bytes <;> rfl

end Station
end ClusterMesh
