import ClusterMesh.Proofs.Station.Frame

/-! What a station does in its slots: what each sends, what the queue loses, and what the end
of a cycle makes of its office. -/
namespace ClusterMesh

structure Clockwork.InStep (c : Clockwork) : Prop where
  work : c.cycle.work = #v[some .own, some .relay, some .relay, some .relay]
  completion : c.cycle.completion = some ()
  running : c.cycle.running = true ↔ c.phase = .discovery

namespace Office

def spoken (o : Office) : Office :=
  if 0 < o.campaign.renouncements then
    { o with campaign := { o.campaign with renouncements := o.campaign.renouncements - 1 } }
  else if o.role = .candidate ∧ 0 < o.campaign.rounds then
    { o with campaign := { o.campaign with
        rounds := o.campaign.rounds - 1, lastRound := o.cycle } }
  else o

/-- A message touches nothing but the rounds of the campaign. -/
theorem spoken_eq (o : Office) :
    ∃ campaign, campaign.direct = o.campaign.direct ∧ o.spoken = { o with campaign } := by
  unfold spoken
  split
  · exact ⟨{ o.campaign with renouncements := o.campaign.renouncements - 1 }, rfl, rfl⟩
  · split
    · exact ⟨{ o.campaign with rounds := o.campaign.rounds - 1, lastRound := o.cycle }, rfl, rfl⟩
    · exact ⟨o.campaign, rfl, rfl⟩

def stand (o : Office) (direct : UInt32) : Office :=
  { o.turn .candidate with
    campaign := { o.campaign with rounds := Station.electionRounds, renouncements := 0, direct } }

/-- What the decision at the end of a cycle may make of an office. -/
inductive Decides (o : Office) : Office → Prop
  | wake (hr : o.role = .starting) : Decides o (o.turn .discovering)
  | promote (hr : o.role = .candidate)
      (hd : o.campaign.rounds = 0 ∧ o.campaign.lastRound.succSat < o.cycle) :
      Decides o { o.turn .head with head := o.id }
  | wait (hr : o.role = .candidate)
      (hd : ¬ (o.campaign.rounds = 0 ∧ o.campaign.lastRound.succSat < o.cycle)) : Decides o o
  | reign (hr : o.role = .head) : Decides o o
  | stand (hr : o.role = .discovering ∨ o.role = .edge ∨ o.role = .member)
      (hh : o.head = nobody) (direct : UInt32) : Decides o (o.stand direct)
  | recede (hr : o.role = .discovering) : Decides o (o.turn .edge)
  | join (hr : o.role = .edge) (hh : o.head ≠ nobody) : Decides o (o.turn .member)
  | stay (hr : o.role = .discovering ∨ o.role = .edge ∨ o.role = .member) : Decides o o

end Office

namespace Station

/-! ## Own messages -/

def announcement (s : Station) : Packet :=
  { s.beacon with fromHead := true, content := .candidacy s.ownBallot }

def message (s : Station) : Packet :=
  if 0 < s.campaign.renouncements then { s.beacon with content := .renouncement {} }
  else if s.node.role = .candidate ∧ 0 < s.campaign.rounds then s.announcement
  else s.beacon

@[simp] theorem sendOwn_keeps (s : Station) (p : Packet) :
    (s.sendOwn p).office = s.office ∧ (s.sendOwn p).clockwork = s.clockwork ∧
      (s.sendOwn p).traffic = { s.traffic with sent := s.traffic.sent.push p } :=
  ⟨rfl, rfl, rfl⟩

@[simp] theorem renounce_keeps (s : Station) :
    s.renounce.clockwork = s.clockwork ∧
      s.renounce.traffic = { s.traffic with
        sent := s.traffic.sent.push { s.beacon with content := .renouncement {} } } := by
  unfold renounce
  simp only [sendOwn_keeps, trace_keeps]
  exact ⟨rfl, rfl⟩

@[simp] theorem announce_keeps (s : Station) :
    s.announce.clockwork = s.clockwork ∧
      s.announce.traffic = { s.traffic with sent := s.traffic.sent.push s.announcement } := by
  unfold announce
  simp only [sendOwn_keeps, trace_keeps]
  exact ⟨rfl, rfl⟩

theorem sendMessage_keeps (s : Station) :
    s.sendMessage.clockwork = s.clockwork ∧
      s.sendMessage.traffic = { s.traffic with sent := s.traffic.sent.push s.message } := by
  unfold sendMessage message
  split
  · exact renounce_keeps s
  · split
    · exact announce_keeps s
    · exact ⟨rfl, rfl⟩

theorem office_sendMessage (s : Station) : s.sendMessage.office = s.office.spoken := by
  unfold sendMessage Office.spoken
  by_cases hr : 0 < s.campaign.renouncements
  · rw [if_pos hr, if_pos (show 0 < s.office.campaign.renouncements from hr)]
    rfl
  · rw [if_neg hr, if_neg (show ¬ 0 < s.office.campaign.renouncements from hr)]
    by_cases hc : s.node.role = .candidate ∧ 0 < s.campaign.rounds
    · rw [if_pos hc, if_pos (show s.office.role = _ ∧ 0 < s.office.campaign.rounds from hc)]
      rfl
    · rw [if_neg hc, if_neg (show ¬ (s.office.role = _ ∧ 0 < s.office.campaign.rounds) from hc)]
      rfl

/-! ## Relaying -/

@[simp] theorem drop_keeps (s : Station) (sender : NodeId) (why : DropReason) :
    (s.drop sender why).office = s.office ∧ (s.drop sender why).clockwork = s.clockwork ∧
      (s.drop sender why).traffic = s.traffic := by
  unfold drop
  dsimp only
  rw [office_note _ _ rfl]
  simp only [note_keeps, trace_keeps]
  exact ⟨rfl, rfl, rfl⟩

@[simp] theorem relay_keeps (s : Station) (p : Packet) :
    (s.relay p).office = s.office ∧ (s.relay p).clockwork = s.clockwork ∧
      (s.relay p).traffic = { s.traffic with sent := s.traffic.sent.push p } :=
  ⟨rfl, rfl, rfl⟩

@[simp] theorem relayNext_keeps (s : Station) :
    s.relayNext.office = s.office ∧ s.relayNext.clockwork = s.clockwork := by
  unfold relayNext
  split
  · exact ⟨rfl, rfl⟩
  · dsimp only
    split
    · split
      · simp only [drop_keeps]
        exact ⟨rfl, rfl⟩
      · simp only [relay_keeps]
        exact ⟨rfl, rfl⟩
    · simp only [drop_keeps]
      exact ⟨rfl, rfl⟩

/-- A copy has one hop of life less and the station at the end of its path. An announcement
counts the hop and has not reached a full cluster. -/
theorem copyOf_eq_ok {s : Station} {p q : Packet} (h : s.copyOf p = .ok q) :
    p.life ≠ 0 ∧ p.path.toList.length < maxHops ∧ q.path.toList = p.path.toList ++ [s.id] ∧
      isSaturated q.content = false ∧
      q = { p with
        life := p.life - 1, path := q.path, position := s.node.here.or p.position
        content := s.countHop p } := by
  unfold copyOf Packet.spendLife? at h
  by_cases hl : p.life = 0
  · rw [if_pos hl] at h
    cases h
  · rw [if_neg hl] at h
    dsimp only at h
    split at h
    · cases h
    · next hs =>
      split at h
      · cases h
      · next r hr =>
        obtain ⟨path, hpath, hr⟩ := Option.map_eq_some_iff.1 hr
        have hp := Bounded.toList_of_push? hpath
        have hlen := path.length_le
        rw [hp, List.length_append, List.length_singleton] at hlen
        cases h
        cases hr
        exact ⟨hl, hlen, hp, by simpa using hs, rfl⟩

/-- What a relay slot makes of the traffic: it takes the most urgent entry from the queue, and
sends at most a copy of it. -/
inductive Relays (s : Station) : Traffic → Prop
  | idle : Relays s s.traffic
  | dropped {entry : Relay.Entry} {queue : Relay.Queue}
      (hq : s.queue.dequeue? = some (entry, queue)) : Relays s { s.traffic with queue }
  | copied {entry : Relay.Entry} {queue : Relay.Queue} {copy : Packet}
      (hq : s.queue.dequeue? = some (entry, queue)) (hc : s.copyOf entry.packet = .ok copy) :
      Relays s ⟨queue, s.traffic.sent.push copy⟩

/-- A part of the station that neither a copy nor a drop touches stays in a relay slot. -/
theorem relayNext_untouched {β : Type} {f : Station → β}
    (hdraw : ∀ t queue dice, f { t with queue, dice } = f t)
    (hdrop : ∀ t sender why, f (drop t sender why) = f t) (hrelay : ∀ t p, f (relay t p) = f t)
    (s : Station) : f s.relayNext = f s := by
  unfold relayNext
  split
  · rfl
  · dsimp only
    split
    · split
      · exact (hdrop ..).trans (hdraw ..)
      · exact (hrelay ..).trans (hdraw ..)
    · exact (hdrop ..).trans (hdraw ..)

theorem relays_relayNext (s : Station) : s.Relays s.relayNext.traffic := by
  unfold relayNext
  split
  · exact .idle
  · next entry queue hq =>
    dsimp only
    split
    · split
      · simp only [drop_keeps]
        exact .dropped hq
      · next copy hc =>
        simp only [relay_keeps]
        exact .copied hq hc
    · simp only [drop_keeps]
      exact .dropped hq

/-! ## The end of a cycle -/

@[simp] theorem stand_keeps (s : Station) :
    s.stand.clockwork = s.clockwork ∧ s.stand.traffic = s.traffic := by
  unfold stand
  rw [become_eq]
  cases s.node.role.mayBecome .candidate with
  | false => simp
  | true => exact ⟨(become_keeps s .candidate).2.1, (become_keeps s .candidate).2.2.1⟩

theorem office_stand {s : Station} (hb : s.node.role.mayBecome .candidate = true) :
    s.stand.office = s.office.stand (UInt32.ofNat s.node.countDirect) := by
  have ho := office_become hb
  have hc := (become_keeps s .candidate).2.2.2.1
  have hd : (s.become .candidate).2.node.countDirect = s.node.countDirect :=
    congrArg Roster.countDirect (become_keeps s .candidate).2.2.2.2.2
  unfold stand
  rw [become_eq, hb]
  dsimp only
  unfold Office.stand
  rw [← ho, ← hd]
  simp only [office, hc]

@[simp] theorem takeOffice_keeps (s : Station) :
    s.takeOffice.clockwork = s.clockwork ∧ s.takeOffice.traffic = s.traffic := by
  unfold takeOffice
  split
  · rw [become_eq]
    cases s.node.role.mayBecome .head with
    | false => simp
    | true => exact ⟨(become_keeps s .head).2.1, (become_keeps s .head).2.2.1⟩
  · exact ⟨rfl, rfl⟩

theorem decides_takeOffice {s : Station} (hr : s.node.role = .candidate) :
    s.office.Decides s.takeOffice.office := by
  unfold takeOffice
  by_cases hd : s.campaign.rounds = 0 ∧ s.campaign.lastRound.succSat < s.node.cycle
  · have hb : s.node.role.mayBecome .head = true := by rw [hr]; rfl
    have ho := office_become hb
    have hid : (s.become .head).2.id = s.id := congrArg Office.id ho
    rw [if_pos hd, become_eq, hb]
    dsimp only
    have hp := Office.Decides.promote (o := s.office) hr hd
    rw [← ho, show s.office.id = (s.become .head).2.id from hid.symm] at hp
    exact hp
  · rw [if_neg hd]
    exact .wait hr hd

@[simp] theorem decideRole_keeps (s : Station) :
    s.decideRole.clockwork = s.clockwork ∧ s.decideRole.traffic = s.traffic := by
  unfold decideRole
  split
  · exact ⟨(become_keeps s _).2.1, (become_keeps s _).2.2.1⟩
  · exact takeOffice_keeps s
  · exact ⟨rfl, rfl⟩
  · split
    · exact stand_keeps s
    · split
      · exact ⟨(become_keeps s _).2.1, (become_keeps s _).2.2.1⟩
      · split
        · exact ⟨(become_keeps s _).2.1, (become_keeps s _).2.2.1⟩
        · exact ⟨rfl, rfl⟩

theorem decides_decideRole (s : Station) : s.office.Decides s.decideRole.office := by
  unfold decideRole
  split
  · next hr =>
    rw [office_become (by rw [hr]; rfl)]
    exact .wake hr
  · next hr => exact decides_takeOffice hr
  · next hr => exact .reign hr
  · next hs hc hh =>
    have hr : s.node.role = .discovering ∨ s.node.role = .edge ∨ s.node.role = .member := by
      cases hr : s.node.role <;> simp_all
    split
    · next hst =>
      have hh : s.node.head = nobody := by
        rw [Bool.and_eq_true, Bool.not_eq_true'] at hst
        simpa [Node.hasHead] using hst.1
      have hb : s.node.role.mayBecome .candidate = true := by
        obtain hr | hr | hr := hr <;> rw [hr] <;> rfl
      rw [office_stand hb]
      exact .stand hr hh _
    · split
      · next he =>
        rw [office_become (by rw [he.1]; rfl)]
        exact .recede he.1
      · split
        · next hj =>
          rw [office_become (by rw [hj.1]; rfl)]
          have hh : s.node.head ≠ nobody := by simpa [Node.hasHead] using hj.2
          exact .join hj.1 hh
        · exact .stay hr

@[simp] theorem maintain_keeps (s : Station) :
    s.maintain.2.2.office = { s.office with cycle := s.node.cycle.succSat } ∧
      s.maintain.2.2.clockwork = s.clockwork ∧
      s.maintain.2.2.traffic = { s.traffic with queue := (s.queue.forget s.now s.maxAge).1 } :=
  ⟨rfl, rfl, rfl⟩

@[simp] theorem completeCycle_keeps (s : Station) :
    s.completeCycle.clockwork = { s.clockwork with phase := .noisy, phaseSlot := 0 } ∧
      s.completeCycle.traffic =
        { s.traffic with queue := (s.queue.forget s.now s.maxAge).1 } := by
  unfold completeCycle
  simp only [enter_keeps, note_keeps, trace_keeps, decideRole_keeps, publish_keeps, maintain_keeps]
  exact ⟨trivial, trivial⟩

theorem decides_completeCycle {s : Station} {o : Office} (h : s.office = o) :
    Office.Decides { o with cycle := o.cycle.succSat } s.completeCycle.office := by
  unfold completeCycle
  dsimp only
  rw [(enter_keeps _ _).1, office_note _ _ rfl, (trace_keeps _ _).1]
  have hd := decides_decideRole (s.maintain.2.2.publish s.maintain.2.2.survey.measures)
  rw [(publish_keeps _ _).1, (maintain_keeps s).1] at hd
  exact h ▸ hd

/-! ## Noisy and neighbor slots -/

@[simp] theorem finishNoise_keeps (s : Station) :
    s.finishNoise.office = s.office ∧ s.finishNoise.clockwork = s.clockwork ∧
      s.finishNoise.traffic = s.traffic :=
  ⟨rfl, rfl, rfl⟩

/-- A part of the station that neither beacons nor the end of the phase touch stays in a noisy
slot. -/
theorem noisySlot_untouched {β : Type} {f : Station → β}
    (hair : ∀ t noisy, f { t with noisy } = f t) (hbeacon : ∀ t, f (sendBeacon t) = f t)
    (hcount : ∀ t phaseSlot, f { t with phaseSlot } = f t)
    (hend : ∀ t, f ((finishNoise t).enter .neighbor) = f t) (s : Station) :
    f s.noisySlot = f s := by
  unfold noisySlot
  dsimp only
  obtain ⟨t, ht, hf⟩ : ∃ t : Station,
      (if s.noisy.advance.broadcasting then { s with noisy := s.noisy.advance }.sendBeacon
        else { s with noisy := s.noisy.advance }) = t ∧ f t = f s := by
    refine ⟨_, rfl, ?_⟩
    split
    · exact (hbeacon _).trans (hair ..)
    · exact hair ..
  rw [ht]
  split
  · exact (hend _).trans ((hcount ..).trans hf)
  · exact (hcount ..).trans hf

/-- The same for a neighbor slot, at whose end a cycle starts. -/
theorem neighborSlot_untouched {β : Type} {f : Station → β}
    (hair : ∀ t neighborly, f { t with neighborly } = f t)
    (hbeacon : ∀ t, f (sendBeacon t) = f t)
    (hcount : ∀ t phaseSlot, f { t with phaseSlot } = f t)
    (hstart : ∀ t cycle, f { enter t .discovery with cycle } = f t) (s : Station) :
    f s.neighborSlot = f s := by
  unfold neighborSlot
  dsimp only
  obtain ⟨t, ht, hf⟩ : ∃ t : Station,
      (if s.neighborly.advance.broadcasting then
          { s with neighborly := s.neighborly.advance }.sendBeacon
        else { s with neighborly := s.neighborly.advance }) = t ∧ f t = f s := by
    refine ⟨_, rfl, ?_⟩
    split
    · exact (hbeacon _).trans (hair ..)
    · exact hair ..
  rw [ht]
  split
  · exact (hstart ..).trans ((hcount ..).trans hf)
  · exact (hcount ..).trans hf

def Beacons (s t : Station) : Prop :=
  t.traffic = s.traffic ∨ t.traffic = { s.traffic with sent := s.traffic.sent.push s.beacon }

theorem noisySlot_keeps (s : Station) :
    s.noisySlot.office = s.office ∧ s.Beacons s.noisySlot ∧
      s.noisySlot.clockwork =
        if s.settings.plan.noisyCount.toNat ≤ s.phaseSlot + 1 then
          { s.clockwork with phase := .neighbor, phaseSlot := 0 }
        else { s.clockwork with phaseSlot := s.phaseSlot + 1 } := by
  unfold noisySlot
  dsimp only
  obtain ⟨t, ht, ho, hb, hc⟩ : ∃ t : Station,
      (if s.noisy.advance.broadcasting then { s with noisy := s.noisy.advance }.sendBeacon
        else { s with noisy := s.noisy.advance }) = t ∧ t.office = s.office ∧ s.Beacons t ∧
        t.clockwork = s.clockwork := by
    refine ⟨_, rfl, ?_⟩
    split
    · exact ⟨rfl, .inr rfl, rfl⟩
    · exact ⟨rfl, .inl rfl, rfl⟩
  have hs : t.settings = s.settings := congrArg Clockwork.settings hc
  have hp : t.phaseSlot = s.phaseSlot := congrArg Clockwork.phaseSlot hc
  rw [ht]
  by_cases he : s.settings.plan.noisyCount.toNat ≤ s.phaseSlot + 1
  · rw [if_pos he, if_pos (by rw [hs, hp]; exact he)]
    simp only [Beacons, enter_keeps, finishNoise_keeps]
    exact ⟨ho, hb, congrArg (fun c => { c with phase := Phase.neighbor, phaseSlot := 0 }) hc⟩
  · rw [if_neg he, if_neg (by rw [hs, hp]; exact he)]
    exact ⟨ho, hb, congrArg (fun c => { c with phaseSlot := c.phaseSlot + 1 }) hc⟩

theorem neighborSlot_keeps (s : Station) :
    s.neighborSlot.office = s.office ∧ s.Beacons s.neighborSlot ∧
      s.neighborSlot.clockwork =
        if s.settings.plan.neighborCount.toNat ≤ s.phaseSlot + 1 then
          { s.clockwork with phase := .discovery, phaseSlot := 0, cycle := s.cycle.start.2 }
        else { s.clockwork with phaseSlot := s.phaseSlot + 1 } := by
  unfold neighborSlot
  dsimp only
  obtain ⟨t, ht, ho, hb, hc⟩ : ∃ t : Station,
      (if s.neighborly.advance.broadcasting then
          { s with neighborly := s.neighborly.advance }.sendBeacon
        else { s with neighborly := s.neighborly.advance }) = t ∧ t.office = s.office ∧
        s.Beacons t ∧ t.clockwork = s.clockwork := by
    refine ⟨_, rfl, ?_⟩
    split
    · exact ⟨rfl, .inr rfl, rfl⟩
    · exact ⟨rfl, .inl rfl, rfl⟩
  have hs : t.settings = s.settings := congrArg Clockwork.settings hc
  have hp : t.phaseSlot = s.phaseSlot := congrArg Clockwork.phaseSlot hc
  rw [ht]
  by_cases he : s.settings.plan.neighborCount.toNat ≤ s.phaseSlot + 1
  · rw [if_pos he, if_pos (by rw [hs, hp]; exact he)]
    have hn := enter_keeps { t with phaseSlot := t.phaseSlot + 1 } .discovery
    refine ⟨hn.1.trans ho, ?_, ?_⟩
    · exact hb.imp hn.2.1.trans hn.2.1.trans
    · have hy : ({ t with phaseSlot := t.phaseSlot + 1 }.enter .discovery).cycle = s.cycle :=
        (congrArg Clockwork.cycle hn.2.2.2).trans (congrArg Clockwork.cycle hc)
      rw [hy]
      exact congrArg (fun c => { c with cycle := s.cycle.start.2 }) (hn.2.2.2.trans
        (congrArg (fun c => { c with phase := Phase.discovery, phaseSlot := 0 }) hc))
  · rw [if_neg he, if_neg (by rw [hs, hp]; exact he)]
    exact ⟨ho, hb, congrArg (fun c => { c with phaseSlot := c.phaseSlot + 1 }) hc⟩

/-! ## Slots of the discovery cycle -/

theorem withCycle_keeps (s : Station) (cycle : Cycle SlotUse Unit) :
    { s with cycle }.office = s.office ∧ { s with cycle }.traffic = s.traffic ∧
      { s with cycle }.clockwork = { s.clockwork with cycle } :=
  ⟨rfl, rfl, rfl⟩

theorem clockwork_slotWork (s : Station) :
    (if s.cycle.slot = 0 then s.sendMessage else s.relayNext).clockwork = s.clockwork := by
  split
  · exact (sendMessage_keeps s).1
  · exact (relayNext_keeps s).2

section discovery
variable {s : Station} (h : s.clockwork.InStep) (hp : s.phase = .discovery)
include h hp

theorem start_running : s.cycle.start.2 = s.cycle := by
  have hr : s.cycle.running = true := h.running.2 hp
  simp [Cycle.start, hr]

theorem due_eq : s.cycle.due? = some (if s.cycle.slot = 0 then .own else .relay) := by
  have hr : s.cycle.running = true := h.running.2 hp
  have hw : s.cycle.work = #v[some .own, some .relay, some .relay, some .relay] := h.work
  have hall : ∀ slot : Fin 4, (#v[some .own, some .relay, some .relay, some .relay] :
      Vector (Option SlotUse) 4)[slot] = some (if slot = 0 then .own else .relay) := by decide
  rw [Cycle.due?, if_pos hr, hw]
  exact hall s.cycle.slot

theorem advance_eq :
    s.cycle.advance =
      if s.cycle.slot = 3 then
        (⟨0, some ((), s.cycle.count + 1)⟩, { s.cycle with slot := 0, count := s.cycle.count + 1 })
      else (⟨s.cycle.slot + 1, none⟩, { s.cycle with slot := s.cycle.slot + 1 }) := by
  have hr : s.cycle.running = true := h.running.2 hp
  have hc : s.cycle.completion.map (fun b => (b, s.cycle.count + 1)) =
      some ((), s.cycle.count + 1) := by
    rw [show s.cycle.completion = some () from h.completion]
    rfl
  unfold Cycle.advance
  rw [if_neg (by simp [hr])]
  dsimp only
  rw [hc]

theorem discoverySlot_eq :
    s.discoverySlot =
      let t := if s.cycle.slot = 0 then s.sendMessage else s.relayNext
      if s.cycle.slot = 3 then
        let u := { t with cycle := { s.cycle with slot := 0, count := s.cycle.count + 1 } }
        { u.completeCycle with cycle := u.completeCycle.cycle.stop }
      else { t with cycle := { s.cycle with slot := s.cycle.slot + 1 } } := by
  have hc := clockwork_slotWork s
  generalize ht : (if s.cycle.slot = 0 then s.sendMessage else s.relayNext) = t at hc
  have hw : s.work s.cycle.due? = t := by
    rw [due_eq h hp, ← ht]
    split <;> rfl
  have hcy : t.cycle = s.cycle := congrArg Clockwork.cycle hc
  have hph : t.phase = .discovery := (congrArg Clockwork.phase hc).trans hp
  have hn : ∀ u : Station, u.completeCycle.phase = .noisy :=
    fun u => congrArg Clockwork.phase (completeCycle_keeps u).1
  unfold discoverySlot
  rw [start_running h hp]
  dsimp only
  rw [hw, hcy, advance_eq h hp]
  by_cases h3 : s.cycle.slot = 3
  · rw [if_pos h3, if_pos h3]
    simp only [Option.isSome_some, if_true]
    rw [if_neg (by rw [hn]; nofun)]
  · rw [if_neg h3, if_neg h3]
    simp only [Option.isSome_none, Bool.false_eq_true, if_false]
    rw [if_pos hph]

theorem clockwork_discoverySlot :
    s.discoverySlot.clockwork =
      if s.cycle.slot = 3 then
        { s.clockwork with
          phase := .noisy
          phaseSlot := 0
          cycle := { s.cycle with running := false, slot := 0, count := s.cycle.count + 1 } }
      else { s.clockwork with cycle := { s.cycle with slot := s.cycle.slot + 1 } } := by
  rw [discoverySlot_eq h hp]
  have hc := clockwork_slotWork s
  generalize ht : (if s.cycle.slot = 0 then s.sendMessage else s.relayNext) = t at hc
  dsimp only
  split
  · have hk := (completeCycle_keeps { t with
      cycle := { s.cycle with slot := 0, count := s.cycle.count + 1 } }).1
    refine (congrArg (fun c : Clockwork => { c with cycle := c.cycle.stop }) hk).trans ?_
    exact congrArg (fun c : Clockwork => { c with
      phase := .noisy
      phaseSlot := 0
      cycle := { s.cycle with running := false, slot := 0, count := s.cycle.count + 1 } }) hc
  · exact congrArg (fun c : Clockwork => { c with
      cycle := { s.cycle with slot := s.cycle.slot + 1 } }) hc

theorem office_discoverySlot :
    if s.cycle.slot = 3 then
      Office.Decides { s.office with cycle := s.office.cycle.succSat } s.discoverySlot.office
    else if s.cycle.slot = 0 then s.discoverySlot.office = s.office.spoken
    else s.discoverySlot.office = s.office := by
  rw [discoverySlot_eq h hp]
  dsimp only
  by_cases h3 : s.cycle.slot = 3
  · rw [if_pos h3, if_pos h3, if_neg (by rw [h3]; decide)]
    rw [(withCycle_keeps _ _).1]
    exact decides_completeCycle ((withCycle_keeps _ _).1.trans (relayNext_keeps s).1)
  · rw [if_neg h3, if_neg h3]
    by_cases h0 : s.cycle.slot = 0
    · rw [if_pos h0, if_pos h0]
      exact office_sendMessage s
    · rw [if_neg h0, if_neg h0]
      exact (relayNext_keeps s).1

/-- The first slot sends the station's message; the others relay, and the last one also
forgets what was seen too long ago. -/
theorem traffic_discoverySlot :
    if s.cycle.slot = 0 then
      s.discoverySlot.traffic = { s.traffic with sent := s.traffic.sent.push s.message }
    else if s.cycle.slot = 3 then
      ∃ maxAge, s.discoverySlot.traffic = { s.relayNext.traffic with
        queue := (s.relayNext.traffic.queue.forget s.relayNext.now maxAge).1 }
    else s.discoverySlot.traffic = s.relayNext.traffic := by
  rw [discoverySlot_eq h hp]
  dsimp only
  by_cases h0 : s.cycle.slot = 0
  · rw [if_pos h0, if_pos h0, if_neg (by rw [h0]; decide)]
    exact (sendMessage_keeps s).2
  · rw [if_neg h0, if_neg h0]
    split
    · rw [(withCycle_keeps _ _).2.1, (completeCycle_keeps _).2]
      exact ⟨_, rfl⟩
    · rfl

end discovery

end Station
end ClusterMesh
