import ClusterMesh.Proofs.Station.Footprint
import ClusterMesh.Proofs.Station.Steps

/-! What a station knows of other nodes: the neighbors in its roster, and whom its survey has heard.
Elections mark neighbors but add none, a reception adds up to two of them, and the end of a cycle
only forgets some. So neither of the two ever outgrows its room. -/
namespace ClusterMesh

namespace Survey

theorem size_heard_note {v : Survey} (h : v.heard.size ≤ capacity) (id : NodeId)
    (position : Option Position) (rssi : Int8) (now : Instant) :
    (v.note id position rssi now).heard.size ≤ capacity := by
  unfold note
  dsimp only
  split
  · next n hn =>
    rw [Table.size_insert, if_pos (by simp [hn])]
    exact h
  · next hn =>
    split
    · exact h
    · next hf =>
      have hroom : v.heard.size < capacity := by simpa [Table.isFull] using hf
      rw [Table.size_insert, if_neg (by simp [hn])]
      exact hroom

theorem heard_sample (v : Survey) (rssi : Int8) : (v.sample rssi).heard = v.heard := by
  unfold sample
  split <;> rfl

end Survey

namespace Station

/-! ## Reception -/

theorem roster_consider (s : Station) (head : NodeId) (hops : UInt8) (direct : UInt32)
    (clusterClass : UInt16) :
    (s.consider head hops direct clusterClass).node.roster = s.node.roster := by
  unfold consider
  split
  · rfl
  · split
    · rfl
    · split
      · simp only [note_keeps]
        rfl
      · rfl

theorem roster_heedRenouncement (s : Station) (head : NodeId) :
    (s.heedRenouncement head).node.roster = s.node.roster := by
  unfold heedRenouncement
  split
  · rfl
  · dsimp only
    split
    · simp only [note_keeps]
      rfl
    · rw [become_eq]
      dsimp only
      split <;> simp only [become_keeps, note_keeps] <;> rfl

theorem roster_meetRival (s : Station) (rival : NodeId) (hops : UInt8) (ballot : Ballot) :
    (s.meetRival rival hops ballot).node.roster = s.node.roster := by
  have hb := (become_keeps s .edge).2.2.2.2.2
  unfold meetRival
  split
  · rfl
  · rw [become_eq]
    cases s.node.role.mayBecome .edge with
    | false => exact hb
    | true =>
      simp only [note_keeps]
      exact hb

theorem roster_take (s : Station) (p : Packet) : (s.take p).2.node.roster = s.node.roster := by
  unfold take
  split
  · rfl
  · simp only [note_keeps]
    rfl

theorem survey_heed (s : Station) (p : Packet) : (s.heed p).survey = s.survey := by
  have h : s.heed p = (s.heed p).on s := heed_on (t := s) rfl p
  rw [h]
  rfl

theorem survey_observe {s : Station} {p : Packet} (rssi : Int8) (h : p.transmitter ≠ s.id) :
    (s.observe p rssi).survey = s.survey.note p.transmitter p.position rssi s.now := by
  have ht : s.hearTransmitter p rssi = (s.hearTransmitter p rssi).on s :=
    hearTransmitter_on (t := s) rfl p rssi
  rw [observe, if_neg h]
  dsimp only
  generalize s.hearTransmitter p rssi = t at ht
  have hs : t.hearSender p rssi = (t.hearSender p rssi).on s :=
    (congrArg (·.hearSender p rssi) ht).trans (hearSender_on p rssi)
  generalize t.hearSender p rssi = u at hs
  have hsurvey : u.survey = s.survey := by
    rw [hs]
    rfl
  have hnow : u.now = s.now := by
    rw [hs]
    rfl
  rw [survey_heed, hsurvey, hnow]

theorem heard_take (s : Station) (p : Packet) :
    (s.take p).2.survey.heard = s.survey.heard := by
  unfold take
  split
  · rfl
  · rw [(note_keeps _ _).2.2.2.2.1]
    rfl

/-! ## Slots -/

theorem roster_enter (s : Station) (phase : Phase) :
    (s.enter phase).node.roster = s.node.roster :=
  congrArg Node.roster (enter_keeps s phase).2.2.1

theorem roster_noisySlot (s : Station) : s.noisySlot.node.roster = s.node.roster :=
  noisySlot_untouched (f := (·.node.roster)) (fun _ _ => rfl) (fun _ => rfl) (fun _ _ => rfl)
    (fun t => roster_enter t.finishNoise .neighbor) s

theorem roster_neighborSlot (s : Station) : s.neighborSlot.node.roster = s.node.roster :=
  neighborSlot_untouched (f := (·.node.roster)) (fun _ _ => rfl) (fun _ => rfl) (fun _ _ => rfl)
    (fun t _ => roster_enter t .discovery) s

theorem roster_sendMessage (s : Station) : s.sendMessage.node.roster = s.node.roster := by
  unfold sendMessage
  split
  · rfl
  · split <;> rfl

theorem roster_relayNext (s : Station) : s.relayNext.node.roster = s.node.roster := by
  have hdrop (t : Station) (sender : NodeId) (why : DropReason) :
      (t.drop sender why).node.roster = t.node.roster := by
    unfold drop
    simp only [note_keeps]
    rfl
  exact relayNext_untouched (f := (·.node.roster)) (fun _ _ _ => rfl) hdrop (fun _ _ => rfl) s

theorem roster_decideRole (s : Station) : s.decideRole.node.roster = s.node.roster := by
  have hb (next : Role) := (become_keeps s next).2.2.2.2.2
  have hstand : s.stand.node.roster = s.node.roster := by
    unfold stand
    rw [become_eq]
    cases s.node.role.mayBecome .candidate <;> exact hb _
  have hoffice : s.takeOffice.node.roster = s.node.roster := by
    unfold takeOffice
    split
    · rw [become_eq]
      cases s.node.role.mayBecome .head <;> exact hb _
    · rfl
  unfold decideRole
  split
  · exact hb _
  · exact hoffice
  · rfl
  · split
    · exact hstand
    · split
      · exact hb _
      · split
        · exact hb _
        · rfl

theorem roster_completeCycle (s : Station) :
    s.completeCycle.node.roster = (s.node.advanceCycle.prune s.settings.patience).1.roster := by
  unfold completeCycle
  dsimp only
  simp only [roster_enter, note_keeps, trace_keeps, roster_decideRole, publish_keeps]
  rfl

/-- A slot of the discovery cycle leaves the roster alone, but the last one forgets those who were
unheard for too long. -/
theorem roster_discoverySlot {s : Station} (hi : s.clockwork.InStep) (hp : s.phase = .discovery) :
    s.discoverySlot.node.roster =
      if s.cycle.slot = 3 then (s.node.advanceCycle.prune s.settings.patience).1.roster
      else s.node.roster := by
  rw [discoverySlot_eq hi hp]
  by_cases h3 : s.cycle.slot = 3
  · have h0 : ¬ s.cycle.slot = 0 := by
      rw [h3]
      decide
    obtain ⟨ho, hc⟩ := relayNext_keeps s
    have hcycle : s.relayNext.node.cycle = s.node.cycle := congrArg Office.cycle ho
    have hsettings : s.relayNext.settings = s.settings := congrArg Clockwork.settings hc
    dsimp only
    rw [if_pos h3, if_pos h3, if_neg h0]
    refine (roster_completeCycle _).trans ?_
    unfold Node.prune Roster.prune Node.advanceCycle
    dsimp only
    rw [hcycle, hsettings, roster_relayNext]
  · dsimp only
    rw [if_neg h3, if_neg h3]
    split
    · exact roster_sendMessage s
    · exact roster_relayNext s

theorem heard_enter (s : Station) (phase : Phase) :
    (s.enter phase).survey.heard = s.survey.heard := by
  unfold enter
  dsimp only
  rw [(note_keeps _ _).2.2.2.2.1, (trace_keeps _ _).2.2.2.2.1]
  split <;> rfl

theorem heard_relayNext (s : Station) : s.relayNext.survey.heard = s.survey.heard :=
  relayNext_untouched (f := (·.survey.heard)) (fun _ _ _ => rfl)
    (fun _ _ _ => congrArg Survey.heard (note_keeps _ _).2.2.2.2.1) (fun _ _ => rfl) s

theorem survey_sendMessage (s : Station) : s.sendMessage.survey = s.survey := by
  unfold sendMessage
  split
  · rfl
  · split <;> rfl

/-- A station that differs from another one in nothing that elections see decides alike. -/
theorem decideRole_of_on {m t : Station} (hm : m.on t = t) (hr : t.receivers = m.receivers) :
    t.decideRole = m.decideRole.on t := by rw [← decideRole_on hr, hm]

theorem survey_publish (s : Station) (c : Connectivity) : (s.publish c).survey = s.survey := by
  unfold publish
  split <;> rfl

theorem survey_completeCycle (s : Station) :
    s.completeCycle.survey = (s.survey.forget s.now s.maxAge).1.measure.beginMeasuring := by
  have hdecide (t : Station) : t.decideRole.survey = t.survey := by
    rw [decideRole_of_on (m := t) (t := t) rfl rfl]
    rfl
  unfold completeCycle enter
  dsimp only
  rw [if_pos rfl, (note_keeps _ _).2.2.2.2.1]
  change Survey.beginMeasuring (note _ _).survey = _
  rw [(note_keeps _ _).2.2.2.2.1, (trace_keeps _ _).2.2.2.2.1, hdecide, survey_publish]
  rfl

theorem heard_completeCycle (s : Station) : s.completeCycle.survey.heard =
    s.survey.heard.filter fun _ h => s.now.since h.lastSeen ≤ s.maxAge := by
  rw [survey_completeCycle]
  rfl

/-- A slot of the discovery cycle leaves what was heard alone as well, but for the last one. -/
theorem heard_discoverySlot {s : Station} (hi : s.clockwork.InStep) (hp : s.phase = .discovery) :
    ∃ keep, s.discoverySlot.survey.heard =
      if s.cycle.slot = 3 then s.survey.heard.filter keep else s.survey.heard := by
  have hw : (if s.cycle.slot = 0 then s.sendMessage else s.relayNext).survey.heard =
      s.survey.heard := by
    split
    · rw [survey_sendMessage]
    · exact heard_relayNext s
  rw [discoverySlot_eq hi hp]
  generalize (if s.cycle.slot = 0 then s.sendMessage else s.relayNext) = t at hw
  dsimp only
  split
  · exact ⟨_, (heard_completeCycle _).trans (congrArg (Table.filter · _) hw)⟩
  · exact ⟨fun _ _ => true, hw⟩

/-! ## One operation -/

/-- The packet of an operation that a station learns from. What it put on the air itself tells it
nothing. -/
def observes? (s : Station) (op : Op) : Option Packet :=
  op.packet?.filter fun p => s.attends && p.transmitter != s.id

inductive Revises (s : Station) (op : Op) : Roster → Table NodeId Heard → Prop
  | kept (ho : s.observes? op = none) (hc : s.completes op = false) (hr : op.isReset = false) :
      Revises s op s.node.roster s.survey.heard
  | learned {p : Packet} {rssi : Int8} {t : Station} (ho : s.observes? op = some p)
      (hnode : t.node = s.node) (hsurvey : t.survey = s.survey) :
      Revises s op (t.observe p rssi).node.roster (t.observe p rssi).survey.heard
  | cleaned (keep : NodeId → Heard → Bool) (hc : s.completes op = true) :
      Revises s op (s.node.advanceCycle.prune s.settings.patience).1.roster
        (s.survey.heard.filter keep)
  | cleared (hr : op = .reset) : Revises s op .empty .empty

variable {s : Station} {op : Op}

theorem revises_receive {p : Packet} (hp : op.packet? = some p) (rssi : Int8) (now : Instant) :
    s.Revises op (s.receive p rssi now).2.node.roster (s.receive p rssi now).2.survey.heard := by
  have hc : s.completes op = false := runsSlot_of_packet? s hp 3
  have hr := isReset_of_packet? hp
  have hidle (ha : s.attends = false) : s.Revises op s.node.roster s.survey.heard :=
    .kept (by simp [observes?, hp, ha]) hc hr
  have hobserve (ha : s.attends = true) :
      s.Revises op ({ s with now }.observe p rssi).node.roster
        ({ s with now }.observe p rssi).survey.heard := by
    by_cases ht : p.transmitter = s.id
    · have hsame : { s with now }.observe p rssi = ({ s with now } : Station) := if_pos ht
      rw [hsame]
      exact .kept (by simp [observes?, hp, ht]) hc hr
    · exact .learned (by simp [observes?, hp, ha, ht]) rfl rfl
  have hr := s.receives p rssi now
  generalize s.receive p rssi now = r at hr
  cases hr with
  | off _ ha | busy _ ha => exact hidle ha
  | sampled ha => exact (Survey.heard_sample ..).symm ▸ hidle ha
  | observed ha => exact hobserve ha
  | taken ha =>
    rw [roster_take, heard_take]
    exact hobserve ha

theorem revises_step (h : s.clockwork.InStep) (op : Op) :
    s.Revises op (s.step op).node.roster (s.step op).survey.heard := by
  cases op with
  | tick now =>
    obtain ⟨he, ht⟩ | ⟨he, ⟨hp, ht⟩ | ⟨hp, ht⟩ | ⟨hp, ht⟩⟩ := tick_cases s now
    · rw [ht]
      exact .kept rfl (by simp [completes, runsSlot, he]) rfl
    · have hheard : { s with now }.noisySlot.survey.heard = s.survey.heard :=
        noisySlot_untouched (f := (·.survey.heard)) (fun _ _ => rfl) (fun _ => rfl)
          (fun _ _ => rfl) (fun t => heard_enter t.finishNoise .neighbor) { s with now }
      rw [ht, roster_noisySlot, hheard]
      exact .kept rfl (by simp [completes, runsSlot, hp]) rfl
    · have hheard : { s with now }.neighborSlot.survey.heard = s.survey.heard :=
        neighborSlot_untouched (f := (·.survey.heard)) (fun _ _ => rfl) (fun _ => rfl)
          (fun _ _ => rfl) (fun t _ => heard_enter t .discovery) { s with now }
      rw [ht, roster_neighborSlot, hheard]
      exact .kept rfl (by simp [completes, runsSlot, hp]) rfl
    · have hroster := roster_discoverySlot (s := { s with now }) h hp
      obtain ⟨keep, hheard⟩ := heard_discoverySlot (s := { s with now }) h hp
      rw [ht, hroster, hheard]
      by_cases h3 : s.cycle.slot = 3
      · have hv : s.cycle.slot.val = 3 := congrArg Fin.val h3
        rw [if_pos h3, if_pos h3]
        exact .cleaned keep (by simp [completes, runsSlot, he, hp, hv])
      · have hv : s.cycle.slot.val ≠ 3 := fun hv => h3 (Fin.ext hv)
        rw [if_neg h3, if_neg h3]
        exact .kept rfl (by simp [completes, runsSlot, hv]) rfl
  | receive p rssi now => exact revises_receive rfl rssi now
  | receiveBytes bytes rssi now =>
    simp only [step, receiveBytes]
    cases hb : Packet.ofBytes bytes with
    | error e => exact .kept (by simp [observes?, Op.packet?, hb, Except.toOption]) rfl rfl
    | ok p => exact revises_receive (by simp [Op.packet?, hb, Except.toOption]) rssi now
  | reset => exact .cleared rfl
  | _ => exact .kept rfl rfl rfl

/-! ## Capacity -/

def Roomy (s : Station) : Prop := s.node.roster.size ≤ Roster.capacity

theorem size_roster_heed (s : Station) (p : Packet) :
    (s.heed p).node.roster.size = s.node.roster.size :=
  heed_holds (P := fun t => t.node.roster.size = s.node.roster.size) rfl (Table.size_mapValues ..)
    rfl (fun _ _ _ _ _ ht => (congrArg _ (roster_consider ..)).trans ht)
    (congrArg _ (roster_heedRenouncement ..))
    fun _ _ _ _ ht => (congrArg _ (roster_meetRival ..)).trans ht

theorem roomy_of_hear? {n m : Node} {id : NodeId} {rssi : Int8} {hops : UInt8}
    (h : n.hear? id rssi hops = some m) (hn : n.roster.size ≤ Roster.capacity) :
    m.roster.size ≤ Roster.capacity := by
  obtain ⟨roster, hr, rfl⟩ := Option.map_eq_some_iff.1 h
  exact Roster.size_of_hear? hr hn

theorem Roomy.hearTransmitter {s : Station} (h : s.Roomy) (p : Packet) (rssi : Int8) :
    (s.hearTransmitter p rssi).Roomy := by
  have hlocate (n : Node) (position : Position) :
      (n.locateNeighbor p.transmitter position).roster.size = n.roster.size :=
    Table.size_mapValues ..
  unfold Roomy Station.hearTransmitter
  cases hn : s.node.hear? p.transmitter rssi 1 with
  | none =>
    have hk := (note_keeps s (.rosterFull p.transmitter)).2.2.1
    cases p.position with
    | none =>
      dsimp only
      rw [hk]
      exact h
    | some position =>
      dsimp only
      rw [hlocate, hk]
      exact h
  | some m =>
    have hm := roomy_of_hear? hn h
    cases p.position with
    | none => exact hm
    | some position => exact Nat.le_trans (Nat.le_of_eq (hlocate m position)) hm

theorem Roomy.hearSender {s : Station} (h : s.Roomy) (p : Packet) (rssi : Int8) :
    (s.hearSender p rssi).Roomy := by
  unfold Station.hearSender
  split
  · exact h
  · split
    · next hn => exact roomy_of_hear? hn h
    · exact h

theorem Roomy.observe {s : Station} (h : s.Roomy) (p : Packet) (rssi : Int8) :
    (s.observe p rssi).Roomy := by
  have hs := (h.hearTransmitter p rssi).hearSender p rssi
  unfold Station.observe
  split
  · exact h
  · exact Nat.le_trans (Nat.le_of_eq (size_roster_heed _ p)) hs

theorem Roomy.step {s : Station} (h : s.Roomy) (hi : s.clockwork.InStep) (op : Op) :
    (s.step op).Roomy := by
  have ht := revises_step hi op
  generalize hr : (s.step op).node.roster = r at ht
  generalize (s.step op).survey.heard = v at ht
  rw [Roomy, hr]
  cases ht with
  | kept => exact h
  | @learned p rssi t ho hnode =>
    have ht : t.Roomy := by
      rw [Roomy, hnode]
      exact h
    exact ht.observe p rssi
  | cleaned => exact Nat.le_trans (Table.size_filter_le ..) h
  | cleared => exact Nat.zero_le _

theorem Reachable.roomy {s : Station} (h : Reachable s) : s.Roomy := by
  induction h with
  | start hs =>
    obtain ⟨-, rfl⟩ := start_eq hs
    exact Nat.zero_le _
  | step hs op ih => exact ih.step hs.inStep op

def Spacious (s : Station) : Prop := s.survey.heard.size ≤ Survey.capacity

theorem Spacious.observe {s : Station} (h : s.Spacious) (p : Packet) (rssi : Int8) :
    (s.observe p rssi).Spacious := by
  by_cases ht : p.transmitter = s.id
  · rw [Station.observe, if_pos ht]
    exact h
  · unfold Spacious
    rw [survey_observe rssi ht]
    exact Survey.size_heard_note h ..

theorem Spacious.step {s : Station} (h : s.Spacious) (hi : s.clockwork.InStep) (op : Op) :
    (s.step op).Spacious := by
  have ht := revises_step hi op
  generalize (s.step op).node.roster = r at ht
  generalize hv : (s.step op).survey.heard = v at ht
  rw [Spacious, hv]
  cases ht with
  | kept => exact h
  | @learned p rssi t ho hnode hsurvey =>
    have ht : t.Spacious := by
      rw [Spacious, hsurvey]
      exact h
    exact ht.observe p rssi
  | cleaned => exact Nat.le_trans (Table.size_filter_le ..) h
  | cleared => exact Nat.zero_le _

theorem Reachable.spacious {s : Station} (h : Reachable s) : s.Spacious := by
  induction h with
  | start hs =>
    obtain ⟨-, rfl⟩ := start_eq hs
    exact Nat.zero_le _
  | step hs op ih => exact ih.step hs.inStep op

end Station
end ClusterMesh
