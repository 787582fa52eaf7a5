import ClusterMesh.Proofs.Station.Promotion
import ClusterMesh.Proofs.Station.Relaying

/-! The messages of slot zero. A station owes three renouncements from the election that it
loses, and three announcements from the end of the cycle that makes it a candidate; it never owes
both. Each slot zero pays one, and sends a plain beacon when nothing is owed. -/
namespace ClusterMesh

namespace Packet

def IsAnnouncement (p : Packet) : Prop := ∃ b, p.content = .candidacy b

def IsRenouncement (p : Packet) : Prop := ∃ b, p.content = .renouncement b

end Packet

namespace Station

/-- A packet in the station's own name, straight from it: a renouncement if one is owed, else an
announcement if one is, else a beacon that tells whether the station is head. -/
structure Says (s : Station) (p : Packet) : Prop where
  sender : p.sender = s.id
  path : p.path.toList = [s.id]
  renounces : p.IsRenouncement ↔ 0 < s.campaign.renouncements
  announces : p.IsAnnouncement ↔
    s.campaign.renouncements = 0 ∧ s.node.role = .candidate ∧ 0 < s.campaign.rounds
  fromHead : p.content = .beacon → (p.fromHead = true ↔ s.node.role = .head)

theorem says_message (s : Station) : s.Says s.message := by
  unfold message
  split
  · next hr =>
    exact ⟨rfl, rfl, iff_of_true ⟨_, rfl⟩ hr, iff_of_false nofun (by omega), nofun⟩
  · next hr =>
    split
    · next ha => exact ⟨rfl, rfl, iff_of_false nofun hr, iff_of_true ⟨_, rfl⟩ ⟨by omega, ha⟩, nofun⟩
    · next ha =>
      exact ⟨rfl, rfl, iff_of_false nofun hr, iff_of_false nofun fun h => ha h.2,
        fun _ => decide_eq_true_iff⟩

/-- An announcement of slot zero gives the neighbors that the candidacy counts. -/
theorem direct_message {s : Station} {b : Ballot} (h : s.message.content = .candidacy b) :
    b.direct = s.campaign.direct := by
  unfold message at h
  split at h
  · cases h
  · split at h
    · cases h
      exact Ballot.direct_addHop _ _ _
    · cases h

theorem sentBy_of_runsSlot {s : Station} (h : s.clockwork.InStep) {op : Op}
    (h0 : s.runsSlot 0 op = true) : s.sentBy op = [s.message] := by
  have hsent : (s.step op).outbox.packets = s.outbox.packets.push s.message :=
    congrArg Traffic.sent (traffic_step_of_runsSlot h h0)
  simp [sentBy, hsent]

/-- Apart from what it relays, a station sends nothing but beacons outside slot zero. -/
theorem runsSlot_of_mem_sentBy {s : Station} (h : s.clockwork.InStep) {op : Op} {p : Packet}
    (hp : p ∈ s.sentBy op) (hr : s.relays op = false) (hb : p.content ≠ .beacon) :
    s.runsSlot 0 op = true := by
  have hbooks := books_step h op
  have hrelays {m : Marks} (hm : s.marks op = m) : m.relays = false :=
    (congrArg Marks.relays hm).symm.trans hr
  have hnone : s.ledger.packets.toList.drop s.ledger.packets.size = [] :=
    List.drop_of_length_le (by simp)
  change p ∈ (s.step op).ledger.packets.toList.drop s.ledger.packets.size at hp
  generalize (s.step op).ledger = l at hbooks hp
  cases hbooks with
  | message hm => exact congrArg Marks.speaks hm
  | beacon hm =>
    have hp : p = s.beacon := by simpa [Ledger.post] using hp
    exact absurd (by rw [hp]; rfl) hb
  | idle hm => cases hrelays hm
  | lost hm => cases hrelays hm
  | copied hm => cases hrelays hm
  | kept | refused | accepted | reset => cases (hnone ▸ hp : p ∈ [])

/-! ## Speeches of a run -/

/-- What holds of the speech of the first operation, if it has one, and of the others in their
places holds of all. -/
theorem forall_speech_cons {s : Station} {op : Op} {ops : List Op} {P : Nat → Speech → Prop}
    (hfirst : s.runsSlot 0 op = true → P 0 (s.speech op))
    (hrest : ∀ n e, ((s.step op).speeches ops)[n]? = some e → P (n + (s.runsSlot 0 op).toNat) e) :
    ∀ n e, (s.speeches (op :: ops))[n]? = some e → P n e := by
  intro n e he
  rw [speeches] at he
  cases h0 : s.runsSlot 0 op with
  | false =>
    rw [h0, if_neg (by simp)] at he
    have hn := hrest n e he
    rwa [h0, Bool.toNat_false, Nat.add_zero] at hn
  | true =>
    rw [h0, if_pos rfl] at he
    cases n with
    | zero =>
      cases he
      exact hfirst h0
    | succ n =>
      have hn := hrest n e he
      rwa [h0, Bool.toNat_true] at hn

theorem length_speeches_append (s : Station) (ops : List Op) (op : Op) :
    (s.speeches (ops ++ [op])).length =
      (s.speeches ops).length + ((s.run ops).runsSlot 0 op).toNat := by
  induction ops generalizing s with
  | nil =>
    simp only [List.nil_append, speeches, run, List.foldl_nil]
    cases s.runsSlot 0 op <;> rfl
  | cons first ops ih =>
    simp only [List.cons_append, speeches, run_cons]
    cases s.runsSlot 0 first with
    | false => exact ih (s.step first)
    | true =>
      simp only [if_true, List.length_cons, ih (s.step first)]
      omega

/-! ## Announcements -/

theorem rounds_step_of_candidate {s : Station} (h : s.clockwork.InStep)
    (hq : s.campaign.renouncements = 0) (hc : s.node.role = .candidate) {op : Op}
    (hc' : (s.step op).node.role = .candidate) :
    (s.step op).campaign.renouncements = 0 ∧
      (s.step op).campaign.rounds = s.campaign.rounds - (s.runsSlot 0 op).toNat := by
  have hs := campaigns_step h hc op
  generalize ho : (s.step op).office = o at hs
  have hrole : o.role = .candidate := ho ▸ hc'
  have hcampaign : (s.step op).campaign = o.campaign := congrArg Office.campaign ho
  rw [hcampaign]
  cases hs with
  | spoke h0 =>
    obtain ⟨-, hspoken⟩ := campaign_step_of_runsSlot h hc hq h0
    rw [← hcampaign, hspoken, h0]
    split
    · exact ⟨hq, rfl⟩
    · exact ⟨hq, by rw [Bool.toNat_true]; omega⟩
  | waited h3 =>
    rw [not_runsSlot_of_completes h3]
    exact ⟨hq, rfl⟩
  | kept head h0 =>
    rw [h0]
    exact ⟨hq, rfl⟩
  | won | lost | reset => cases hrole

/-- The next messages of a candidate are as many announcements as it owes, all with the same
number of neighbors. -/
theorem nth_speech_of_candidate {s : Station} (h : s.clockwork.InStep)
    (hq : s.campaign.renouncements = 0) {ops : List Op} (hp : s.Persists ops) :
    ∀ (n : Nat) (e : Speech), (s.speeches ops)[n]? = some e →
      ∃ p, e.packets = [p] ∧ (p.IsAnnouncement ↔ n < s.campaign.rounds) ∧
        ∀ b, p.content = .candidacy b → b.direct = s.campaign.direct := by
  induction ops generalizing s with
  | nil => simp [speeches]
  | cons op ops ih =>
    have hc' := Persists.role_eq hp.2
    obtain ⟨hq', hrounds⟩ := rounds_step_of_candidate h hq hp.1 hc'
    refine forall_speech_cons (fun h0 => ?_) fun n e he => ?_
    · refine ⟨s.message, sentBy_of_runsSlot h h0, ?_, fun b => direct_message⟩
      rw [(says_message s).announces, and_iff_right hq, and_iff_right hp.1]
    · obtain ⟨p, hpackets, hann, hdirect⟩ := ih (inStep_step h op) hq' hp.2 n e he
      refine ⟨p, hpackets, ?_, fun b hb => ?_⟩
      · rw [hann, hrounds]
        omega
      · rw [hdirect b hb, direct_step_of_candidate h hp.1 hc']

/-- Every message of a candidate pays one of the announcements that it owes. -/
theorem rounds_run_of_candidate {s : Station} (h : s.clockwork.InStep)
    (hq : s.campaign.renouncements = 0) {ops : List Op} (hp : s.Persists ops) :
    (s.run ops).campaign.rounds = s.campaign.rounds - (s.speeches ops).length := by
  induction ops generalizing s with
  | nil => rfl
  | cons op ops ih =>
    obtain ⟨hq', hrounds⟩ := rounds_step_of_candidate h hq hp.1 (Persists.role_eq hp.2)
    rw [run_cons, ih (inStep_step h op) hq' hp.2, hrounds, speeches]
    cases s.runsSlot 0 op with
    | false => rfl
    | true =>
      simp only [if_true, List.length_cons, Bool.toNat_true]
      omega

/-- Who comes to stand owes three announcements and no renouncement. -/
theorem campaign_of_stands {s : Station} (h : s.clockwork.InStep) {op : Op} (hs : s.Stands op) :
    (s.step op).campaign.rounds = 3 ∧ (s.step op).campaign.renouncements = 0 := by
  obtain ⟨-, hsaid, hcourse⟩ := onCourse_of_stands h hs.before hs.after
  refine ⟨?_, hcourse.renouncements⟩
  rw [hcourse.rounds, hsaid]

def HasStood (s : Station) (ops : List Op) (spoken : Nat) : Prop :=
  ∃ before standing mid, ops = before ++ standing :: mid ∧ (s.run before).Stands standing ∧
    ((s.run before).step standing).Persists mid ∧
    (((s.run before).step standing).speeches mid).length = spoken

/-- A candidate has stood, and owes what is left of three announcements. -/
theorem exists_stand {s : Station} (h : Reachable s) (hs : s.node.role ≠ .candidate)
    {ops : List Op} (hc : (s.run ops).node.role = .candidate) :
    ∃ n, s.HasStood ops n ∧ (s.run ops).campaign.rounds = 3 - n := by
  obtain ⟨before, standing, mid, rfl, hn, hp⟩ := exists_standing hs hc
  rw [run_concat] at hp
  have hi := (h.run before).inStep
  obtain ⟨hcompletes, -, -⟩ := onCourse_of_stands hi hn hp.role_eq
  have hstands : (s.run before).Stands standing := ⟨hn, hcompletes, hp.role_eq⟩
  obtain ⟨hthree, hquiet⟩ := campaign_of_stands hi hstands
  refine ⟨_, ⟨before, standing, mid, rfl, hstands, hp, rfl⟩, ?_⟩
  rw [run_append_cons, rounds_run_of_candidate (inStep_step hi standing) hquiet hp, hthree]

/-! ## Renouncements -/

def Loses (s : Station) (op : Op) : Prop :=
  s.node.role = .candidate ∧ s.IsBeaten s.campaign.direct op

def Abstains (s : Station) : List Op → Prop
  | [] => s.node.role ≠ .candidate
  | op :: ops => s.node.role ≠ .candidate ∧ op.isReset = false ∧ Abstains (s.step op) ops

theorem Abstains.role_ne {s : Station} {ops : List Op} (h : s.Abstains ops) :
    s.node.role ≠ .candidate := by
  cases ops with
  | nil => exact h
  | cons op ops => exact h.1

theorem abstains_append {s : Station} {ops : List Op} {op : Op} (h : s.Abstains ops)
    (hr : op.isReset = false) (hc : (s.run (ops ++ [op])).node.role ≠ .candidate) :
    s.Abstains (ops ++ [op]) := by
  induction ops generalizing s with
  | nil => exact ⟨h, hr, hc⟩
  | cons first ops ih => exact ⟨h.1, h.2.1, ih h.2.2 hc⟩

/-- What an operation makes of the role of a station and of the renouncements that it owes. -/
inductive Owes (s : Station) (op : Op) : Role → Nat → Prop
  | paid (h0 : s.runsSlot 0 op = true) : Owes s op s.node.role (s.campaign.renouncements - 1)
  | lost (h : s.Loses op) : Owes s op .edge 3
  | stood (h3 : s.completes op = true) : Owes s op .candidate 0
  | reset (hr : op = .reset) : Owes s op .starting 0
  | kept (role : Role) (h0 : s.runsSlot 0 op = false) (hr : op.isReset = false)
      (hl : ¬ s.Loses op) (hc : role = .candidate → s.node.role = .candidate) :
      Owes s op role s.campaign.renouncements

theorem renouncements_spoken (o : Office) :
    o.spoken.campaign.renouncements = o.campaign.renouncements - 1 := by
  unfold Office.spoken
  split
  · rfl
  · have hzero : o.campaign.renouncements = o.campaign.renouncements - 1 := by omega
    split <;> exact hzero

theorem owes_step {s : Station} (h : s.clockwork.InStep) (op : Op) :
    s.Owes op (s.step op).node.role (s.step op).campaign.renouncements := by
  have ht := turns_step h op
  generalize ho : (s.step op).office = o at ht
  have hrole : (s.step op).node.role = o.role := congrArg Office.role ho
  have hcampaign : (s.step op).campaign = o.campaign := congrArg Office.campaign ho
  rw [hrole, hcampaign]
  cases ht with
  | kept h0 h3 hh hr =>
    have hl : ¬ s.Loses op := by
      rintro ⟨-, p, b, hp, -⟩
      exact nomatch hh.symm.trans hp
    exact .kept _ h0 hr hl fun hc => hc
  | spoke h0 =>
    obtain ⟨campaign, -, he⟩ := s.office.spoken_eq
    rw [renouncements_spoken, show s.office.spoken.role = s.node.role by rw [he]; rfl]
    exact .paid h0
  | reset hr => exact .reset hr
  | decided h3 hd =>
    have h0 := not_runsSlot_of_completes h3
    have hr := isReset_of_runsSlot h3
    have hl : ¬ s.Loses op := fun hl => not_isBeaten_of_runsSlot h3 _ hl.2
    cases hd with
    | stand => exact .stood h3
    | wait | reign | stay => exact .kept _ h0 hr hl fun hc => hc
    | wake | promote | recede | join => exact .kept _ h0 hr hl nofun
  | @heeded p _ hh hd =>
    obtain ⟨hp, -⟩ := packet?_of_handled? hh
    have h0 := runsSlot_of_packet? s hp 0
    have hr := isReset_of_packet? hp
    cases hd with
    | nothing hn _ =>
      refine .kept _ h0 hr ?_ fun hc => hc
      rintro ⟨hc, q, b, hq, hb, hy⟩
      cases hh.symm.trans hq
      exact hn b hb hc hy
    | follow hc => exact .kept _ h0 hr (fun hl => hc hl.1) fun hc => hc
    | concede b hc hb hy => exact .lost ⟨hc, p, b, hh, hb, hy⟩
    | release b hb =>
      refine .kept _ h0 hr ?_ Role.released_eq_candidate.1
      rintro ⟨-, q, b', hq, hb', -⟩
      cases hh.symm.trans hq
      exact nomatch hb.symm.trans hb'

theorem owes_of_loses {s : Station} (h : s.clockwork.InStep) {op : Op} (hl : s.Loses op) :
    (s.step op).node.role = .edge ∧ (s.step op).campaign.renouncements = 3 := by
  have hp := hl.2
  have ho := owes_step h op
  generalize (s.step op).node.role = role at ho ⊢
  generalize (s.step op).campaign.renouncements = left at ho ⊢
  cases ho with
  | lost => exact ⟨rfl, rfl⟩
  | paid h0 => exact absurd hp (not_isBeaten_of_runsSlot h0 _)
  | stood h3 => exact absurd hp (not_isBeaten_of_runsSlot h3 _)
  | kept _ _ _ hn => exact absurd hl hn
  | reset hr =>
    obtain ⟨p, b, hq, -⟩ := hp
    rw [hr] at hq
    cases hq

/-- The next messages of a station that abstains are as many renouncements as it owes. -/
theorem nth_speech_of_abstains {s : Station} (h : s.clockwork.InStep) {ops : List Op}
    (ha : s.Abstains ops) :
    ∀ (n : Nat) (e : Speech), (s.speeches ops)[n]? = some e →
      ∃ p, e.packets = [p] ∧ (p.IsRenouncement ↔ n < s.campaign.renouncements) := by
  induction ops generalizing s with
  | nil => simp [speeches]
  | cons op ops ih =>
    obtain ⟨hc, hr, hrest⟩ := ha
    have hpaid : (s.step op).campaign.renouncements =
        s.campaign.renouncements - (s.runsSlot 0 op).toNat := by
      have ho := owes_step h op
      have hc' := hrest.role_ne
      generalize (s.step op).node.role = role at ho hc'
      generalize (s.step op).campaign.renouncements = left at ho ⊢
      cases ho with
      | paid h0 => rw [h0, Bool.toNat_true]
      | kept _ h0 => rw [h0, Bool.toNat_false, Nat.sub_zero]
      | lost hl => exact absurd hl.1 hc
      | stood => exact absurd rfl hc'
      | reset hr' =>
        rw [hr'] at hr
        cases hr
    refine forall_speech_cons (fun h0 => ?_) fun n e he => ?_
    · exact ⟨s.message, sentBy_of_runsSlot h h0, (says_message s).renounces⟩
    · obtain ⟨p, hpackets, hren⟩ := ih (inStep_step h op) hrest n e he
      refine ⟨p, hpackets, ?_⟩
      rw [hren, hpaid]
      omega

def HasLost (s : Station) (ops : List Op) (spoken : Nat) : Prop :=
  ∃ before lost mid, ops = before ++ lost :: mid ∧ (s.run before).Loses lost ∧
    ((s.run before).step lost).Abstains mid ∧
    (((s.run before).step lost).speeches mid).length = spoken

theorem HasLost.append {s : Station} {ops : List Op} {n : Nat} (h : s.HasLost ops n) {op : Op}
    (hr : op.isReset = false) (hc : (s.run (ops ++ [op])).node.role ≠ .candidate) :
    s.HasLost (ops ++ [op]) (n + ((s.run ops).runsSlot 0 op).toNat) := by
  obtain ⟨before, lost, mid, rfl, hl, ha, rfl⟩ := h
  rw [run_append, run_append_cons, ← run_append] at hc
  exact ⟨before, lost, mid ++ [op], by simp, hl, abstains_append ha hr hc,
    by rw [length_speeches_append, run_append_cons]⟩

/-- A station that owes renouncements has lost an election, and owes what is left of three; a
candidate owes none. -/
theorem exists_loss {s : Station} (h : Reachable s) (hs : s.campaign.renouncements = 0)
    (ops : List Op) :
    ((s.run ops).node.role = .candidate → (s.run ops).campaign.renouncements = 0) ∧
      (0 < (s.run ops).campaign.renouncements →
        ∃ n, s.HasLost ops n ∧ n + (s.run ops).campaign.renouncements = 3) := by
  -- the loss is the last one, so each operation is looked at after all before it
  induction ops using List.reverseRecOn with
  | nil => exact ⟨fun _ => hs, fun hp => absurd hs (by exact Nat.ne_of_gt hp)⟩
  | append_singleton ops op ih =>
    obtain ⟨hquiet, hloss⟩ := ih
    have ho := owes_step (h.run ops).inStep op
    have happend (hr : op.isReset = false) {n : Nat} (hl : s.HasLost ops n) :
        ((s.run ops).step op).node.role ≠ .candidate → s.HasLost (ops ++ [op]) _ :=
      fun hc => hl.append hr (s.run_concat ops op ▸ hc)
    rw [run_concat]
    generalize hrole : ((s.run ops).step op).node.role = role at ho happend ⊢
    generalize ((s.run ops).step op).campaign.renouncements = left at ho ⊢
    cases ho with
    | paid h0 =>
      refine ⟨fun hc => by rw [hquiet hc], fun hp => ?_⟩
      obtain ⟨n, hl, hsum⟩ := hloss (by omega)
      have hl' := happend (isReset_of_runsSlot h0) hl fun hc => by
        have hzero := hquiet hc
        omega
      rw [h0, Bool.toNat_true] at hl'
      exact ⟨n + 1, hl', by omega⟩
    | kept _ h0 hr hn hc =>
      refine ⟨fun hc' => hquiet (hc hc'), fun hp => ?_⟩
      obtain ⟨n, hl, hsum⟩ := hloss hp
      have hl' := happend hr hl fun hc' => by
        have hzero := hquiet (hc hc')
        omega
      rw [h0, Bool.toNat_false, Nat.add_zero] at hl'
      exact ⟨n, hl', hsum⟩
    | stood | reset => exact ⟨fun _ => rfl, fun hp => absurd hp (Nat.lt_irrefl 0)⟩
    | lost hl =>
      have habstains : ((s.run ops).step op).Abstains [] := by
        rw [Abstains, hrole]
        nofun
      exact ⟨nofun, fun _ => ⟨0, ⟨ops, op, [], rfl, hl, habstains, rfl⟩, rfl⟩⟩

/-- The protocol of slot zero. Each sends one packet of the station's own, told by what the
station owes, and apart from relayed copies nothing of an election is sent elsewhere. The first
three messages of a candidacy are announcements with the number of neighbors that it began with,
and there are no other announcements. Likewise the first three messages after a lost election
are renouncements, up to a new candidacy or a reset, and there are no other renouncements. -/
theorem slot_zero_protocol {settings : Settings} {receivers : Receivers} {s : Station}
    (hs : Station.start settings receivers = .ok s) :
    (∀ ops op, (s.run ops).runsSlot 0 op = true →
      ∃ p, (s.run ops).sentBy op = [p] ∧ (s.run ops).Says p) ∧
    (∀ ops op p, (s.run ops).relays op = false → p ∈ (s.run ops).sentBy op →
      p.content ≠ .beacon → (s.run ops).runsSlot 0 op = true) ∧
    (∀ before standing mid, (s.run before).Stands standing →
      let entry := (s.run before).step standing
      entry.Persists mid → ∀ (n : Nat) (e : Speech), (entry.speeches mid)[n]? = some e →
        ∃ p, e.packets = [p] ∧ (p.IsAnnouncement ↔ n < 3) ∧
          ∀ b, p.content = .candidacy b → b.direct = entry.campaign.direct) ∧
    (∀ ops op p, (s.run ops).runsSlot 0 op = true → p ∈ (s.run ops).sentBy op →
      p.IsAnnouncement → ∃ n < 3, s.HasStood ops n) ∧
    (∀ before lost mid, (s.run before).Loses lost →
      let fallen := (s.run before).step lost
      fallen.node.role = .edge ∧
        (fallen.Abstains mid → ∀ (n : Nat) (e : Speech), (fallen.speeches mid)[n]? = some e →
          ∃ p, e.packets = [p] ∧ (p.IsRenouncement ↔ n < 3))) ∧
    ∀ ops op p, (s.run ops).runsSlot 0 op = true → p ∈ (s.run ops).sentBy op →
      p.IsRenouncement → ∃ n < 3, s.HasLost ops n := by
  have hreach := Reachable.start hs
  have hi : ∀ ops, (s.run ops).clockwork.InStep := fun ops => (hreach.run ops).inStep
  have hfresh := (start_eq hs).2
  have hspoken : ∀ ops op p, (s.run ops).runsSlot 0 op = true → p ∈ (s.run ops).sentBy op →
      (s.run ops).Says p := by
    intro ops op p h0 hp
    rw [sentBy_of_runsSlot (hi ops) h0, List.mem_singleton] at hp
    exact hp ▸ says_message _
  refine ⟨fun ops op h0 => ⟨_, sentBy_of_runsSlot (hi ops) h0, says_message _⟩,
    fun ops op p hr hp hb => runsSlot_of_mem_sentBy (hi ops) hp hr hb, ?_, ?_, ?_, ?_⟩
  · intro before standing mid hst entry hp
    obtain ⟨hthree, hquiet⟩ := campaign_of_stands (hi before) hst
    have hnth := nth_speech_of_candidate (inStep_step (hi before) standing) hquiet hp
    rwa [hthree] at hnth
  · intro ops op p h0 hp ha
    obtain ⟨-, hc, howed⟩ := (hspoken ops op p h0 hp).announces.1 ha
    have hstart : s.node.role ≠ .candidate := by rw [hfresh]; nofun
    obtain ⟨n, hstood, hrounds⟩ := exists_stand hreach hstart hc
    exact ⟨n, by omega, hstood⟩
  · intro before lost mid hl fallen
    have ho := owes_of_loses (hi before) hl
    refine ⟨ho.1, fun ha => ?_⟩
    have hnth := nth_speech_of_abstains (inStep_step (hi before) lost) ha
    rwa [ho.2] at hnth
  · intro ops op p h0 hp hr
    have howed := (hspoken ops op p h0 hp).renounces.1 hr
    have hstart : s.campaign.renouncements = 0 := by rw [hfresh]; rfl
    obtain ⟨n, hl, hsum⟩ := (exists_loss hreach hstart ops).2 howed
    exact ⟨n, by omega, hl⟩

/-- A station with five neighbors announces itself, loses to a rival with twelve and renounces. -/
theorem slot_zero_protocol_through_defeat :
    let c : Settings := { id := 1, plan := ⟨1, 50, 1, 10⟩ }
    let s := fresh c {}
    let tick : Op := .tick .zero
    let greetings : List Op :=
      [2, 3, 4, 5, 6].map fun id => .receive (fresh { id } {}).beacon (-50) .zero
    let rival : Packet := { sender := 9, content := .candidacy { direct := 12 } }
    let first := List.replicate 2 tick ++ greetings ++ List.replicate 12 tick
    let second := first ++ tick :: .receive rival (-50) .zero :: List.replicate 5 tick
    Station.start c {} = .ok s ∧
      (∃ p, (s.run first).sentBy tick = [p] ∧ (s.run first).Says p ∧ p.IsAnnouncement) ∧
      (∃ n < 3, s.HasStood first n) ∧
      (∃ p, (s.run second).sentBy tick = [p] ∧ (s.run second).Says p ∧ p.IsRenouncement) ∧
      ∃ n < 3, s.HasLost second n := by
  intro c s tick greetings rival first second
  have hs : Station.start c {} = .ok s := rfl
  obtain ⟨hfirst, hstands, hsecond, howes⟩ :
      (s.run first).runsSlot 0 tick = true ∧
        ((s.run first).campaign.renouncements = 0 ∧ (s.run first).node.role = .candidate ∧
          0 < (s.run first).campaign.rounds) ∧
        (s.run second).runsSlot 0 tick = true ∧ 0 < (s.run second).campaign.renouncements := by
    decide +kernel
  obtain ⟨hspoke, -, -, hstood, -, hlost⟩ := slot_zero_protocol hs
  obtain ⟨p, hp, hptext⟩ := hspoke first tick hfirst
  obtain ⟨q, hq, hqtext⟩ := hspoke second tick hsecond
  have hannounces : p.IsAnnouncement := hptext.announces.2 hstands
  have hrenounces : q.IsRenouncement := hqtext.renounces.2 howes
  exact ⟨hs, ⟨p, hp, hptext, hannounces⟩,
    hstood first tick p hfirst (hp ▸ List.mem_singleton_self p) hannounces,
    ⟨q, hq, hqtext, hrenounces⟩,
    hlost second tick q hsecond (hq ▸ List.mem_singleton_self q) hrenounces⟩

end Station
end ClusterMesh
