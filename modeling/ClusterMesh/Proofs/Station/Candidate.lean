import ClusterMesh.Proofs.Station.Steps

/-! What an operation makes of a candidate. The number of neighbors that it announces stays
as it is for as long as it is a candidate. -/
namespace ClusterMesh.Station

inductive Campaigns (s : Station) (op : Op) : Office → Prop
  | spoke (h0 : s.runsSlot 0 op = true) : Campaigns s op s.office.spoken
  | waited (h3 : s.completes op = true)
      (hd : ¬ (s.campaign.rounds = 0 ∧ s.campaign.lastRound.succSat < s.node.cycle.succSat)) :
      Campaigns s op { s.office with cycle := s.node.cycle.succSat }
  | won (h3 : s.completes op = true)
      (hd : s.campaign.rounds = 0 ∧ s.campaign.lastRound.succSat < s.node.cycle.succSat) :
      Campaigns s op
        { Office.turn { s.office with cycle := s.node.cycle.succSat } .head with head := s.id }
  | kept (head : NodeId) (h0 : s.runsSlot 0 op = false) (h3 : s.completes op = false)
      (hr : op.isReset = false)
      (hh : ∀ p b, s.handled? op = some p → p.content = .candidacy b →
        ¬ s.office.YieldsTo p.sender b.direct) : Campaigns s op { s.office with head }
  | lost {p : Packet} (b : Ballot) (hh : s.handled? op = some p) (hp : p.content = .candidacy b)
      (hy : s.office.YieldsTo p.sender b.direct) : Campaigns s op (s.office.concede p.sender)
  | reset (hr : op = .reset) : Campaigns s op (freshOffice s.office)

theorem campaigns_step {s : Station} (h : s.clockwork.InStep) (hc : s.node.role = .candidate)
    (op : Op) : s.Campaigns op (s.step op).office := by
  have hrole : s.office.role = .candidate := hc
  have ht := turns_step h op
  generalize (s.step op).office = o at ht
  cases ht with
  | kept h0 h3 hh hr => exact .kept s.node.head h0 h3 hr fun p b hp => by simp [hh] at hp
  | spoke h0 => exact .spoke h0
  | reset hr => exact .reset hr
  | decided h3 hd =>
    cases hd with
    | promote hr hd => exact .won h3 hd
    | wait hr hd => exact .waited h3 hd
    | wake hr => exact nomatch hr.symm.trans hrole
    | reign hr => exact nomatch hr.symm.trans hrole
    | recede hr => exact nomatch hr.symm.trans hrole
    | join hr hh => exact nomatch hr.symm.trans hrole
    | stand hr hh direct => simp [hrole] at hr
    | stay hr => simp [hrole] at hr
  | @heeded p o hh ho =>
    obtain ⟨hp, -⟩ := packet?_of_handled? hh
    have h0 := runsSlot_of_packet? s hp
    have hr := isReset_of_packet? hp
    cases ho with
    | nothing hn hr' =>
      refine .kept s.node.head (h0 0) (h0 _) hr fun q b hq hb => ?_
      cases hh.symm.trans hq
      exact hn b hb hrole
    | follow hn => exact absurd hrole hn
    | concede b hr' hb hy => exact .lost b hh hb hy
    | release b hb hhead =>
      have hrel : s.office.release = { s.office with head := nobody } :=
        Office.turn_self (by rw [hrole]; rfl)
      rw [hrel]
      refine .kept nobody (h0 0) (h0 _) hr fun q b' hq hb' => ?_
      cases hh.symm.trans hq
      exact nomatch hb.symm.trans hb'

/-- A candidate in every state of the run. -/
def Persists (s : Station) : List Op → Prop
  | [] => s.node.role = .candidate
  | op :: ops => s.node.role = .candidate ∧ Persists (s.step op) ops

theorem persists_append {s : Station} {u v : List Op} :
    s.Persists (u ++ v) ↔ s.Persists u ∧ (s.run u).Persists v := by
  induction u generalizing s with
  | nil =>
    refine ⟨fun h => ⟨?_, h⟩, fun h => h.2⟩
    cases v with
    | nil => exact h
    | cons op v => exact h.1
  | cons op u ih => exact (and_congr_right fun _ => ih).trans and_assoc.symm

theorem Persists.role_eq {s : Station} {ops : List Op} (h : s.Persists ops) :
    s.node.role = .candidate := by
  cases ops with
  | nil => exact h
  | cons op ops => exact h.1

theorem Persists.role_run {s : Station} {ops : List Op} (h : s.Persists ops) :
    (s.run ops).node.role = .candidate := by
  induction ops generalizing s with
  | nil => exact h
  | cons op ops ih => exact ih h.2

def Candidacy (s t : Station) : Prop := ∃ ops, s.Persists ops ∧ s.run ops = t

theorem direct_spoken (o : Office) : o.spoken.campaign.direct = o.campaign.direct := by
  obtain ⟨campaign, hd, he⟩ := o.spoken_eq
  rw [he]
  exact hd

/-- A candidate that stays one announces what it announced. -/
theorem direct_step_of_candidate {s : Station} (h : s.clockwork.InStep)
    (hc : s.node.role = .candidate) {op : Op} (hr : (s.step op).node.role = .candidate) :
    (s.step op).campaign.direct = s.campaign.direct := by
  have hs := campaigns_step h hc op
  generalize ho : (s.step op).office = o at hs
  have hrole : o.role = .candidate := ho ▸ hr
  have hdirect : (s.step op).campaign.direct = o.campaign.direct :=
    congrArg (fun o => o.campaign.direct) ho
  rw [hdirect]
  cases hs with
  | spoke => exact direct_spoken s.office
  | waited | kept => rfl
  | won | lost | reset => cases hrole

theorem Persists.frozen {s : Station} {ops : List Op} (hi : s.clockwork.InStep)
    (h : s.Persists ops) :
    (s.run ops).clockwork.InStep ∧ (s.run ops).id = s.id ∧
      (s.run ops).campaign.direct = s.campaign.direct := by
  induction ops generalizing s with
  | nil => exact ⟨hi, rfl, rfl⟩
  | cons op ops ih =>
    obtain ⟨hi', hid, hd⟩ := ih (inStep_step hi op) h.2
    exact ⟨hi', hid.trans (id_step hi op),
      hd.trans (direct_step_of_candidate hi h.1 (Persists.role_eq h.2))⟩

/-- A reset ends a candidacy. -/
theorem Persists.noReset {s : Station} {ops : List Op} (h : s.Persists ops) :
    ∀ op ∈ ops, op.isReset = false := by
  induction ops generalizing s with
  | nil => simp
  | cons op ops ih =>
    intro op' hm
    obtain rfl | hm := List.mem_cons.1 hm
    · cases op' with
      | reset => exact nomatch Persists.role_eq h.2
      | _ => rfl
    · exact ih h.2 op' hm

end ClusterMesh.Station
