import Mathlib
import ClusterMesh.Proofs.Ballot
import ClusterMesh.Proofs.Fleet.Basic
import ClusterMesh.Proofs.Station.Candidate

/-! Candidates that hear each other's announcements, directly or through relays, in any order
and any number of times. All rank each other by what was announced, so the best of them stays
and whoever has heard it gives up. -/
namespace ClusterMesh
open Station (Op)

namespace Station

/-- An announcement of the candidacy that a station is in, as the station sent or will send
it, or as others relay it. -/
inductive Announces (s : Station) : Packet → Prop
  | sent {t : Station} (hi : t.clockwork.InStep) (h : s.Candidacy t ∨ t.Candidacy s) :
      Announces s t.announcement
  | relayed {p q : Packet} (h : Announces s p) (relay : Station) (hc : relay.copyOf p = .ok q) :
      Announces s q

theorem Announces.says {s : Station} (hs : s.clockwork.InStep) {p : Packet} (h : s.Announces p) :
    p.sender = s.id ∧ ∃ b, p.content = .candidacy b ∧ b.direct = s.campaign.direct := by
  induction h with
  | @sent t hi h =>
    have hsame : t.id = s.id ∧ t.campaign.direct = s.campaign.direct := by
      obtain ⟨ops, h, rfl⟩ | ⟨ops, h, rfl⟩ := h
      · exact (h.frozen hs).2
      · have hf := (h.frozen hi).2
        exact ⟨hf.1.symm, hf.2.symm⟩
    exact ⟨hsame.1, t.ownBallot, rfl, (Ballot.direct_addHop _ _ _).trans hsame.2⟩
  | relayed h relay hc ih =>
    obtain ⟨hid, b, hb, hd⟩ := ih
    obtain ⟨-, -, -, -, hq⟩ := copyOf_eq_ok hc
    rw [hq]
    refine ⟨hid, ?_⟩
    simp only [countHop, hb]
    exact ⟨_, rfl, (Ballot.direct_addHop _ _ _).trans hd⟩

def Outranks (s t : Station) : Prop := t.office.YieldsTo s.id s.campaign.direct

structure LosesTo (s : Station) (op : Op) (winner : NodeId) : Prop where
  before : s.node.role = .candidate
  role : (s.step op).node.role = .edge
  head : (s.step op).node.head = winner
  rounds : (s.step op).campaign.rounds = 0
  renouncements : (s.step op).campaign.renouncements = 3

structure Entered (s t : Station) : Prop where
  inStep : t.clockwork.InStep
  id_eq : t.id = s.id
  direct_eq : t.campaign.direct = s.campaign.direct

theorem Entered.step {s t : Station} (h : s.Entered t) {op : Op} (hr : op.isReset = false)
    (h3 : t.completes op = false) : s.Entered (t.step op) := by
  refine ⟨inStep_step h.inStep op, (id_step h.inStep op).trans h.id_eq, ?_⟩
  have ht := turns_step h.inStep op
  have hd : (t.step op).office.campaign.direct = t.campaign.direct := by
    generalize (t.step op).office = o at ht
    cases ht with
    | kept => rfl
    | spoke => exact direct_spoken t.office
    | decided h3' => exact nomatch h3'.symm.trans h3
    | heeded _ ho => cases ho <;> rfl
    | reset hr' =>
      rw [hr'] at hr
      cases hr
  exact hd.trans h.direct_eq

/-- Who is no candidate does not become one before the cycle ends. -/
theorem role_ne_step {s : Station} (hi : s.clockwork.InStep) (hn : s.node.role ≠ .candidate)
    {op : Op} (h3 : s.completes op = false) : (s.step op).node.role ≠ .candidate := by
  have ht := turns_step hi op
  change (s.step op).office.role ≠ .candidate
  generalize (s.step op).office = o at ht
  have hs : s.office.role ≠ .candidate := hn
  cases ht with
  | kept => exact hn
  | spoke =>
    obtain ⟨campaign, -, he⟩ := s.office.spoken_eq
    rw [he]
    exact hs
  | decided h3' => exact nomatch h3'.symm.trans h3
  | heeded _ ho =>
    cases ho with
    | nothing | follow => exact hs
    | concede => simp [Office.concede, Office.turn]
    | release => exact fun hr => hs (Role.released_eq_candidate.1 hr)
  | reset => simp [freshOffice]

end Station

namespace Fleet
variable {ι : Type}

/-- The moves of a contest among the stations of `entry`: no cycle ends, nobody is reset, and
of elections nothing is heard but announcements of those candidacies. -/
structure Contest (entry fleet : Fleet ι) (i : ι) (op : Op) : Prop where
  noReset : op.isReset = false
  midCycle : (fleet i).completes op = false
  hears : ∀ p, op.packet? = some p → p.content = .beacon ∨ ∃ k, (entry k).Announces p

def HasHeard [DecidableEq ι] (entry : Fleet ι) (k j : ι) (moves : List (ι × Op)) : Prop :=
  ∃ before op after p, moves = before ++ (j, op) :: after ∧
    (entry.play before j).handled? op = some p ∧ (entry k).Announces p

/-- A candidate in a contest stays one and has heard of nobody better, or it loses to a
better one. -/
theorem contest_move {entry fleet : Fleet ι} (hi : ∀ i, (entry i).clockwork.InStep) {j : ι}
    (he : (entry j).Entered (fleet j)) (hc : (fleet j).node.role = .candidate) {op : Op}
    (hop : Contest entry fleet j op) :
    (((fleet j).step op).node.role = .candidate ∧ ∀ k p, (fleet j).handled? op = some p →
        (entry k).Announces p → ¬ (entry k).Outranks (entry j)) ∨
      ∃ k, (entry k).Outranks (entry j) ∧ (fleet j).LosesTo op (entry k).id := by
  have hyields : ∀ rival direct,
      (fleet j).office.YieldsTo rival direct ↔ (entry j).office.YieldsTo rival direct := by
    intro rival direct
    change (fleet j).campaign.direct < direct ∨
      direct = (fleet j).campaign.direct ∧ rival < (fleet j).id ↔ _
    rw [he.direct_eq, he.id_eq]
    rfl
  have hs := Station.campaigns_step he.inStep hc op
  generalize ho : ((fleet j).step op).office = o at hs
  have hrole : ((fleet j).step op).node.role = o.role := congrArg Office.role ho
  cases hs with
  | spoke h0 =>
    have hsame : (fleet j).office.spoken.role = .candidate := by
      obtain ⟨campaign, -, he⟩ := (fleet j).office.spoken_eq
      rw [he]
      exact hc
    refine .inl ⟨hrole.trans hsame, fun k p hh _ => ?_⟩
    have hq := Station.runsSlot_of_packet? (fleet j) (Station.packet?_of_handled? hh).1 0
    exact nomatch h0.symm.trans hq
  | waited h3 | won h3 => exact nomatch h3.symm.trans hop.midCycle
  | kept head h0 h3 hr hn =>
    refine .inl ⟨hrole.trans hc, fun k p hh ha => ?_⟩
    obtain ⟨hid, b, hb, hd⟩ := ha.says (hi k)
    have hy := hn p b hh hb
    rw [hid, hd, hyields] at hy
    exact hy
  | @lost p b hh hb hy =>
    obtain hbeacon | ⟨k, ha⟩ := hop.hears p (Station.packet?_of_handled? hh).1
    · exact nomatch hb.symm.trans hbeacon
    · obtain ⟨hid, b', hb', hd⟩ := ha.says (hi k)
      cases hb.symm.trans hb'
      rw [hid, hd, hyields] at hy
      refine .inr ⟨k, hy, hc, hrole, ?_, ?_, ?_⟩
      · exact (congrArg Office.head ho).trans hid
      · exact congrArg (fun o => o.campaign.rounds) ho
      · exact congrArg (fun o => o.campaign.renouncements) ho
  | reset hr =>
    have hn := hop.noReset
    rw [hr] at hn
    cases hn

/-- Of finitely many stations with distinct names one outranks all others. -/
theorem exists_best [Finite ι] [Nonempty ι] {entry : Fleet ι}
    (hinj : Function.Injective fun i => (entry i).id) :
    ∃ best, ∀ j, j ≠ best → (entry best).Outranks (entry j) := by
  let rank (i : ι) : Nat ×ₗ Natᵒᵈ :=
    toLex ((entry i).campaign.direct.toNat, OrderDual.toDual (entry i).id.toNat)
  obtain ⟨best, hbest⟩ := Finite.exists_max rank
  refine ⟨best, fun j hj => ?_⟩
  have hle := Prod.Lex.le_iff.1 (hbest j)
  have hid : (entry best).id.toNat ≠ (entry j).id.toNat :=
    fun h => hj (hinj (UInt32.toNat.inj h)).symm
  obtain hlt | ⟨heq, hge⟩ := hle
  · exact .inl (UInt32.lt_iff_toNat_lt.2 hlt)
  · have hge : (entry best).id.toNat ≤ (entry j).id.toNat := hge
    exact .inr ⟨UInt32.toNat.inj heq.symm, UInt32.lt_iff_toNat_lt.2 (lt_of_le_of_ne hge hid)⟩

section contest
variable [DecidableEq ι] {entry : Fleet ι} (hi : ∀ i, (entry i).clockwork.InStep)
include hi

theorem entered_play {moves : List (ι × Op)} (hm : entry.Follows (Contest entry) moves) (j : ι) :
    (entry j).Entered (entry.play moves j) :=
  holds_play (fun j s => (entry j).Entered s) (fun _ h i _ hop => (h i).step hop.noReset hop.midCycle)
    (fun i => ⟨hi i, rfl, rfl⟩) hm j

theorem best_stays (hc : ∀ i, (entry i).node.role = .candidate) {best : ι}
    (hbest : ∀ j, j ≠ best → (entry best).Outranks (entry j)) {moves : List (ι × Op)}
    (hm : entry.Follows (Contest entry) moves) : (entry.play moves best).node.role = .candidate := by
  -- one that outranks the best would be outranked by it, and the order is strict
  have hno : ∀ k, ¬ (entry k).Outranks (entry best) := by
    intro k hk
    have hasymm : ∀ {d e : UInt32}, d < e → ¬ e < d := fun h h' => UInt32.lt_asymm h h'
    by_cases he : k = best
    · subst he
      obtain hlt | ⟨-, hlt⟩ := hk <;> exact hasymm hlt hlt
    · obtain hlt | ⟨heq, hlt⟩ := hk <;> obtain hlt' | ⟨heq', hlt'⟩ := hbest k he
      · exact hasymm hlt hlt'
      · exact hasymm hlt (heq' ▸ hlt)
      · exact hasymm hlt' (heq ▸ hlt')
      · exact hasymm hlt hlt'
  let P (i : ι) (s : Station) : Prop :=
    (entry i).Entered s ∧ (i = best → s.node.role = .candidate)
  have hstep : ∀ fleet : Fleet ι, (∀ i, P i (fleet i)) → ∀ i op, Contest entry fleet i op →
      P i ((fleet i).step op) := by
    intro fleet h i op hop
    refine ⟨(h i).1.step hop.noReset hop.midCycle, ?_⟩
    rintro rfl
    obtain ⟨hr, -⟩ | ⟨k, hk, -⟩ := contest_move hi (h i).1 ((h i).2 rfl) hop
    · exact hr
    · exact absurd hk (hno k)
  exact (holds_play P hstep (fun i => ⟨⟨hi i, rfl, rfl⟩, fun _ => hc i⟩) hm best).2 rfl

theorem loser_stays_out {before after : List (ι × Op)}
    (hm : entry.Follows (Contest entry) (before ++ after)) {j : ι}
    (hj : (entry.play before j).node.role ≠ .candidate) :
    (entry.play (before ++ after) j).node.role ≠ .candidate := by
  obtain ⟨hb, ha⟩ := follows_append.1 hm
  let P (i : ι) (s : Station) : Prop :=
    s.clockwork.InStep ∧ (i = j → s.node.role ≠ .candidate)
  have hstep : ∀ fleet : Fleet ι, (∀ i, P i (fleet i)) → ∀ i op, Contest entry fleet i op →
      P i ((fleet i).step op) := by
    intro fleet h i op hop
    exact ⟨Station.inStep_step (h i).1 op,
      fun he => Station.role_ne_step (h i).1 ((h i).2 he) hop.midCycle⟩
  rw [play_append]
  refine (holds_play P hstep (fun i => ⟨(entered_play hi hb i).inStep, ?_⟩) ha j).2 rfl
  rintro rfl
  exact hj

/-- Whoever acts on an announcement of one who outranks it has lost by then. -/
theorem out_of_hasHeard {moves : List (ι × Op)} (hm : entry.Follows (Contest entry) moves)
    {k j : ι} (hk : (entry k).Outranks (entry j)) (hh : HasHeard entry k j moves) :
    (entry.play moves j).node.role ≠ .candidate := by
  obtain ⟨before, op, after, p, rfl, hp, ha⟩ := hh
  have hsplit : before ++ (j, op) :: after = (before ++ [(j, op)]) ++ after := by simp
  rw [hsplit] at hm ⊢
  refine loser_stays_out hi hm ?_
  obtain ⟨hb, hop, -⟩ := follows_append.1 (follows_append.1 hm).1
  have he := entered_play hi hb j
  rw [play_append]
  change (act _ j op j).node.role ≠ .candidate
  rw [act_self]
  by_cases hc : (entry.play before j).node.role = .candidate
  · obtain ⟨-, hn⟩ | ⟨l, -, hl⟩ := contest_move hi he hc hop
    · exact absurd hk (hn k p hp ha)
    · rw [hl.role]
      nofun
  · exact Station.role_ne_step he.inStep hc hop.midCycle

/-- A member that is no candidate any more lost in one of the moves, to one who outranks it. -/
theorem loses_of_out (hc : ∀ i, (entry i).node.role = .candidate) {moves : List (ι × Op)}
    (hm : entry.Follows (Contest entry) moves) {j : ι}
    (hj : (entry.play moves j).node.role ≠ .candidate) :
    ∃ before op after k, moves = before ++ (j, op) :: after ∧
      (entry k).Outranks (entry j) ∧ (entry.play before j).LosesTo op (entry k).id := by
  -- the move that put `j` out is the last one, or one of those before it
  induction moves using List.reverseRecOn with
  | nil => exact absurd (hc j) hj
  | append_singleton moves move ih =>
    obtain ⟨i, op⟩ := move
    obtain ⟨hm', hop, -⟩ := follows_append.1 hm
    by_cases hr : (entry.play moves j).node.role = .candidate
    · rw [play_append] at hj
      have hij : j = i := by
        by_contra hne
        exact hj ((congrArg (fun s => s.node.role) (act_of_ne _ hne op)).trans hr)
      subst hij
      change (act _ j op j).node.role ≠ .candidate at hj
      rw [act_self] at hj
      obtain ⟨hs, -⟩ | ⟨k, hk, hl⟩ := contest_move hi (entered_play hi hm' j) hr hop
      · exact absurd hs hj
      · exact ⟨moves, op, [], k, rfl, hk, hl⟩
    · obtain ⟨before, op', after, k, rfl, hk, hl⟩ := ih hm' hr
      exact ⟨before, op', after ++ [(i, op)], k, by simp, hk, hl⟩

end contest

/-- In a contest of finitely many candidates, all in step as every reachable station is, one
that outranks all others never loses, and once all others have acted on an announcement of it,
it is the only one left. Whoever is out lost in one move to a better one, became an edge that
follows it, and has renouncements to send. Of two candidates of which the worse one has heard
the better one, the worse one has so lost to it. -/
theorem contest_settles [Finite ι] [Nonempty ι] [DecidableEq ι] {entry : Fleet ι}
    (hi : ∀ i, (entry i).clockwork.InStep) (hc : ∀ i, (entry i).node.role = .candidate)
    (hinj : Function.Injective fun i => (entry i).id) {moves : List (ι × Op)}
    (hm : entry.Follows (Contest entry) moves) :
    ∃ best, (∀ j, j ≠ best → (entry best).Outranks (entry j)) ∧
      (∀ before after, moves = before ++ after →
        (entry.play before best).node.role = .candidate) ∧
      ((∀ j, j ≠ best → HasHeard entry best j moves) →
        ∀ j, (entry.play moves j).node.role = .candidate ↔ j = best) ∧
      (∀ j, (entry.play moves j).node.role ≠ .candidate →
        ∃ before op after k, moves = before ++ (j, op) :: after ∧
          (entry k).Outranks (entry j) ∧ (entry.play before j).LosesTo op (entry k).id) ∧
      ∀ j, j ≠ best → (∀ k, k = best ∨ k = j) → HasHeard entry best j moves →
        (entry.play moves j).node.role ≠ .candidate ∧
          ∃ before op after, moves = before ++ (j, op) :: after ∧
            (entry.play before j).LosesTo op (entry best).id := by
  obtain ⟨best, hbest⟩ := exists_best hinj
  have hout : ∀ j, j ≠ best → HasHeard entry best j moves →
      (entry.play moves j).node.role ≠ .candidate :=
    fun j hj => out_of_hasHeard hi hm (hbest j hj)
  refine ⟨best, hbest, ?_, ?_, fun j hj => loses_of_out hi hc hm hj, ?_⟩
  · rintro before after rfl
    exact best_stays hi hc hbest (follows_append.1 hm).1
  · intro hall j
    constructor
    · intro hj
      by_contra hne
      exact hout j hne (hall j hne) hj
    · rintro rfl
      exact best_stays hi hc hbest hm
  · intro j hj htwo hh
    have hr := hout j hj hh
    obtain ⟨before, op, after, k, he, hk, hl⟩ := loses_of_out hi hc hm hr
    have hkb : k = best := by
      refine (htwo k).resolve_right ?_
      rintro rfl
      obtain hlt | ⟨-, hlt⟩ := hk <;> exact UInt32.lt_irrefl _ hlt
    subst hkb
    exact ⟨hr, before, op, after, he, hl⟩

/-- Two candidates with as many neighbors, of which the one with the higher name hears the
other. -/
theorem contest_settles_tie :
    let entry : Fleet Bool := fun i =>
      let s := Station.fresh { id := if i then 2 else 1 } {}
      { s with
        node := { s.node with role := .candidate }
        campaign := { rounds := 3, direct := 5 }
        phase := .discovery
        cycle := { s.cycle with running := true } }
    let moves := [(true, .receive (entry false).announcement (-60) .zero)]
    (∀ i, (entry i).clockwork.InStep) ∧ (∀ i, (entry i).node.role = .candidate) ∧
      Function.Injective (fun i => (entry i).id) ∧ entry.Follows (Contest entry) moves ∧
      HasHeard entry false true moves ∧
      ∀ j, (entry.play moves j).node.role = .candidate ↔ j = false := by
  intro entry moves
  have hi : ∀ i, (entry i).clockwork.InStep := by
    intro i
    cases i <;> exact ⟨rfl, rfl, iff_of_true rfl rfl⟩
  have hc : ∀ i, (entry i).node.role = .candidate := by
    intro i
    cases i <;> rfl
  have hinj : Function.Injective fun i => (entry i).id := by decide
  have ha : (entry false).Announces (entry false).announcement :=
    .sent (hi false) (.inl ⟨[], hc false, rfl⟩)
  have hm : entry.Follows (Contest entry) moves := by
    refine ⟨⟨rfl, rfl, fun p hp => .inr ⟨false, ?_⟩⟩, trivial⟩
    cases hp
    exact ha
  have hh : HasHeard entry false true moves := by
    refine ⟨[], _, [], _, rfl, Option.filter_eq_some_iff.2 ⟨rfl, ?_⟩, ha⟩
    decide
  refine ⟨hi, hc, hinj, hm, hh, ?_⟩
  obtain ⟨best, hbest, -, hleft, -⟩ := contest_settles hi hc hinj hm
  cases best with
  | true =>
    obtain hlt | ⟨-, hlt⟩ := hbest false (by decide)
    · exact absurd hlt (by decide)
    · exact absurd hlt (by decide)
  | false =>
    refine hleft fun j hj => ?_
    cases j with
    | true => exact hh
    | false => exact absurd rfl hj

end Fleet
end ClusterMesh
