import ClusterMesh.Proofs.Station.Acquaintance
import ClusterMesh.Proofs.Station.Relaying
import ClusterMesh.Proofs.Survey.Heard

/-! When a station has heard of its neighbors. It never hears of itself, whatever comes back to it.
A neighbor that is direct stays direct until it is forgotten, and is refreshed only by what it puts
on the air itself. Any other one is refreshed by what it sent through others as well. -/
namespace ClusterMesh.Station
variable {s : Station} {op : Op} {id : NodeId}

/-- An operation refreshes the neighbor that put the packet on the air which the station learns
from, and the sender of the packet unless it is direct. -/
def Refreshes (s : Station) (op : Op) (id : NodeId) : Prop :=
  ∃ p, s.observes? op = some p ∧ (p.transmitter = id ∨ p.sender = id ∧ s.hops? id ≠ some 1)

/-! ## One operation -/

structure KnowsOthers (s : Station) : Prop where
  roster : s.seen? s.id = none
  heard : s.survey.heard.get? s.id = none

theorem KnowsOthers.step (h : s.KnowsOthers) (hi : s.clockwork.InStep) (op : Op) :
    (s.step op).KnowsOthers where
  roster := by
    have hs := sees_step hi op s.id
    rw [id_step hi]
    generalize (s.step op).seen? s.id = x at hs
    cases hs with
    | kept => exact h.roster
    | heard ho ht => exact absurd ht (transmitter_ne_of_observes? ho)
    | told ho hs ht hown => exact absurd rfl hown
    | forgotten | refused => rfl
  heard := by
    have ht := revises_step hi op
    rw [id_step hi]
    generalize (s.step op).node.roster = r at ht
    generalize (s.step op).survey.heard = v at ht
    cases ht with
    | kept => exact h.heard
    | @learned p rssi t ho hnode hsurvey =>
      have htransmitter := transmitter_ne_of_observes? ho
      have hname : t.id = s.id := congrArg Node.id hnode
      rw [survey_observe rssi (hname ▸ htransmitter), hsurvey]
      rw [Survey.get?_note_of_ne _ htransmitter]
      exact h.heard
    | cleaned keep =>
      rw [Table.get?_filter, h.heard]
      rfl
    | cleared => rfl

/-- Nothing makes a direct neighbor more distant. -/
theorem direct_step (hi : s.clockwork.InStep) (h : s.hops? id = some 1)
    (hf : ¬ s.Forgets op id) : (s.step op).hops? id = some 1 := by
  have hs := sees_step hi op id
  rw [hops?_eq]
  generalize (s.step op).seen? id = x at hs
  cases hs with
  | kept => rwa [← hops?_eq]
  | forgotten ho hf' => exact absurd hf' hf
  | heard => rfl
  | told ho hs ht hown hd => exact absurd h hd
  | refused ho hn =>
    rw [hops?_eq, hn] at h
    cases h

theorem forgotten_step (hi : s.clockwork.InStep) (hf : s.Forgets op id) :
    (s.step op).node.roster.get? id = none := by
  have ht := revises_step hi op
  generalize (s.step op).node.roster = r at ht
  generalize (s.step op).survey.heard = v at ht
  obtain rfl | ⟨hc, m, hm, hage⟩ := hf
  · cases ht with
    | kept ho hc hr => cases hr
    | learned ho => cases ho
    | cleaned keep hc => cases hc
    | cleared => rfl
  · cases ht with
    | kept ho hc' =>
      rw [hc] at hc'
      cases hc'
    | learned ho =>
      rw [observes?_of_completes hc] at ho
      cases ho
    | cleaned keep =>
      rw [get?_prune_advanceCycle, hm, Option.filter_some, if_neg]
      rw [decide_eq_true_eq]
      exact Nat.not_le.2 hage
    | cleared => rfl

/-! ## Runs -/

theorem direct_run (hi : s.clockwork.InStep) {ops : List Op} (h : s.hops? id = some 1)
    (hf : ∀ before op after, ops = before ++ op :: after → ¬ (s.run before).Forgets op id) :
    (s.run ops).hops? id = some 1 := by
  induction ops generalizing s with
  | nil => exact h
  | cons op ops ih =>
    refine ih (inStep_step hi op) (direct_step hi h (hf [] op ops rfl)) ?_
    intro before op' after heq
    exact hf (op :: before) op' after (congrArg (op :: ·) heq)

def Refreshed (s : Station) (id : NodeId) : List Op → List Op → Op → List Op → Prop :=
  Latest fun before op => (s.run before).Refreshes op id

theorem KnowsOthers.run (h : s.KnowsOthers) (hi : s.clockwork.InStep) (ops : List Op) :
    (s.run ops).KnowsOthers := by
  induction ops generalizing s with
  | nil => exact h
  | cons op ops ih => exact ih (h.step hi op) (inStep_step hi op)

/-- A neighbor was heard of last in the cycle in which it was last refreshed. -/
theorem refreshed_run (hr : s.Reachable) (hk : s.KnowsOthers) (hn : s.seen? id = none)
    {ops : List Op} {hops : UInt8} {cycle : UInt32}
    (h : (s.run ops).seen? id = some (hops, cycle)) :
    ∃ before op after, s.Refreshed id ops before op after ∧
      cycle = (s.run before).node.cycle := by
  induction ops using List.reverseRecOn generalizing hops cycle with
  | nil =>
    rw [run, List.foldl_nil, hn] at h
    cases h
  | append_singleton ops op ih =>
    have hi := (hr.run ops).inStep
    have hs := sees_step hi op id
    rw [run_append] at h
    change ((s.run ops).step op).seen? id = _ at h
    rw [h] at hs
    generalize hx : some (hops, cycle) = x at hs
    cases hs with
    | kept hkept =>
      obtain ⟨before, op', after, hrefreshed, hcycle⟩ := ih hx.symm
      refine ⟨before, op', after ++ [op], hrefreshed.concat ?_, hcycle⟩
      rintro ⟨p, ho, ht | ⟨hsent, hd⟩⟩
      · exact (hkept p ho).1 ht.symm
      · obtain rfl | hd' := (hkept p ho).2 hsent.symm
        · rw [(hk.run hr.inStep ops).roster] at hx
          cases hx
        · exact hd hd'
    | heard ho ht =>
      cases hx
      exact ⟨ops, op, [], latest_concat ⟨_, ho, .inl ht⟩, rfl⟩
    | told ho hs ht hown hd =>
      cases hx
      exact ⟨ops, op, [], latest_concat ⟨_, ho, .inr ⟨hs, hd⟩⟩, rfl⟩
    | forgotten | refused => cases hx

theorem knowsOthers_fresh (settings : Settings) (receivers : Receivers) :
    (fresh settings receivers).KnowsOthers := ⟨rfl, rfl⟩

/-- However a station that has been started is run, it never knows itself. A neighbor at distance
one stays there until a reset or until it is pruned, whatever else comes in of it. And each neighbor
was heard of last in the cycle of the latest packet that it put on the air itself, or sent while it
was not direct. -/
theorem neighbors_follow_sightings {settings : Settings} {receivers : Receivers} {s : Station}
    (hs : Station.start settings receivers = .ok s) (ops : List Op) :
    (s.run ops).id = settings.id ∧
    (s.run ops).node.roster.get? settings.id = none ∧
    (s.run ops).survey.heard.get? settings.id = none ∧
    (∀ id op, (s.run ops).Forgets op id →
      ((s.run ops).step op).node.roster.get? id = none) ∧
    (∀ id m more, (s.run ops).node.roster.get? id = some m → m.hops = 1 →
      (∀ before op after, more = before ++ op :: after →
        ¬ (s.run (ops ++ before)).Forgets op id) →
      ∃ m', (s.run (ops ++ more)).node.roster.get? id = some m' ∧ m'.hops = 1) ∧
    (∀ id m, (s.run ops).node.roster.get? id = some m → ∃ before op after,
      s.Refreshed id ops before op after ∧ m.lastSeen = (s.run before).node.cycle) := by
  have hr : s.Reachable := .start hs
  have hi := (hr.run ops).inStep
  obtain ⟨-, rfl⟩ := start_eq hs
  have hk := knowsOthers_fresh settings receivers
  have hid : ((fresh settings receivers).run ops).id = settings.id := id_run hr.inStep ops
  obtain ⟨hroster, hheard⟩ := hk.run hr.inStep ops
  rw [hid] at hroster hheard
  refine ⟨hid, Option.map_eq_none_iff.1 hroster, hheard, fun id op => forgotten_step hi,
    fun id m more hm h1 hf => ?_, fun id m hm => ?_⟩
  · have hd : ((fresh settings receivers).run ops).hops? id = some 1 := by
      rw [hops?, hm, Option.map_some, h1]
    simp only [run_append] at hf ⊢
    exact Option.map_eq_some_iff.1 (direct_run hi hd hf)
  · have hseen : ((fresh settings receivers).run ops).seen? id = some (m.hops, m.lastSeen) := by
      rw [seen?, hm, Option.map_some]
    exact refreshed_run hr hk rfl hseen

/-- Node seven was heard itself in the first cycle, and through node eight in the second one, which
leaves it direct and does not refresh it. -/
theorem neighbors_follow_sightings_relayed :
    let c : Settings := { id := 1, plan := ⟨1, 50, 1, 10⟩ }
    let relayed : Packet := { sender := 7, path := (Bounded.empty.push? 8).getD .empty }
    let s := fresh c {}
    let ops : List Op := [.tick ⟨0⟩, .tick ⟨10⟩, .receive { sender := 7 } (-50) ⟨110⟩,
      .tick ⟨110⟩, .tick ⟨210⟩, .tick ⟨310⟩, .tick ⟨410⟩, .tick ⟨420⟩, .tick ⟨430⟩]
    let last : Op := .receive relayed (-60) ⟨440⟩
    Station.start c {} = .ok s ∧ (s.run ops).observes? last = some relayed ∧
      (s.run ops).seen? 7 = some (1, 0) ∧ (s.run ops).node.cycle = 1 ∧
      (∃ m, (s.run (ops ++ [last])).node.roster.get? 7 = some m ∧ m.hops = 1) ∧
      (∃ before op after, s.Refreshed 7 (ops ++ [last]) before op after ∧
        (s.run before).node.cycle = 0) ∧
      (s.run (ops ++ [last])).node.roster.get? 1 = none ∧
      ((s.run ops).step .reset).node.roster.get? 7 = none := by
  intro c relayed s ops last
  have hs : Station.start c {} = .ok s := rfl
  obtain ⟨ho, hseen, hcycle, hseen'⟩ : (s.run ops).observes? last = some relayed ∧
      (s.run ops).seen? 7 = some (1, 0) ∧ (s.run ops).node.cycle = 1 ∧
      (s.run (ops ++ [last])).seen? 7 = some (1, 0) := by decide +kernel
  have hkept : ∀ before op after, [last] = before ++ op :: after →
      ¬ (s.run (ops ++ before)).Forgets op 7 := by
    intro before op after heq
    obtain ⟨rfl, heq⟩ | ⟨-, heq⟩ := List.singleton_eq_append_iff.1 heq
    · cases heq
      rintro ((hreset : Op.receive relayed (-60) ⟨440⟩ = .reset) | ⟨hc, -⟩)
      · cases hreset
      · cases hc
    · cases heq
  obtain ⟨m, hm, hm1⟩ := Option.map_eq_some_iff.1 hseen
  obtain ⟨m', hm', hm1'⟩ := Option.map_eq_some_iff.1 hseen'
  obtain ⟨-, -, -, hforgets, hdirect, -⟩ := neighbors_follow_sightings hs ops
  obtain ⟨-, hown, -, -, -, hrefreshed⟩ := neighbors_follow_sightings hs (ops ++ [last])
  obtain ⟨before, op, after, hlast, hcycle'⟩ := hrefreshed 7 m' hm'
  refine ⟨hs, ho, hseen, hcycle, hdirect 7 m [last] hm (congrArg Prod.fst hm1) hkept,
    ⟨before, op, after, hlast, ?_⟩, hown, hforgets 7 .reset (.inl rfl)⟩
  exact hcycle'.symm.trans (congrArg Prod.snd hm1')

end ClusterMesh.Station
