import ClusterMesh.Proofs.Station.Steps

/-! Role, head and campaign of a station agree in every state that it can reach, as long as
the reserved name sends it nothing. One operation changes the role at most once, along a
fixed set of edges; only a reset leads out of the role of a head or back to discovering. -/
namespace ClusterMesh

inductive Role.Shift : Role → Role → Prop
  | wake : Shift .starting .discovering
  | recede : Shift .discovering .edge
  | stand : Shift .discovering .candidate
  | standAtEdge : Shift .edge .candidate
  | join : Shift .edge .member
  | part : Shift .member .edge
  | lose : Shift .candidate .edge
  | win : Shift .candidate .head

namespace Office

structure Consistent (o : Office) : Prop where
  head_iff : o.role = .head ↔ o.head = o.id
  candidate : o.role = .candidate → o.head = nobody ∧ o.campaign.renouncements = 0
  member : o.role = .member → o.head ≠ nobody ∧ o.head ≠ o.id
  rounds_le : o.campaign.rounds ≤ 3
  rounds_pos : 0 < o.campaign.rounds → o.role = .candidate

/-- The role stays or changes once along an edge, and the log, where one is kept, shows
exactly that. -/
def Shifts (o o' : Office) : Prop :=
  o'.role = o.role ∧ o'.changes = o.changes ∨
    o.role.Shift o'.role ∧
      o'.changes = if o.logged then o.changes ++ [(o.role, o'.role)] else o.changes

theorem shifts_refl (o : Office) : o.Shifts o := .inl ⟨rfl, rfl⟩

theorem shifts_of_turn {o o' : Office} {next : Role} (hs : o.role.Shift next)
    (hr : o'.role = next) (hc : o'.changes = (o.turn next).changes) : o.Shifts o' := by
  refine .inr ⟨hr ▸ hs, ?_⟩
  have hne : o.role ≠ next := by
    intro he
    rw [he] at hs
    cases hs
  rw [hc, hr, turn]
  cases hl : o.logged <;> simp [hne]

/-! ## The message of slot zero -/

theorem Consistent.spoken {o : Office} (h : o.Consistent) : o.spoken.Consistent := by
  unfold Office.spoken
  split
  · next hr =>
    refine ⟨h.head_iff, fun hc => ?_, h.member, h.rounds_le, h.rounds_pos⟩
    exact absurd (h.candidate hc).2 (by omega)
  · split
    · next hc =>
      have hl := h.rounds_le
      exact ⟨h.head_iff, h.candidate, h.member, by dsimp only; omega, fun _ => hc.1⟩
    · exact h

theorem shifts_spoken (o : Office) : o.Shifts o.spoken := by
  obtain ⟨campaign, -, he⟩ := o.spoken_eq
  rw [he]
  exact .inl ⟨rfl, rfl⟩

/-! ## The end of a cycle -/

/-- An office in which nothing is held or sought is consistent. -/
theorem consistent_of_private {o : Office}
    (hr : o.role = .starting ∨ o.role = .discovering ∨ o.role = .edge) (hh : o.head ≠ o.id)
    (h0 : o.campaign.rounds = 0) : o.Consistent where
  head_iff := ⟨fun he => by simp [he] at hr, fun he => absurd he hh⟩
  candidate := fun hc => by simp [hc] at hr
  member := fun hm => by simp [hm] at hr
  rounds_le := by omega
  rounds_pos := fun hp => by omega

theorem Consistent.rounds_eq {o : Office} (h : o.Consistent) (hr : o.role ≠ .candidate) :
    o.campaign.rounds = 0 := by
  by_cases hp : 0 < o.campaign.rounds
  · exact absurd (h.rounds_pos hp) hr
  · omega

theorem Consistent.head_ne {o : Office} (h : o.Consistent) (hr : o.role ≠ .head) :
    o.head ≠ o.id :=
  fun he => hr (h.head_iff.2 he)

theorem Consistent.decides {o o' : Office} (h : o.Consistent) (hid : o.id ≠ nobody)
    (hd : o.Decides o') : o'.Consistent := by
  cases hd with
  | wake hr =>
    have hh := h.head_ne (by simp [hr])
    have h0 := h.rounds_eq (by simp [hr])
    exact consistent_of_private (.inr (.inl rfl)) hh h0
  | promote hr hd =>
    have h0 := hd.1
    exact ⟨by simp [turn], by simp [turn], by simp [turn], by dsimp only [turn]; omega,
      fun hp => by dsimp only [turn] at hp; omega⟩
  | wait hr hd => exact h
  | reign hr => exact h
  | stand hr hh direct =>
    have hne : o.head ≠ o.id := hh ▸ hid.symm
    exact ⟨⟨by simp [Office.stand, turn], fun he => absurd he hne⟩, fun _ => ⟨hh, rfl⟩,
      by simp [Office.stand, turn], Nat.le_refl 3, fun _ => rfl⟩
  | recede hr =>
    have hh := h.head_ne (by simp [hr])
    have h0 := h.rounds_eq (by simp [hr])
    exact consistent_of_private (.inr (.inr rfl)) hh h0
  | join hr hh =>
    have hne := h.head_ne (by simp [hr])
    have h0 := h.rounds_eq (by simp [hr])
    exact ⟨⟨by simp [turn], fun he => absurd he hne⟩, by simp [turn], fun _ => ⟨hh, hne⟩,
      by dsimp only [turn]; omega, fun hp => by dsimp only [turn] at hp; omega⟩
  | stay hr => exact h

theorem Consistent.shifts_decides {o o' : Office} (h : o.Consistent) (hd : o.Decides o') :
    o.Shifts o' := by
  cases hd with
  | wake hr => exact shifts_of_turn (hr ▸ .wake) rfl rfl
  | promote hr hd => exact shifts_of_turn (hr ▸ .win) rfl rfl
  | wait hr hd => exact shifts_refl o
  | reign hr => exact shifts_refl o
  | stand hr hh direct =>
    have hm : o.role ≠ .member := fun hm => (h.member hm).1 hh
    obtain hr | hr | hr := hr
    · exact shifts_of_turn (hr ▸ .stand) rfl rfl
    · exact shifts_of_turn (hr ▸ .standAtEdge) rfl rfl
    · exact absurd hr hm
  | recede hr => exact shifts_of_turn (hr ▸ .recede) rfl rfl
  | join hr hh => exact shifts_of_turn (hr ▸ .join) rfl rfl
  | stay hr => exact shifts_refl o

/-! ## A packet of another station -/

theorem Consistent.release {o : Office} (h : o.Consistent) (hid : o.id ≠ nobody)
    (hi : o.head ≠ o.id) (hn : o.head ≠ nobody) : o.release.Consistent ∧ o.Shifts o.release := by
  have hc : o.role ≠ .candidate := fun hc => hn (h.candidate hc).1
  have hh : o.role ≠ .head := fun he => hi (h.head_iff.1 he)
  have h0 := h.rounds_eq hc
  cases hr : o.role with
  | candidate => exact absurd hr hc
  | head => exact absurd hr hh
  | starting =>
    have hs : o.role.Shift .discovering := hr ▸ .wake
    refine ⟨consistent_of_private ?_ hid.symm h0, shifts_of_turn hs ?_ ?_⟩ <;>
      simp [Office.release, turn, hr, Role.released]
  | member =>
    have hs : o.role.Shift .edge := hr ▸ .part
    refine ⟨consistent_of_private ?_ hid.symm h0, shifts_of_turn hs ?_ ?_⟩ <;>
      simp [Office.release, turn, hr, Role.released]
  | discovering | edge =>
    have hs : o.release = { o with head := nobody } := turn_self (by simp [hr, Role.released])
    rw [hs]
    exact ⟨consistent_of_private (by simp [hr]) hid.symm h0, .inl ⟨rfl, rfl⟩⟩

theorem Consistent.heeds {o o' : Office} {p : Packet} (h : o.Consistent) (hid : o.id ≠ nobody)
    (hs : p.sender ≠ o.id) (hn : p.sender ≠ nobody) (hp : o.Heeds p o') :
    o'.Consistent ∧ o.Shifts o' := by
  cases hp with
  | nothing hc hr => exact ⟨h, shifts_refl o⟩
  | follow hc hh hp =>
    have h0 := h.rounds_eq hc
    exact ⟨⟨⟨fun he => absurd he hh, fun he => absurd he hs⟩, fun he => absurd he hc,
      fun _ => ⟨hn, hs⟩, h.rounds_le, h.rounds_pos⟩, .inl ⟨rfl, rfl⟩⟩
  | concede b hc hp hy =>
    exact ⟨consistent_of_private (.inr (.inr rfl)) hs rfl, shifts_of_turn (hc ▸ .lose) rfl rfl⟩
  | release b hp hh => exact h.release hid (hh ▸ hs) (hh ▸ hn)

end Office

namespace Station

def Op.Named (op : Op) : Prop := ∀ p, op.packet? = some p → p.sender ≠ nobody

theorem forall_named_iff {ops : List Op} :
    (∀ op ∈ ops, op.Named) ↔ ∀ p ∈ ops.filterMap Op.packet?, p.sender ≠ nobody := by
  simp only [Op.Named, List.mem_filterMap]
  exact ⟨fun h p ⟨op, hop, hp⟩ => h op hop p hp, fun h op hop p hp => h p ⟨op, hop, hp⟩⟩

theorem consistent_step {s : Station} (hw : s.clockwork.InStep) (hid : s.id ≠ nobody)
    (h : s.office.Consistent) {op : Op} (hop : op.Named) :
    (s.step op).office.Consistent ∧
      (op.isReset = false → s.office.Shifts (s.step op).office) := by
  have ht := turns_step hw op
  generalize (s.step op).office = o at ht
  cases ht with
  | kept => exact ⟨h, fun _ => Office.shifts_refl _⟩
  | spoke h0 => exact ⟨h.spoken, fun _ => Office.shifts_spoken _⟩
  | decided h3 hd =>
    have hc : Office.Consistent { s.office with cycle := s.node.cycle.succSat } :=
      ⟨h.head_iff, h.candidate, h.member, h.rounds_le, h.rounds_pos⟩
    exact ⟨hc.decides hid hd, fun _ => hc.shifts_decides hd⟩
  | heeded hh ho =>
    obtain ⟨hp, hs⟩ := packet?_of_handled? hh
    rw [handles, Bool.and_eq_true, bne_iff_ne] at hs
    have hc := h.heeds hid hs.2 (hop _ hp) ho
    exact ⟨hc.1, fun _ => hc.2⟩
  | reset hr =>
    have hc : (freshOffice s.office).Consistent :=
      Office.consistent_of_private (.inl rfl) hid.symm rfl
    exact ⟨hc, fun hn => by simp [hr, Op.isReset] at hn⟩

structure Sound (s : Station) : Prop where
  inStep : s.clockwork.InStep
  id_ne : s.id ≠ nobody
  consistent : s.office.Consistent

theorem sound_start {settings : Settings} {receivers : Receivers} {s : Station}
    (h : Station.start settings receivers = .ok s) : s.Sound := by
  obtain ⟨hv, rfl⟩ := start_eq h
  exact ⟨inStep_fresh _ _, hv.id_ne,
    Office.consistent_of_private (.inl rfl) hv.id_ne.symm rfl⟩

theorem Sound.step {s : Station} (h : s.Sound) {op : Op} (hop : op.Named) : (s.step op).Sound where
  inStep := inStep_step h.inStep op
  id_ne := id_step h.inStep op ▸ h.id_ne
  consistent := (consistent_step h.inStep h.id_ne h.consistent hop).1

theorem Sound.run {s : Station} (h : s.Sound) {ops : List Op} (hops : ∀ op ∈ ops, op.Named) :
    (s.run ops).Sound := by
  induction ops generalizing s with
  | nil => exact h
  | cons op ops ih =>
    exact ih (h.step (hops op (by simp))) fun op' hm => hops op' (List.mem_cons_of_mem op hm)

/-- A property of roles that no change of role takes away holds until the next reset. -/
theorem Sound.role_run {s : Station} (h : s.Sound) (P : Role → Prop)
    (hP : ∀ r r' : Role, r.Shift r' → P r → P r') {ops : List Op}
    (hops : ∀ op ∈ ops, op.Named ∧ op.isReset = false) (hs : P s.node.role) :
    P (s.run ops).node.role := by
  induction ops generalizing s with
  | nil => exact hs
  | cons op ops ih =>
    obtain ⟨hn, hr⟩ := hops op (by simp)
    have hshift := (consistent_step h.inStep h.id_ne h.consistent hn).2 hr
    refine ih (h.step hn) (fun op' hm => hops op' (List.mem_cons_of_mem op hm)) ?_
    obtain ⟨he, -⟩ | ⟨he, -⟩ := hshift
    · have hr' : (s.step op).node.role = s.node.role := he
      exact hr'.symm ▸ hs
    · exact hP _ _ he hs

/-- In every state that named senders can bring a started station to, role, head and campaign
agree, and an operation other than a reset changes the role at most once, along an edge of
`Role.Shift`. So a head stays a head, and a station that has left discovering does not come
back to it. -/
theorem roles_agree {settings : Settings} {receivers : Receivers} {s : Station}
    (hs : Station.start settings receivers = .ok s) (ops : List Op)
    (hops : ∀ op ∈ ops, op.Named) :
    (s.run ops).office.Consistent ∧
      (∀ op : Op, op.Named → op.isReset = false →
        (s.run ops).office.Shifts ((s.run ops).step op).office) ∧
      ∀ more : List Op, (∀ op ∈ more, op.Named ∧ op.isReset = false) →
        ((s.run ops).node.role = .head → (s.run (ops ++ more)).node.role = .head) ∧
          ((s.run ops).node.role ≠ .starting ∧ (s.run ops).node.role ≠ .discovering →
            (s.run (ops ++ more)).node.role ≠ .discovering) := by
  have h := (sound_start hs).run hops
  refine ⟨h.consistent, fun op hn hr => ?_, fun more hm => ?_⟩
  · exact (consistent_step h.inStep h.id_ne h.consistent hn).2 hr
  · rw [run_append]
    constructor
    · refine h.role_run (· = .head) ?_ hm
      intro r r' he hr
      subst hr
      cases he
    · intro hr
      refine (h.role_run (fun r => r ≠ .starting ∧ r ≠ .discovering) ?_ hm hr).2
      intro r r' he hr
      cases he <;> simp_all

/-- A station with five neighbors stands for head, loses to a rival with twelve and becomes a member
of the rival's cluster. -/
theorem roles_agree_through_defeat :
    let c : Settings := { id := 1, plan := ⟨1, 50, 1, 10⟩ }
    let s := fresh c {}
    let tick : Op := .tick .zero
    let greetings : List Op :=
      [2, 3, 4, 5, 6].map fun id => .receive (fresh { id } {}).beacon (-50) .zero
    let defeat : Op :=
      .receive { sender := 9, content := .candidacy { direct := 12 } } (-50) .zero
    let ops := List.replicate 2 tick ++ greetings ++ List.replicate 13 tick
    let more := defeat :: List.replicate 3 tick
    Station.start c {} = .ok s ∧ (∀ op ∈ ops, op.Named) ∧
      (∀ op ∈ more, op.Named ∧ op.isReset = false) ∧
      (s.run ops).node.role = .candidate ∧ (s.run ops).office.Consistent ∧
      (s.run ops).office.Shifts ((s.run ops).step defeat).office ∧
      ((s.run ops).step defeat).node.role = .edge ∧
      (s.run (ops ++ more)).node.role = .member ∧
      (s.run (ops ++ more)).node.role ≠ .discovering := by
  intro c s tick greetings defeat ops more
  have hs : Station.start c {} = .ok s := rfl
  have hops : ∀ op ∈ ops, op.Named := forall_named_iff.2 (by decide)
  have hmore : ∀ op ∈ more, op.Named ∧ op.isReset = false := fun op hop =>
    ⟨forall_named_iff.2 (by decide) op hop, (by decide : ∀ op ∈ more, op.isReset = false) op hop⟩
  obtain ⟨hrole, hedge, hmember⟩ : (s.run ops).node.role = .candidate ∧
      ((s.run ops).step defeat).node.role = .edge ∧
      (s.run (ops ++ more)).node.role = .member := by
    decide +kernel
  obtain ⟨hconsistent, hshifts, hkeeps⟩ := roles_agree hs ops hops
  have hleft := (hkeeps more hmore).2 (by rw [hrole]; decide)
  obtain ⟨hnamed, -⟩ := hmore defeat List.mem_cons_self
  exact ⟨hs, hops, hmore, hrole, hconsistent, hshifts _ hnamed rfl, hedge, hmember, hleft⟩

end Station
end ClusterMesh
