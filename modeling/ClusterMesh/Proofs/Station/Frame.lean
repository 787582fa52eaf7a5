import ClusterMesh.Station.Control

/-! Three views of a station, and what each part of a step leaves alone: its office in the
cluster, the clockwork of its phases, and its traffic. -/
namespace ClusterMesh

def Notice.change? : Notice → Option (Role × Role)
  | .roleChanged _ old new => some (old, new)
  | _ => none

structure Office where
  id : NodeId
  role : Role
  head : NodeId
  cycle : UInt32
  campaign : Campaign
  logged : Bool
  changes : List (Role × Role)

namespace Office

def turn (o : Office) (next : Role) : Office :=
  { o with
    role := next
    changes := if o.role = next ∨ o.logged = false then o.changes
      else o.changes ++ [(o.role, next)] }

theorem turn_self {o : Office} {r : Role} (h : o.role = r) : o.turn r = o := by
  cases o
  simp_all [turn]

end Office

structure Clockwork where
  settings : Settings
  enabled : Bool
  phase : Phase
  phaseSlot : Nat
  cycle : Cycle SlotUse Unit

structure Traffic where
  queue : Relay.Queue
  sent : Array Packet

namespace Station

def office (s : Station) : Office where
  id := s.node.id
  role := s.node.role
  head := s.node.head
  cycle := s.node.cycle
  campaign := s.campaign
  logged := s.receivers.notices
  changes := s.outbox.notices.toList.filterMap Notice.change?

def clockwork (s : Station) : Clockwork :=
  ⟨s.settings, s.enabled, s.phase, s.phaseSlot, s.cycle⟩

def traffic (s : Station) : Traffic := ⟨s.queue, s.outbox.packets⟩

/-! ## Output -/

@[simp] theorem trace_keeps (s : Station) (t : Trace) :
    (s.trace t).office = s.office ∧ (s.trace t).clockwork = s.clockwork ∧
      (s.trace t).traffic = s.traffic ∧ (s.trace t).node = s.node ∧
      (s.trace t).survey = s.survey ∧ (s.trace t).choice = s.choice :=
  ⟨rfl, rfl, rfl, rfl, rfl, rfl⟩

@[simp] theorem note_keeps (s : Station) (n : Notice) :
    (s.note n).clockwork = s.clockwork ∧ (s.note n).traffic = s.traffic ∧
      (s.note n).node = s.node ∧ (s.note n).campaign = s.campaign ∧
      (s.note n).survey = s.survey ∧ (s.note n).choice = s.choice := by
  unfold note
  split <;> exact ⟨rfl, rfl, rfl, rfl, rfl, rfl⟩

@[simp] theorem office_note (s : Station) (n : Notice) (h : n.change? = none) :
    (s.note n).office = s.office := by
  unfold note
  split
  · simp [office, h]
  · rfl

@[simp] theorem publish_keeps (s : Station) (m : Connectivity) :
    (s.publish m).office = s.office ∧ (s.publish m).clockwork = s.clockwork ∧
      (s.publish m).traffic = s.traffic ∧ (s.publish m).node = s.node := by
  unfold publish
  split <;> exact ⟨rfl, rfl, rfl, rfl⟩

/-! ## Changes of phase and role -/

@[simp] theorem enter_keeps (s : Station) (phase : Phase) :
    (s.enter phase).office = s.office ∧ (s.enter phase).traffic = s.traffic ∧
      (s.enter phase).node = s.node ∧
      (s.enter phase).clockwork = { s.clockwork with phase, phaseSlot := 0 } := by
  unfold enter
  dsimp only
  rw [office_note _ _ rfl]
  split <;> simp only [note_keeps, trace_keeps] <;> exact ⟨rfl, rfl, trivial, rfl⟩

def inRole (s : Station) (next : Role) : Station :=
  { s with node := { s.node with
      previousRole := s.node.role, role := next, roleSince := s.node.cycle } }

theorem become_of_mayBecome {s : Station} {next : Role} (h : s.node.role.mayBecome next = true) :
    s.become next = (true,
      if s.node.role = next then s.inRole next
      else ((s.inRole next).trace (.roleChanged s.node.cycle s.node.role next)).note
        (.roleChanged s.node.id s.node.role next)) := by
  unfold become Node.become
  rw [if_pos h]
  dsimp only
  split <;> rfl

theorem become_of_not {s : Station} {next : Role} (h : s.node.role.mayBecome next = false) :
    s.become next = (false, s.note (.fault (.badTransition s.node.role next))) := by
  unfold become Node.become
  rw [if_neg (by simp [h])]

theorem office_become {s : Station} {next : Role} (h : s.node.role.mayBecome next = true) :
    (s.become next).2.office = s.office.turn next := by
  rw [become_of_mayBecome h]
  by_cases hr : s.node.role = next
  · simp [hr, office, inRole, Office.turn]
  · cases hl : s.receivers.notices
    · simp [hr, hl, office, inRole, Office.turn, note, trace]
    · simp [hr, hl, office, inRole, Office.turn, note, trace, Notice.change?]

theorem office_become_of_not {s : Station} {next : Role}
    (h : s.node.role.mayBecome next = false) : (s.become next).2.office = s.office := by
  rw [become_of_not h]
  exact office_note _ _ rfl

@[simp] theorem become_keeps (s : Station) (next : Role) :
    (s.become next).1 = s.node.role.mayBecome next ∧
      (s.become next).2.clockwork = s.clockwork ∧ (s.become next).2.traffic = s.traffic ∧
      (s.become next).2.campaign = s.campaign ∧ (s.become next).2.choice = s.choice ∧
      (s.become next).2.node.roster = s.node.roster := by
  cases h : s.node.role.mayBecome next
  · rw [become_of_not h]
    simp
  · rw [become_of_mayBecome h]
    by_cases hr : s.node.role = next
    · rw [if_pos hr]
      exact ⟨rfl, rfl, rfl, rfl, rfl, rfl⟩
    · rw [if_neg hr]
      simp only [note_keeps, trace_keeps]
      exact ⟨trivial, rfl, rfl, rfl, rfl, rfl⟩

theorem become_eq (s : Station) (next : Role) :
    s.become next = (s.node.role.mayBecome next, (s.become next).2) :=
  Prod.ext (become_keeps s next).1 rfl

end Station
end ClusterMesh
