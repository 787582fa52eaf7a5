import ClusterMesh.Proofs.Station.Hearing

/-! What elections see of a station and what they touch. Whatever a station makes of heads,
candidates and its own role hangs on its node, its campaign and its choice alone, and leaves
all else as it is: the same happens in any station that shares these. -/
namespace ClusterMesh.Station

/-- The station `t` with what elections see of `s`, and what they say about it. -/
def on (s t : Station) : Station :=
  { t with
    node := { s.node with counts := t.node.counts }
    campaign := s.campaign
    choice := s.choice
    outbox := { t.outbox with traces := s.outbox.traces, notices := s.outbox.notices } }

@[simp] theorem receivers_note (s : Station) (n : Notice) : (s.note n).receivers = s.receivers := by
  unfold note
  split <;> rfl

@[simp] theorem receivers_become (s : Station) (next : Role) :
    (s.become next).2.receivers = s.receivers := by
  cases h : s.node.role.mayBecome next
  · rw [become_of_not h]
    exact receivers_note _ _
  · rw [become_of_mayBecome h]
    dsimp only
    split
    · rfl
    · exact receivers_note _ _

/-- A choice that both stations make alike. -/
theorem ite_on {c d : Prop} [Decidable c] [Decidable d] (h : d ↔ c) {a b u v t : Station}
    (ha : u = a.on t) (hb : v = b.on t) :
    (if d then u else v) = (if c then a else b).on t := by
  by_cases hc : c
  · rw [if_pos hc, if_pos (h.2 hc), ha]
  · rw [if_neg hc, if_neg (mt h.1 hc), hb]

section on
variable {s t : Station} (h : t.receivers = s.receivers)

theorem hear?_on (id : NodeId) (rssi : Int8) (hops : UInt8) :
    (s.on t).node.hear? id rssi hops =
      (s.node.hear? id rssi hops).map fun n => { n with counts := t.node.counts } := by
  unfold Node.hear?
  rw [Option.map_map]
  rfl

theorem hearSender_on (p : Packet) (rssi : Int8) :
    (s.on t).hearSender p rssi = (s.hearSender p rssi).on t := by
  unfold hearSender
  refine ite_on Iff.rfl rfl ?_
  rw [hear?_on]
  cases s.node.hear? p.sender rssi p.distance <;> rfl

include h

theorem note_on (n : Notice) : (s.on t).note n = (s.note n).on t :=
  ite_on (by rw [show (s.on t).receivers = s.receivers from h]) rfl rfl

theorem become_on (next : Role) :
    (s.on t).become next = ((s.become next).1, (s.become next).2.on t) := by
  cases hm : s.node.role.mayBecome next
  · rw [become_of_not hm, become_of_not (s := s.on t) hm, note_on h]
    rfl
  · rw [become_of_mayBecome hm, become_of_mayBecome (s := s.on t) hm]
    exact congrArg (Prod.mk true)
      (ite_on Iff.rfl rfl (note_on (s := (s.inRole next).trace _) h _))

/-! ## Reception -/

theorem consider_on (head : NodeId) (hops : UInt8) (direct : UInt32) (clusterClass : UInt16) :
    (s.on t).consider head hops direct clusterClass =
      (s.consider head hops direct clusterClass).on t := by
  unfold consider
  refine ite_on Iff.rfl rfl (ite_on Iff.rfl rfl (ite_on Iff.rfl ?_ rfl))
  exact note_on (s := { s with
    node := s.node.follow head clusterClass, choice := ⟨hops, direct⟩ }.trace _) h _

theorem heedRenouncement_on (head : NodeId) :
    (s.on t).heedRenouncement head = (s.heedRenouncement head).on t := by
  unfold heedRenouncement
  refine ite_on Iff.rfl rfl ?_
  dsimp only
  -- the station that has left its head
  obtain ⟨u, hu⟩ : ∃ u : Station,
    { s with node := s.node.leave, choice := {} }.note (.headRenounced head) = u := ⟨_, rfl⟩
  have hr : t.receivers = u.receivers := by
    rw [← hu, receivers_note]
    exact h
  have hn : { s.on t with node := (s.on t).node.leave, choice := {} }.note
      (.headRenounced head) = u.on t :=
    hu ▸ note_on (s := { s with node := s.node.leave, choice := {} }) h _
  rw [hu, hn, become_on hr, become_eq u]
  exact ite_on Iff.rfl rfl (ite_on Iff.rfl
    (congrArg Prod.snd (become_on (hr.trans (receivers_become u _).symm) _)) rfl)

theorem meetRival_on (rival : NodeId) (hops : UInt8) (ballot : Ballot) :
    (s.on t).meetRival rival hops ballot = (s.meetRival rival hops ballot).on t := by
  unfold meetRival
  refine ite_on Iff.rfl rfl ?_
  rw [become_on h, become_eq s]
  cases s.node.role.mayBecome .edge with
  | false => rfl
  | true =>
    dsimp only
    rw [← note_on (by exact h.trans (receivers_become s .edge).symm)]
    rfl

theorem heed_on (p : Packet) : (s.on t).heed p = (s.heed p).on t := by
  unfold heed
  refine ite_on Iff.rfl rfl ?_
  cases p.content with
  | beacon =>
    exact ite_on Iff.rfl (consider_on (s := { s with node := s.node.markHead p.sender 0 }) h ..) rfl
  | renouncement ballot => exact heedRenouncement_on h _
  | candidacy ballot =>
    dsimp only
    rw [show (s.on t).node.noteCandidate.role = s.node.role from rfl,
      show s.node.noteCandidate.role = s.node.role from rfl]
    cases s.node.role with
    | candidate => exact meetRival_on (s := { s with node := s.node.noteCandidate }) h ..
    | head => rfl
    | _ => exact consider_on (s := { s with node := s.node.noteCandidate }) h ..

theorem hearTransmitter_on (p : Packet) (rssi : Int8) :
    (s.on t).hearTransmitter p rssi = (s.hearTransmitter p rssi).on t := by
  unfold hearTransmitter
  dsimp only
  rw [hear?_on]
  cases s.node.hear? p.transmitter rssi 1 with
  | none =>
    have hn := note_on h (.rosterFull p.transmitter)
    cases p.position with
    | none => exact hn
    | some position =>
      exact congrArg (fun u : Station => { u with
        node := u.node.locateNeighbor p.transmitter position }) hn
  | some m => cases p.position <;> rfl

/-! ## The end of a cycle -/

theorem stand_on : (s.on t).stand = s.stand.on t := by
  unfold stand
  rw [become_on h, become_eq s]
  cases s.node.role.mayBecome .candidate <;> rfl

theorem takeOffice_on : (s.on t).takeOffice = s.takeOffice.on t := by
  unfold takeOffice
  refine ite_on Iff.rfl ?_ rfl
  rw [become_on h, become_eq s]
  cases s.node.role.mayBecome .head <;> rfl

theorem decideRole_on : (s.on t).decideRole = s.decideRole.on t := by
  have hb (next : Role) := congrArg Prod.snd (become_on h next)
  unfold decideRole
  rw [show (s.on t).node.role = s.node.role from rfl]
  cases s.node.role with
  | starting => exact hb _
  | candidate => exact takeOffice_on h
  | head => rfl
  | _ => exact ite_on Iff.rfl (stand_on h) (ite_on Iff.rfl (hb _) (ite_on Iff.rfl (hb _) rfl))

end on

end ClusterMesh.Station
