import ClusterMesh.Proofs.Station.Neighborhood
import Mathlib.Data.List.Induction

/-! Which neighbors a station takes for direct, and why. Two kinds of nodes enter the roster: the
transmitter of a packet at distance one, and its sender at the length of the path. So a direct
neighbor either put a packet on the air itself since it entered, or was the sender of one whose
path named a single other node. -/
namespace ClusterMesh.Station

def hops? (s : Station) (id : NodeId) : Option UInt8 := (s.node.roster.get? id).map Neighbor.hops

theorem knowsDirect_iff {s : Station} {id : NodeId} :
    s.node.roster.knowsDirect id = true ↔ s.hops? id = some 1 := by
  unfold Roster.knowsDirect hops?
  cases s.node.roster.get? id with
  | none => simp
  | some n => simp [Neighbor.isDirect]

theorem isSome_hops? {s : Station} {id : NodeId} :
    (s.hops? id).isSome = (s.node.roster.get? id).isSome := Option.isSome_map

def seen? (s : Station) (id : NodeId) : Option (UInt8 × UInt32) :=
  (s.node.roster.get? id).map fun m => (m.hops, m.lastSeen)

theorem hops?_eq (s : Station) (id : NodeId) : s.hops? id = (s.seen? id).map Prod.fst := by
  rw [seen?, Option.map_map]
  rfl

theorem seen?_of_roster_eq {s t : Station} (h : t.node.roster = s.node.roster) (id : NodeId) :
    t.seen? id = s.seen? id := by rw [seen?, h, seen?]

/-! ## Entering the roster -/

theorem seen_of_hear? {n m : Node} {id : NodeId} {rssi : Int8} {hops : UInt8}
    (h : n.hear? id rssi hops = some m) (k : NodeId) :
    (m.roster.get? k).map (fun m => (m.hops, m.lastSeen)) =
      if id = k then some (hops, n.cycle)
      else (n.roster.get? k).map fun m => (m.hops, m.lastSeen) := by
  obtain ⟨roster, hr, rfl⟩ := Option.map_eq_some_iff.1 h
  unfold Roster.hear? at hr
  split at hr
  · cases hr
    rw [Table.get?_insert]
    split <;> rfl
  · split at hr
    · cases hr
    · cases hr
      rw [Table.get?_insert]
      split <;> rfl

/-- Only a node that is not known can be refused. -/
theorem unknown_of_hear? {n : Node} {id : NodeId} {rssi : Int8} {hops : UInt8}
    (h : n.hear? id rssi hops = none) : n.roster.get? id = none := by
  have hr := Option.map_eq_none_iff.1 h
  unfold Roster.hear? at hr
  split at hr
  · cases hr
  · assumption

theorem seen_modify (r : Roster) (id k : NodeId) {f : Neighbor → Neighbor}
    (hf : ∀ m, ((f m).hops, (f m).lastSeen) = (m.hops, m.lastSeen)) :
    ((r.modify id f).get? k).map (fun m => (m.hops, m.lastSeen)) =
      (r.get? k).map fun m => (m.hops, m.lastSeen) := by
  rw [Table.get?_modify]
  split
  · rw [Option.map_map]
    exact congrArg (Option.map · (r.get? k)) (funext hf)
  · rfl

structure Places (s t : Station) (id : NodeId) (hops : UInt8) : Prop where
  others : ∀ k, k ≠ id → t.seen? k = s.seen? k
  itself : t.seen? id = some (hops, s.node.cycle) ∨ s.seen? id = none ∧ t.seen? id = none

theorem Places.of_hear? {s t : Station} {m : Node} {id : NodeId} {rssi : Int8} {hops : UInt8}
    (h : s.node.hear? id rssi hops = some m)
    (ht : ∀ k, t.seen? k = (m.roster.get? k).map fun m => (m.hops, m.lastSeen)) :
    s.Places t id hops where
  others k hk := by rw [ht, seen_of_hear? h, if_neg (Ne.symm hk), seen?]
  itself := .inl (by rw [ht, seen_of_hear? h, if_pos rfl])

theorem Places.of_unknown {s t : Station} {id : NodeId} {rssi : Int8} {hops : UInt8}
    (h : s.node.hear? id rssi hops = none) (ht : ∀ k, t.seen? k = s.seen? k) :
    s.Places t id hops where
  others k _ := ht k
  itself := by
    have hn : s.seen? id = none := by rw [seen?, unknown_of_hear? h, Option.map_none]
    exact .inr ⟨hn, (ht id).trans hn⟩

theorem places_hearTransmitter (s : Station) (p : Packet) (rssi : Int8) :
    s.Places (s.hearTransmitter p rssi) p.transmitter 1 := by
  have hlocate (t : Station) (position : Position) (k : NodeId) :
      seen? { t with node := t.node.locateNeighbor p.transmitter position } k = t.seen? k :=
    seen_modify _ _ _ fun _ => rfl
  unfold hearTransmitter
  cases hm : s.node.hear? p.transmitter rssi 1 with
  | none =>
    have hnote (k : NodeId) : (s.note (.rosterFull p.transmitter)).seen? k = s.seen? k :=
      seen?_of_roster_eq (congrArg Node.roster (note_keeps s _).2.2.1) k
    cases p.position with
    | none => exact .of_unknown hm hnote
    | some position => exact .of_unknown hm fun k => (hlocate _ position k).trans (hnote k)
  | some m =>
    cases p.position with
    | none => exact .of_hear? hm fun _ => rfl
    | some position => exact .of_hear? hm (hlocate { s with node := m } position)

/-- The sender of a packet that another node passed on is placed at its distance, unless it is
direct already. -/
theorem places_hearSender {s : Station} {p : Packet} (rssi : Int8) (ht : p.sender ≠ p.transmitter)
    (hown : p.sender ≠ s.id) (hd : s.hops? p.sender ≠ some 1) :
    s.Places (s.hearSender p rssi) p.sender p.distance := by
  unfold hearSender
  rw [if_neg (by simp [ht, hown, knowsDirect_iff, hd])]
  cases hm : s.node.hear? p.sender rssi p.distance with
  | none => exact .of_unknown hm fun _ => rfl
  | some m => exact .of_hear? hm fun _ => rfl

theorem hearSender_of_known {s : Station} {p : Packet} (rssi : Int8)
    (h : p.sender = p.transmitter ∨ p.sender = s.id ∨ s.hops? p.sender = some 1) :
    s.hearSender p rssi = s := by
  unfold hearSender
  rw [if_pos (by rwa [knowsDirect_iff])]

/-- What a packet says about heads and candidates moves no neighbor. -/
theorem seen?_heed (s : Station) (p : Packet) (k : NodeId) : (s.heed p).seen? k = s.seen? k :=
  heed_holds (P := fun t => t.seen? k = s.seen? k) rfl (seen_modify _ _ _ fun _ => rfl) rfl
    (fun _ _ _ _ _ ht => (seen?_of_roster_eq (roster_consider ..) k).trans ht)
    (seen?_of_roster_eq (roster_heedRenouncement ..) k)
    fun _ _ _ _ ht => (seen?_of_roster_eq (roster_meetRival ..) k).trans ht

/-! ## One operation -/

/-- An operation forgets a neighbor: a reset, or the end of a cycle that comes too many cycles after
the neighbor was heard of last. -/
def Forgets (s : Station) (op : Op) (id : NodeId) : Prop :=
  op = .reset ∨ s.completes op = true ∧ ∃ m, s.node.roster.get? id = some m ∧
    s.settings.patience.toNat < s.node.cycle.succSat.toNat - m.lastSeen.toNat

inductive Sees (s : Station) (op : Op) (id : NodeId) : Option (UInt8 × UInt32) → Prop
  | kept (hn : ∀ p, s.observes? op = some p → id ≠ p.transmitter ∧
      (id = p.sender → id = s.id ∨ s.hops? id = some 1)) : Sees s op id (s.seen? id)
  | forgotten (hn : s.observes? op = none) (hf : s.Forgets op id) : Sees s op id none
  | heard {p : Packet} (ho : s.observes? op = some p) (ht : p.transmitter = id) :
      Sees s op id (some (1, s.node.cycle))
  | told {p : Packet} (ho : s.observes? op = some p) (hs : p.sender = id)
      (ht : p.sender ≠ p.transmitter) (hown : id ≠ s.id) (hd : s.hops? id ≠ some 1) :
      Sees s op id (some (p.distance, s.node.cycle))
  | refused {p : Packet} (ho : s.observes? op = some p) (hn : s.seen? id = none) :
      Sees s op id none

variable {s : Station} {op : Op}

theorem transmitter_ne_of_observes? {p : Packet} (h : s.observes? op = some p) :
    p.transmitter ≠ s.id := by
  have hp := (Option.filter_eq_some_iff.1 h).2
  simp only [Bool.and_eq_true, bne_iff_ne] at hp
  exact hp.2

/-- Who completes a cycle hears nothing. -/
theorem observes?_of_completes (h : s.completes op = true) : s.observes? op = none := by
  cases op with
  | tick => rfl
  | _ => cases h

theorem sees_kept (hn : s.observes? op = none) (id : NodeId) : s.Sees op id (s.seen? id) := by
  refine .kept fun p hp => ?_
  rw [hn] at hp
  cases hp

theorem sees_observe {u : Station} (hu : u.node = s.node) {p : Packet}
    (ho : s.observes? op = some p) (rssi : Int8) (id : NodeId) :
    s.Sees op id ((u.observe p rssi).seen? id) := by
  have hseen (k : NodeId) : u.seen? k = s.seen? k := seen?_of_roster_eq (congrArg Node.roster hu) k
  have hname : u.id = s.id := congrArg Node.id hu
  have ht := transmitter_ne_of_observes? ho
  -- the station that has placed the transmitter
  have htransmitter : s.Places (u.hearTransmitter p rssi) p.transmitter 1 := by
    have h := places_hearTransmitter u p rssi
    exact ⟨fun k hk => (h.others k hk).trans (hseen k), hseen p.transmitter ▸ hu ▸ h.itself⟩
  have hid : (u.hearTransmitter p rssi).id = s.id :=
    (congrArg Office.id (hearTransmitter_keeps u p rssi).1).trans hname
  have hcycle : (u.hearTransmitter p rssi).node.cycle = s.node.cycle :=
    (congrArg Office.cycle (hearTransmitter_keeps u p rssi).1).trans (congrArg Node.cycle hu)
  generalize ht' : u.hearTransmitter p rssi = t at htransmitter hid hcycle
  have hobserve : (u.observe p rssi).seen? id = (t.hearSender p rssi).seen? id := by
    rw [observe, if_neg (hname ▸ ht), ht']
    exact seen?_heed _ p id
  have hheard (hi : id = p.transmitter) : s.Sees op id (t.seen? id) := by
    subst hi
    obtain hone | ⟨hnone, hleft⟩ := htransmitter.itself
    · rw [hone]
      exact .heard ho rfl
    · rw [hleft]
      exact .refused ho hnone
  have hothers (k : NodeId) (hk : k ≠ p.transmitter) : t.hops? k = s.hops? k := by
    rw [hops?_eq, hops?_eq, htransmitter.others k hk]
  rw [hobserve]
  by_cases hknown : p.sender = p.transmitter ∨ p.sender = t.id ∨ t.hops? p.sender = some 1
  · rw [hearSender_of_known rssi hknown]
    by_cases hi : id = p.transmitter
    · exact hheard hi
    · rw [htransmitter.others id hi]
      refine .kept fun q hq => ?_
      cases ho.symm.trans hq
      refine ⟨hi, fun hs => ?_⟩
      subst hs
      obtain he | he | he := hknown
      · exact absurd he hi
      · exact .inl (he.trans hid)
      · exact .inr ((hothers _ hi).symm.trans he)
  · simp only [not_or] at hknown
    obtain ⟨hsender, hown, hfar⟩ := hknown
    have htold := places_hearSender rssi hsender hown hfar
    by_cases hs : id = p.sender
    · subst hs
      have hsame := htransmitter.others _ hsender
      obtain hd | ⟨hnone, hleft⟩ := htold.itself
      · rw [hd, hcycle]
        exact .told ho rfl hsender (hid ▸ hown) (hothers _ hsender ▸ hfar)
      · rw [hleft]
        exact .refused ho (hsame ▸ hnone)
    · rw [htold.others id hs]
      by_cases hi : id = p.transmitter
      · exact hheard hi
      · rw [htransmitter.others id hi]
        refine .kept fun q hq => ?_
        cases ho.symm.trans hq
        exact ⟨hi, fun he => absurd he hs⟩

/-- The end of a cycle keeps the neighbors that were heard of lately enough. -/
theorem get?_prune_advanceCycle (n : Node) (patience : UInt32) (id : NodeId) :
    (n.advanceCycle.prune patience).1.roster.get? id = (n.roster.get? id).filter fun m =>
      n.cycle.succSat.toNat - m.lastSeen.toNat ≤ patience.toNat := by
  refine (Table.get?_filter ..).trans (congrArg (Option.filter · _) (funext fun m => ?_))
  rw [decide_eq_decide, UInt32.le_iff_toNat_le, UInt32.toNat_subSat]
  rfl

theorem sees_step (h : s.clockwork.InStep) (op : Op) (id : NodeId) :
    s.Sees op id ((s.step op).seen? id) := by
  have ht := revises_step h op
  generalize hr : (s.step op).node.roster = r at ht
  generalize (s.step op).survey.heard = v at ht
  rw [seen?, hr]
  cases ht with
  | kept ho => exact sees_kept ho id
  | learned ho hnode => exact sees_observe hnode ho _ id
  | cleaned keep hc =>
    have ho := observes?_of_completes hc
    have hsame := sees_kept ho id
    rw [seen?] at hsame
    rw [get?_prune_advanceCycle]
    cases hm : s.node.roster.get? id with
    | none =>
      rw [hm] at hsame
      exact hsame
    | some m =>
      by_cases hage : s.node.cycle.succSat.toNat - m.lastSeen.toNat ≤ s.settings.patience.toNat
      · rw [Option.filter_some, if_pos (decide_eq_true hage), ← hm]
        exact hsame
      · rw [Option.filter_some, if_neg (by simp [hage])]
        exact .forgotten ho (.inr ⟨hc, m, hm, Nat.not_le.1 hage⟩)
  | cleared hreset =>
    subst hreset
    exact .forgotten rfl (.inl rfl)

inductive Acquaints (s : Station) (op : Op) (id : NodeId) : Option UInt8 → Prop
  | kept (hn : ∀ p, s.observes? op = some p → id ≠ p.transmitter ∧
      (id = p.sender → id = s.id ∨ s.hops? id = some 1)) : Acquaints s op id (s.hops? id)
  | forgotten (hn : s.observes? op = none) : Acquaints s op id none
  | heard {p : Packet} (ho : s.observes? op = some p) (ht : p.transmitter = id) :
      Acquaints s op id (some 1)
  | told {p : Packet} (ho : s.observes? op = some p) (hs : p.sender = id)
      (ht : p.sender ≠ p.transmitter) (hd : s.hops? id ≠ some 1) :
      Acquaints s op id (some p.distance)
  | refused {p : Packet} (ho : s.observes? op = some p) (hn : s.hops? id = none) :
      Acquaints s op id none

theorem acquaints_step (h : s.clockwork.InStep) (op : Op) (id : NodeId) :
    s.Acquaints op id ((s.step op).hops? id) := by
  have hs := sees_step h op id
  rw [hops?_eq]
  generalize (s.step op).seen? id = x at hs
  cases hs with
  | kept hn => exact hops?_eq s id ▸ .kept hn
  | forgotten hn => exact .forgotten hn
  | heard ho ht => exact .heard ho ht
  | told ho hs ht hown hd => exact .told ho hs ht hd
  | refused ho hn => exact .refused ho (by rw [hops?_eq, hn, Option.map_none])

/-! ## Runs -/

/-- The sender of a packet that another node put on the air is at distance one if the path names
that node alone. -/
theorem distance_eq_one_iff {p : Packet} (ht : p.sender ≠ p.transmitter) :
    p.distance = 1 ↔ p.path.size = 1 := by
  have hpos : p.path.size ≠ 0 := by
    intro h0
    have hnil : p.path.toList = [] := List.length_eq_zero_iff.1 h0
    exact ht (by simp [Packet.transmitter, Bounded.last?, hnil])
  have hmax : p.path.size ≤ 50 := p.path.length_le
  have hmin : min (max p.hops 1) 255 = p.path.size := by
    unfold Packet.hops
    omega
  rw [Packet.distance, hmin, ← UInt8.toNat_inj, UInt8.toNat_ofNat']
  simp only [UInt8.reduceToNat]
  omega

/-- Why a station takes a node for direct: it learned from a packet that the node put on the air,
or that it sent along a path of one other node, and has known it ever since. -/
theorem acquainted_run {settings : Settings} {receivers : Receivers} {s : Station}
    (hs : Station.start settings receivers = .ok s) {ops : List Op} {id : NodeId}
    (hd : (s.run ops).hops? id = some 1) :
    ∃ before op after p, ops = before ++ op :: after ∧
      (s.run before).observes? op = some p ∧
      (p.transmitter = id ∨ p.sender = id ∧ p.path.size = 1) ∧
      ∀ since, since <+: after → ((s.run (before ++ op :: since)).hops? id).isSome = true := by
  induction ops using List.reverseRecOn with
  | nil =>
    obtain ⟨-, rfl⟩ := start_eq hs
    cases hd
  | append_singleton ops op ih =>
    have hr : Reachable (s.run ops) := (Reachable.start hs).run ops
    have ha := acquaints_step hr.inStep op id
    have hlast : s.run (ops ++ [op]) = (s.run ops).step op := run_append s ops [op]
    rw [← hlast] at ha
    have hnow {p : Packet} (ho : (s.run ops).observes? op = some p)
        (hp : p.transmitter = id ∨ p.sender = id ∧ p.path.size = 1) :
        ∃ before op' after p, ops ++ [op] = before ++ op' :: after ∧
          (s.run before).observes? op' = some p ∧
          (p.transmitter = id ∨ p.sender = id ∧ p.path.size = 1) ∧
          ∀ since, since <+: after →
            ((s.run (before ++ op' :: since)).hops? id).isSome = true := by
      refine ⟨ops, op, [], p, rfl, ho, hp, fun since hsince => ?_⟩
      rw [List.prefix_nil.1 hsince, hd]
      rfl
    generalize hx : (s.run (ops ++ [op])).hops? id = x at ha
    rw [hd] at hx
    cases ha with
    | kept hn =>
      obtain ⟨before, op', after, p, rfl, ho, hp, hsince⟩ := ih hx.symm
      refine ⟨before, op', after ++ [op], p, by simp, ho, hp, fun since hpre => ?_⟩
      obtain rfl | hpre := List.prefix_concat_iff.1 hpre
      · rw [← List.cons_append, ← List.append_assoc, hd]
        rfl
      · exact hsince since hpre
    | forgotten => cases hx
    | heard ho ht => exact hnow ho (.inl ht)
    | told ho hs ht =>
      exact hnow ho (.inr ⟨hs, (distance_eq_one_iff ht).1 (Option.some.inj hx.symm)⟩)
    | refused => cases hx

/-- A direct neighbor put a packet on the air since it entered the roster, or was the sender of
one whose path names a single other node. And that is exactly how a sender who did not transmit
becomes direct: by a path of one node, in a roster that has room. -/
theorem direct_neighbors_were_heard {settings : Settings} {receivers : Receivers} {s : Station}
    (hs : Station.start settings receivers = .ok s) (ops : List Op) :
    (∀ id n, (s.run ops).node.roster.get? id = some n → n.hops = 1 →
      ∃ before op after p, ops = before ++ op :: after ∧
        (s.run before).observes? op = some p ∧
        (p.transmitter = id ∨ p.sender = id ∧ p.path.size = 1) ∧
        ∀ since, since <+: after →
          ((s.run (before ++ op :: since)).node.roster.get? id).isSome = true) ∧
      ∀ op p, (s.run ops).observes? op = some p → p.sender ≠ p.transmitter →
        p.sender ≠ (s.run ops).id →
        (((s.run ops).step op).node.roster.knowsDirect p.sender = true ↔
          (s.run ops).node.roster.knowsDirect p.sender = true ∨
            p.path.size = 1 ∧
              (((s.run ops).step op).node.roster.get? p.sender).isSome = true) := by
  refine ⟨fun id n hn h1 => ?_, fun op p ho ht hown => ?_⟩
  · have hd : (s.run ops).hops? id = some 1 := by
      rw [hops?, hn, Option.map_some, h1]
    obtain ⟨before, op, after, p, hops, ho, hp, hsince⟩ := acquainted_run hs hd
    refine ⟨before, op, after, p, hops, ho, hp, fun since hpre => ?_⟩
    rw [← isSome_hops?]
    exact hsince since hpre
  · have hr : Reachable (s.run ops) := (Reachable.start hs).run ops
    have ha := acquaints_step hr.inStep op p.sender
    rw [knowsDirect_iff, knowsDirect_iff, ← isSome_hops?]
    generalize ((s.run ops).step op).hops? p.sender = x at ha
    cases ha with
    | kept hn =>
      have hd := ((hn p ho).2 rfl).resolve_left hown
      simp [hd]
    | forgotten hn =>
      rw [hn] at ho
      cases ho
    | heard ho' ht' =>
      cases ho.symm.trans ho'
      exact absurd ht'.symm ht
    | told ho' hs' ht' hd =>
      cases ho.symm.trans ho'
      simp [hd, distance_eq_one_iff ht]
    | refused ho' hn => simp [hn]

/-- A packet of node nine that node seven put on the air makes both of them direct. -/
theorem direct_neighbors_were_heard_of_seven :
    let c : Settings := { id := 1, plan := ⟨1, 50, 1, 10⟩ }
    let p : Packet := { sender := 9, path := (Bounded.empty.push? 7).getD .empty }
    let s := fresh c {}
    let ops : List Op := [.tick ⟨0⟩, .tick ⟨10⟩]
    let last : Op := .receive p (-50) ⟨110⟩
    Station.start c {} = .ok s ∧ (s.run ops).observes? last = some p ∧
      ((s.run ops).step last).node.roster.knowsDirect 9 = true ∧
      ∃ before op after q, ops ++ [last] = before ++ op :: after ∧
        (s.run before).observes? op = some q ∧
        (q.transmitter = 9 ∨ q.sender = 9 ∧ q.path.size = 1) := by
  intro c p s ops last
  have hs : Station.start c {} = .ok s := rfl
  have ho : (s.run ops).observes? last = some p := by decide +kernel
  have hknown : (((s.run ops).step last).node.roster.get? p.sender).isSome = true := by
    decide +kernel
  have hd := ((direct_neighbors_were_heard hs ops).2 last p ho (by decide) (by decide +kernel)).2
    (.inr ⟨rfl, hknown⟩)
  have hrun : s.run (ops ++ [last]) = (s.run ops).step last := run_append s ops [last]
  obtain ⟨n, hn, h1⟩ := Option.map_eq_some_iff.1 (knowsDirect_iff.1 hd)
  rw [← hrun] at hn
  obtain ⟨before, op, after, q, hops, hq, hwhy, -⟩ :=
    (direct_neighbors_were_heard hs (ops ++ [last])).1 9 n hn h1
  exact ⟨hs, ho, hd, before, op, after, q, hops, hq, hwhy⟩

/-- Node nine is direct although no packet of the run was put on the air by it. -/
theorem direct_without_transmission :
    let p : Packet := { sender := 9, path := (Bounded.empty.push? 7).getD .empty }
    let s := fresh { id := 1, plan := ⟨1, 50, 1, 10⟩ } {}
    let ops : List Op := [.tick ⟨0⟩, .tick ⟨10⟩, .receive p (-50) ⟨110⟩]
    Station.start { id := 1, plan := ⟨1, 50, 1, 10⟩ } {} = .ok s ∧
      (∃ n, (s.run ops).node.roster.get? 9 = some n ∧ n.hops = 1) ∧
      ¬ ∃ before op after q, ops = before ++ op :: after ∧
        (s.run before).observes? op = some q ∧ q.transmitter = 9 := by
  intro p s ops
  have hd : (s.run ops).node.roster.knowsDirect 9 = true := by decide +kernel
  refine ⟨rfl, Option.map_eq_some_iff.1 (knowsDirect_iff.1 hd), ?_⟩
  rintro ⟨before, op, after, q, hops, hq, ht⟩
  have hmem : op ∈ ops := by
    rw [hops]
    exact List.mem_append_right _ List.mem_cons_self
  have hheard : op.packet? = some q := (Option.filter_eq_some_iff.1 hq).1
  simp only [ops, List.mem_cons, List.not_mem_nil, or_false] at hmem
  obtain rfl | rfl | rfl := hmem
  · cases hheard
  · cases hheard
  · cases hheard
    revert ht
    decide

end ClusterMesh.Station
