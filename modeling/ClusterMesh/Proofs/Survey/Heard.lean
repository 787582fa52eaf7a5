import ClusterMesh.Proofs.History
import ClusterMesh.Proofs.Net.Topology
import ClusterMesh.Proofs.Station.Upkeep
import ClusterMesh.Proofs.Survey.Window

/-! Who was heard, through anything that is done to a survey. It is told from the history alone: a
node is known since a message of it was noted with nothing known of it and room for it, until it is
forgotten. The latest message overwrites what is known of it, except that messages are counted and
that a position stays until another one comes. -/
namespace ClusterMesh

def Heard.noted (known : Option Heard) (position : Option Position) (rssi : Int8) (now : Instant)
    (isDirect : Bool) : Heard :=
  (known.map fun h => ⟨position.getD h.position, rssi, h.messages.succSat, now, isDirect⟩).getD
    ⟨position.getD .origin, rssi, 1, now, isDirect⟩

namespace Survey

/-! ## One operation -/

namespace Op

def onHeard (directSignal : Int8) (t : Table NodeId Heard) : Op → Table NodeId Heard
  | note id position rssi now =>
    if t.get? id = none ∧ capacity ≤ t.size then t
    else t.insert id (.noted (t.get? id) position rssi now (directSignal ≤ rssi))
  | forget now maxAge => t.filter fun _ h => now.since h.lastSeen ≤ maxAge
  | reset => .empty
  | _ => t

def notes (id : NodeId) : Op → Bool
  | note id' _ _ _ => id' = id
  | _ => false

def position? (id : NodeId) : Op → Option Position
  | note id' position _ _ => if id' = id then position else none
  | _ => none

def directSignal? : Op → Option Int8
  | setDirectSignal rssi => some rssi
  | _ => none

theorem position?_of_not_notes {id : NodeId} {op : Op} (h : op.notes id = false) :
    op.position? id = none := by
  cases op with
  | note id' => exact if_neg (of_decide_eq_false h)
  | _ => rfl

end Op

theorem note_eq (s : Survey) (id : NodeId) (position : Option Position) (rssi : Int8)
    (now : Instant) : s.note id position rssi now =
      { s with heard := (Op.note id position rssi now).onHeard s.directSignal s.heard } := by
  simp only [note, Op.onHeard]
  split
  · next h hh =>
    rw [hh, if_neg fun hc => Option.some_ne_none h hc.1]
    rfl
  · next hh =>
    rw [hh]
    simp only [Table.isFull, decide_eq_true_eq, true_and]
    split <;> rfl

theorem heard_step (s : Survey) (op : Op) :
    (s.step op).heard = op.onHeard s.directSignal s.heard := by
  cases op with
  | note id position rssi now => rw [step, note_eq]
  | sample rssi => exact heard_sample s rssi
  | _ => rfl

/-- A message of a node tells nothing of the others. -/
theorem get?_note_of_ne (s : Survey) {id id' : NodeId} (h : id ≠ id') (position : Option Position)
    (rssi : Int8) (now : Instant) :
    (s.note id position rssi now).heard.get? id' = s.heard.get? id' := by
  rw [note_eq]
  dsimp only [Op.onHeard]
  split
  · rfl
  · rw [Table.get?_insert, if_neg h]

theorem directSignal_step (s : Survey) (op : Op) :
    (s.step op).directSignal = op.directSignal?.getD s.directSignal := by
  cases op with
  | note id position rssi now =>
    rw [step, note_eq]
    rfl
  | sample rssi =>
    simp only [step, sample]
    split <;> rfl
  | _ => rfl

theorem size_step {s : Survey} (h : s.heard.size ≤ capacity) (op : Op) :
    (s.step op).heard.size ≤ capacity := by
  cases op with
  | note id position rssi now => exact size_heard_note h id position rssi now
  | forget now maxAge => exact Nat.le_trans (Table.size_filter_le ..) h
  | reset => exact Nat.zero_le _
  | sample rssi => exact (heard_sample s rssi).symm ▸ h
  | _ => exact h

/-- What is known of a node was noted right now or known before. -/
theorem known_step {s : Survey} {op : Op} {id : NodeId} {h : Heard}
    (hh : (s.step op).heard.get? id = some h) :
    (∃ position rssi now, op = .note id position rssi now ∧
      h = .noted (s.heard.get? id) position rssi now (s.directSignal ≤ rssi)) ∨
    op.notes id = false ∧ s.heard.get? id = some h := by
  rw [heard_step] at hh
  cases op with
  | note id' position rssi now =>
    by_cases hid : id' = id
    · subst hid
      simp only [Op.onHeard] at hh
      split at hh
      · next hfull => exact absurd (hfull.1.symm.trans hh) (Option.some_ne_none _).symm
      · rw [Table.get?_insert, if_pos rfl] at hh
        exact .inl ⟨position, rssi, now, rfl, (Option.some.inj hh).symm⟩
    · rw [← heard_step, step, get?_note_of_ne s hid] at hh
      exact .inr ⟨decide_eq_false hid, hh⟩
  | forget now maxAge => exact .inr ⟨rfl, (Table.get?_filter_eq_some_iff.1 hh).1⟩
  | reset => cases hh
  | _ => exact .inr ⟨rfl, hh⟩

/-! ## Histories -/

def directSignalAfter (ops : List Op) : Int8 := (latest? Op.directSignal? ops).getD (-85)

theorem run_concat (s : Survey) (ops : List Op) (op : Op) :
    s.run (ops ++ [op]) = (s.run ops).step op := List.foldl_concat ..

theorem directSignal_run (ops : List Op) :
    (({} : Survey).run ops).directSignal = directSignalAfter ops := by
  induction ops using List.reverseRecOn with
  | nil => rfl
  | append_singleton ops op ih =>
    rw [run_concat, directSignal_step, directSignalAfter, latest?_concat, Option.getD_or, ih]
    rfl

theorem size_run (ops : List Op) : (({} : Survey).run ops).heard.size ≤ capacity := by
  induction ops using List.reverseRecOn with
  | nil => exact Nat.zero_le _
  | append_singleton ops op ih =>
    rw [run_concat]
    exact size_step ih op

def Knows (id : NodeId) (ops : List Op) : Prop := (({} : Survey).run ops).heard.contains id

/-- The history says of a node, which is known since the operation `op`, what is known of it. -/
structure Tells (id : NodeId) (before : List Op) (op : Op) (after : List Op) (h : Heard) :
    Prop where
  enters : op.notes id = true
  position : h.position = (latest? (Op.position? id) (op :: after)).getD .origin
  messages : h.messages.toNat = min ((op :: after).countP (Op.notes id)) 0xffffffff
  latest : ∃ earlier position later,
    Latest (fun _ op => op.notes id = true) (before ++ op :: after) earlier
      (.note id position h.rssi h.lastSeen) later ∧
    h.isDirect = decide (directSignalAfter earlier ≤ h.rssi)

section tells
variable {id : NodeId} {ops before after : List Op} {op : Op} {h : Heard}

theorem tells_noted (id : NodeId) (before : List Op) (position : Option Position) (rssi : Int8)
    (now : Instant) : Tells id before (.note id position rssi now) []
      (.noted none position rssi now (directSignalAfter before ≤ rssi)) where
  enters := decide_eq_true rfl
  position := by
    rw [← List.nil_append [_], latest?_concat, Op.position?, if_pos rfl, latest?_nil,
      Option.or_none]
    rfl
  messages := by
    rw [List.countP_singleton, Op.notes, decide_eq_true rfl]
    rfl
  latest := ⟨before, position, [], latest_concat (decide_eq_true rfl), rfl⟩

theorem Tells.noted (ht : Tells id before op after h) (position : Option Position) (rssi : Int8)
    (now : Instant) : Tells id before op (after ++ [.note id position rssi now])
      (.noted (some h) position rssi now
        (directSignalAfter (before ++ op :: after) ≤ rssi)) where
  enters := ht.enters
  position := by
    rw [← List.cons_append, latest?_concat, Op.position?, if_pos rfl, Option.getD_or, ← ht.position]
    rfl
  messages := by
    have hmessages : h.messages.succSat.toNat = _ := UInt32.toNat_succSat h.messages
    rw [ht.messages] at hmessages
    rw [← List.cons_append, List.countP_append, List.countP_singleton, Op.notes, decide_eq_true rfl,
      if_pos rfl]
    exact hmessages.trans (by omega)
  latest := by
    rw [← List.cons_append, ← List.append_assoc]
    exact ⟨before ++ op :: after, position, [], latest_concat (decide_eq_true rfl), rfl⟩

theorem Tells.other (ht : Tells id before op after h) {last : Op} (hlast : last.notes id = false) :
    Tells id before op (after ++ [last]) h where
  enters := ht.enters
  position := by
    rw [← List.cons_append, latest?_concat, Op.position?_of_not_notes hlast, Option.none_or]
    exact ht.position
  messages := by
    rw [← List.cons_append, List.countP_append, List.countP_singleton, hlast]
    exact ht.messages
  latest := by
    obtain ⟨earlier, position, later, hlatest, hdirect⟩ := ht.latest
    rw [← List.cons_append, ← List.append_assoc]
    exact ⟨earlier, position, later ++ [last], hlatest.concat (by simp [hlast]), hdirect⟩

/-- What is known of a node is what the history since it came to be known says. -/
theorem tells_of_since (hsince : Since (Knows id) ops before op after)
    (hh : (({} : Survey).run ops).heard.get? id = some h) : Tells id before op after h := by
  induction ops using List.reverseRecOn generalizing after h with
  | nil => cases hh
  | append_singleton ops last ih =>
    rw [run_concat] at hh
    have hstep := known_step hh
    rw [directSignal_run] at hstep
    obtain ⟨rfl, rfl, rfl⟩ | ⟨rest, rfl, hrest⟩ := hsince.of_concat
    · have hunknown : (({} : Survey).run before).heard.get? id = none :=
        Option.not_isSome_iff_eq_none.1 hsince.unmet
      rw [hunknown] at hstep
      obtain ⟨position, rssi, now, rfl, rfl⟩ | ⟨-, hknown⟩ := hstep
      · exact tells_noted id before position rssi now
      · cases hknown
    · obtain ⟨h', hh'⟩ := Option.isSome_iff_exists.1 hrest.holds
      have ht := ih hrest hh'
      rw [hh', hrest.eq] at hstep
      obtain ⟨position, rssi, now, rfl, rfl⟩ | ⟨hlast, hknown⟩ := hstep
      · exact ht.noted position rssi now
      · exact Option.some.inj hknown ▸ ht.other hlast

end tells

/-- Who was heard after any history. Nobody is known twice, and there are never more than there is
room for. The survey knows exactly those of whom a message was noted while there was room and who
were not forgotten since, with what the history says of them. Without room a message of an unknown
node changes nothing. What is forgotten is whatever was heard too long ago, where the age of what
was heard later than now is zero, and it is counted. Measures take no more neighbors for direct than
for known, which are all that the survey holds. -/
theorem heard_tells_history (ops : List Op) :
    let s := ({} : Survey).run ops
    (s.heard.keys.Nodup ∧ s.heard.size ≤ 150) ∧
    (∀ id, s.heard.contains id ↔ ∃ before op after, Since (Knows id) ops before op after) ∧
    (∀ id h before op after, s.heard.get? id = some h → Since (Knows id) ops before op after →
      Tells id before op after h) ∧
    (∀ op, (s.step op).heard = op.onHeard (directSignalAfter ops) s.heard) ∧
    (∀ id position rssi now, s.heard.get? id = none → s.heard.size = 150 →
      s.step (.note id position rssi now) = s) ∧
    (∀ now maxAge,
      let stale := fun e : NodeId × Heard => maxAge.ms.toNat < now.ms.toNat - e.2.lastSeen.ms.toNat
      (s.forget now maxAge).1 = { s with heard := (s.forget now maxAge).1.heard } ∧
      (s.forget now maxAge).1.heard.entries = s.heard.entries.filter (fun e => ¬ stale e) ∧
      (s.forget now maxAge).2 = s.heard.entries.countP fun e => stale e) ∧
    ((s.step .measure).heard = s.heard ∧
      (s.step .measure).measures.total.toNat = s.heard.size ∧
      (s.step .measure).measures.direct ≤ (s.step .measure).measures.total) := by
  intro s
  have hsize : s.heard.size ≤ capacity := size_run ops
  have hdirect : s.directSignal = directSignalAfter ops := directSignal_run ops
  refine ⟨⟨s.heard.nodup_keys, hsize⟩,
    fun id => ⟨exists_since (P := Knows id) Bool.false_ne_true, ?_⟩,
    fun id h before op after hh hsince => tells_of_since hsince hh,
    fun op => hdirect ▸ s.heard_step op, fun id position rssi now hid hfull => ?_,
    fun now maxAge => ⟨rfl, ?_, ?_⟩, rfl, ?_, ?_⟩
  · rintro ⟨before, op, after, hsince⟩
    exact hsince.holds
  · rw [step, note_eq, Op.onHeard, if_pos ⟨hid, hfull.ge⟩]
  · refine List.filter_congr fun e _ => decide_eq_decide.2 ?_
    rw [Instant.since_le_iff, Nat.not_lt]
  · refine (Table.retain_snd ..).trans (List.countP_congr fun e _ => ?_)
    rw [Bool.not_eq_true', decide_eq_false_iff_not, decide_eq_true_eq, Instant.since_le_iff,
      Nat.not_le]
  · exact (measured_measure hsize).total
  · have hmeasured := measured_measure hsize
    have hvalues : s.heard.values.length = s.heard.size := List.length_map ..
    have hle := List.length_filter_le (·.isDirect) s.heard.values
    rw [hvalues] at hle
    exact UInt32.le_iff_toNat_le.2 (hmeasured.direct ▸ hmeasured.total ▸ hle)

/-- A node that was forgotten and heard again, at last through a clock that had gone back. Its
position was lost with the rest, and it counts as direct since the threshold was lowered. Another
one comes to a survey without room. -/
theorem heard_tells_history_reentered :
    let before : List Op := [.note 7 (some ⟨.zero, .zero, ⟨1⟩⟩) (-60) ⟨10⟩, .forget ⟨100⟩ ⟨50⟩]
    let again : Op := .note 7 none (-90) ⟨100⟩
    let after : List Op := [.setDirectSignal (-95), .note 7 none (-90) ⟨80⟩, .forget ⟨20⟩ ⟨50⟩]
    Since (Knows 7) (before ++ again :: after) before again after ∧
      (∃ h, (({} : Survey).run (before ++ again :: after)).heard.get? 7 = some h ∧
        Tells 7 before again after h ∧ h = ⟨.origin, -90, 2, ⟨80⟩, true⟩) ∧
      ∃ crowd, (({} : Survey).run crowd).heard.get? 200 = none ∧
        (({} : Survey).run crowd).heard.size = 150 ∧
        (({} : Survey).run crowd).step (.note 200 none 0 ⟨1⟩) = ({} : Survey).run crowd := by
  intro before again after
  have hstays : ∀ part ∈ after.inits,
      (({} : Survey).run (before ++ again :: part)).heard.contains 7 = true := by decide +kernel
  have hsince : Since (Knows 7) (before ++ again :: after) before again after :=
    ⟨rfl, Bool.false_ne_true, fun part hpart => hstays part ((List.mem_inits part after).2 hpart)⟩
  have hh : (({} : Survey).run (before ++ again :: after)).heard.get? 7 =
      some ⟨.origin, -90, 2, ⟨80⟩, true⟩ := by decide +kernel
  obtain ⟨-, -, htells, -⟩ := heard_tells_history (before ++ again :: after)
  refine ⟨hsince, ⟨_, hh, htells 7 _ before again after hh hsince, rfl⟩,
    (List.range 150).map fun i => .note (.ofNat i) none 0 ⟨0⟩, ?_⟩
  obtain ⟨-, -, -, -, hroom, -⟩ :=
    heard_tells_history ((List.range 150).map fun i => .note (.ofNat i) none 0 ⟨0⟩)
  have hfull (h : _ ∧ _) := And.intro h.1 (And.intro h.2 (hroom 200 none 0 ⟨1⟩ h.1 h.2))
  exact hfull (by decide +kernel)

end Survey
end ClusterMesh
