import ClusterMesh.Proofs.Net.Sequence

/-! What was done in a simulation and what happened in it, turn by turn. A chronicle is a story
that also tells by which turn each state was left. -/
namespace ClusterMesh.Net

inductive Turn
  | deed (d : Deed)
  | event (e : Scheduled)
  | rest (limit : Instant)

namespace World

inductive Takes (allowed : Deed → Prop) (w : World) : Turn → World → Prop
  | deed (d : Deed) (h : allowed d) : Takes allowed w (.deed d) (w.undergo d)
  | event {limit : Instant} {e : Scheduled} {v : World} (h : w.next? limit = some (e, v)) :
      Takes allowed w (.event e) v
  | rest {limit : Instant} (h : w.next? limit = none) :
      Takes allowed w (.rest limit) (w.settle limit)

theorem moves_iff_takes {allowed : Deed → Prop} {w v : World} :
    w.Moves allowed v ↔ ∃ t, w.Takes allowed t v := by
  constructor
  · rintro (⟨d, h⟩ | h | h)
    · exact ⟨_, .deed d h⟩
    · exact ⟨_, .event h⟩
    · exact ⟨_, .rest h⟩
  · rintro ⟨_, ⟨d, h⟩ | h | h⟩
    · exact .deed d h
    · exact .event h
    · exact .rest h

end World

/-- The turns of a simulation from its start on, each with the state that it was taken in and the
latest one first, and the state that they lead to. -/
inductive Chronicle (allowed : Deed → Prop) : List (World × Turn) → World → Prop
  | start (seed : UInt64) (hash : Hash) : Chronicle allowed [] (World.ofSeed seed hash)
  | turn {past : List (World × Turn)} {w v : World} {t : Turn} (h : Chronicle allowed past w)
      (ht : w.Takes allowed t v) : Chronicle allowed ((w, t) :: past) v

section chronicle
variable {allowed : Deed → Prop}

/-- Every story can be told turn by turn. -/
theorem Story.chronicle {ws : List World} (h : Story allowed ws) :
    ∀ w us, ws = w :: us → ∃ past, Chronicle allowed past w ∧ past.map Prod.fst = us := by
  induction h with
  | start seed hash =>
    rintro w us ⟨⟩
    exact ⟨[], .start seed hash, rfl⟩
  | @move w v us h hm ih =>
    rintro _ _ ⟨⟩
    obtain ⟨past, hpast, rfl⟩ := ih w us rfl
    obtain ⟨t, ht⟩ := World.moves_iff_takes.1 hm
    exact ⟨(w, t) :: past, hpast.turn ht, rfl⟩

theorem chronicle_build_of {s : Scenario} {w : World} (h : s.build = .ok w)
    (ha : ∀ d : Deed, d.Scripted → (∀ t, d = .arrange t → t = s.topology) → allowed d) :
    ∃ past, Chronicle allowed past w := by
  obtain ⟨us, hus⟩ := told_build_of h ha
  obtain ⟨past, hpast, -⟩ := hus.chronicle w us rfl
  exact ⟨past, hpast⟩

theorem Chronicle.passes {past : List (World × Turn)} {w v : World}
    (h : Chronicle allowed past w) {limit : Instant} {es : List Scheduled}
    (hp : World.Passes limit w es v) : ∃ between, Chronicle allowed (between ++ past) v := by
  induction es generalizing w past with
  | nil =>
    rw [hp]
    exact ⟨[], h⟩
  | cons e es ih =>
    obtain ⟨u, hu, hv⟩ := hp
    obtain ⟨between, hb⟩ := ih (h.turn (.event hu)) hv
    exact ⟨between ++ [(w, .event e)], by simpa using hb⟩

end chronicle
end ClusterMesh.Net
