import ClusterMesh.Loop
import ClusterMesh.Net.World

/-! Runs of a simulated network, event after event up to a time limit. -/
namespace ClusterMesh.Net.World

def next? (limit : Instant) (w : World) : Option (Scheduled × World) :=
  (w.agenda.due? limit).map fun due => (due.1, { w with agenda := due.2 }.happen due.1)

def round (limit : Instant) (w : World) : World ⊕ World :=
  match w.next? limit with
  | none => .inr w
  | some (_, v) => .inl v

/-- No result stands for a run that never comes to an end. -/
def drain (limit : Instant) (w : World) : Option World := Loop.result? (round limit) w

def settle (w : World) (limit : Instant) : World := (w.advanceTo limit).takeSnapshot

def outcome (w : World) : Outcome := ⟨w.now, w.agenda.isEmpty, w.history⟩

def runUntil (w : World) (limit : Instant) : Option (Outcome × World) :=
  (w.drain limit).map fun v => ((v.settle limit).outcome, v.settle limit)

def runFor (w : World) (d : Span) : Option (Outcome × World) := w.runUntil (w.now.after d)

end ClusterMesh.Net.World
