import ClusterMesh.Net.Run

/-! Descriptions of simulations: so many nodes, named from one on, a topology, and what is to
happen at which time. -/
namespace ClusterMesh.Net

inductive Arrangement
  | full
  | line
  | star
  | field (side range : Float)
  /-- As given. The names must be those of the scenario. -/
  | given (t : Topology)

structure Scenario where
  size : Nat
  seed : UInt64 := 42
  hash : Hash := hashWord
  arrangement : Arrangement := .full
  loss : Float := 0.0
  delay : Span := ⟨1⟩
  slotMs : UInt32 := 50
  life? : Option UInt8 := none
  plan : SlotPlan := .compact
  actions : List (Instant × Action) := []
  interval? : Option Span := none

namespace Scenario

def simple (size : Nat) : Scenario := { size }

def field (size : Nat) : Scenario := { size, arrangement := .field 200.0 120.0 }

def setLoss (s : Scenario) (loss : Float) : Scenario := { s with loss := clampUnit loss }

def name (index : Nat) : NodeId := UInt32.ofNat index + 1

def names (s : Scenario) : List NodeId := (List.range s.size).map name

def schedule (s : Scenario) (time : Instant) (a : Action) : Scenario :=
  { s with actions := s.actions ++ [(time, a)] }

def partitionAt (s : Scenario) (time : Instant) (groups : List (List Nat)) : Scenario :=
  s.schedule time (.partition (groups.map fun g => g.map name))

def healAt (s : Scenario) (time : Instant) : Scenario := s.schedule time .heal
def snapshotAt (s : Scenario) (time : Instant) : Scenario := s.schedule time .snapshot

def powerDownAt (s : Scenario) (time : Instant) (index : Nat) : Scenario :=
  s.schedule time (.powerDown (name index))

def powerUpAt (s : Scenario) (time : Instant) (index : Nat) : Scenario :=
  s.schedule time (.powerUp (name index))

def settings (s : Scenario) : Settings :=
  let base : Settings := {}
  { base with slotMs := s.slotMs, plan := s.plan, life := s.life?.getD base.life }

def topology (s : Scenario) : Topology :=
  let t :=
    match s.arrangement with
    | .full => Topology.full s.names
    | .line => Topology.line s.names
    | .star => Topology.star s.names
    | .field side range => Topology.scattered s.names s.seed side range
    | .given t => t
  let t := if 0.0 < s.loss then t.setLoss s.loss else t
  t.setDelay s.delay

def build (s : Scenario) : Except SettingsError World :=
  let base := { World.ofSeed s.seed s.hash with topology := s.topology, template := s.settings }
  let empty :=
    match s.interval? with
    | some interval => base.withInterval interval
    | none => base
  match s.names.foldlM World.add empty with
  | .error e => .error e
  | .ok w => .ok (s.actions.foldl (fun w a => w.schedule a.1 (.action a.2)) w)

def runFor (s : Scenario) (d : Span) : Except SettingsError (Option Outcome) :=
  s.build.map fun w => (w.runFor d).map Prod.fst

def runUntil (s : Scenario) (limit : Instant) : Except SettingsError (Option Outcome) :=
  s.build.map fun w => (w.runUntil limit).map Prod.fst

end Scenario
end ClusterMesh.Net
