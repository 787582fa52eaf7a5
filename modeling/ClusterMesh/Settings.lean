import ClusterMesh.Identity
import ClusterMesh.Time

/-! What a node is configured with: its name, the slots of each phase, how it relays, and
the seeds of its generators. -/
namespace ClusterMesh

structure SlotPlan where
  noisyCount : UInt32
  noisyMs : UInt32
  neighborCount : UInt32
  neighborMs : UInt32
  deriving DecidableEq, Repr

namespace SlotPlan

def standard : SlotPlan := ⟨10, 200, 200, 10⟩

def compact : SlotPlan := ⟨4, 50, 8, 10⟩

end SlotPlan

structure Settings where
  id : NodeId := nobody
  slotMs : UInt32 := 100
  life : UInt8 := 10
  proximity : Float := 10.0
  plan : SlotPlan := .standard
  patience : UInt32 := 3
  timingSeed : UInt32 := 12345
  relaySeed : UInt32 := 0

inductive SettingsError
  | reservedId
  | noSender
  | zeroLength
  | zeroCount
  deriving DecidableEq, Inhabited, Repr

def SettingsError.message : SettingsError → String
  | reservedId => "node id 0 is reserved"
  | noSender => "send hook is required"
  | zeroLength => "slot duration must be non-zero"
  | zeroCount => "phase slot count must be non-zero"

namespace Settings

def check (s : Settings) : Except SettingsError Unit :=
  if s.id = nobody then .error .reservedId
  else if s.slotMs = 0 ∨ s.plan.noisyMs = 0 ∨ s.plan.neighborMs = 0 then .error .zeroLength
  else if s.plan.noisyCount = 0 ∨ s.plan.neighborCount = 0 then .error .zeroCount
  else .ok ()

structure Valid (s : Settings) : Prop where
  id_ne : s.id ≠ nobody
  slotMs_ne : s.slotMs ≠ 0
  noisyMs_ne : s.plan.noisyMs ≠ 0
  neighborMs_ne : s.plan.neighborMs ≠ 0
  noisyCount_ne : s.plan.noisyCount ≠ 0
  neighborCount_ne : s.plan.neighborCount ≠ 0

theorem check_eq_ok_iff (s : Settings) : s.check = .ok () ↔ s.Valid := by
  constructor
  · intro h
    unfold check at h
    split at h
    · cases h
    split at h
    · cases h
    split at h
    · cases h
    constructor <;> simp_all
  · intro h
    simp [check, h.id_ne, h.slotMs_ne, h.noisyMs_ne, h.neighborMs_ne, h.noisyCount_ne,
      h.neighborCount_ne]

end Settings
end ClusterMesh
