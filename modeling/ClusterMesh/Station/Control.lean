import ClusterMesh.Station.Reception
import ClusterMesh.Station.Slot

/-! What a host may do to a station besides its slots and receptions, and whole runs of
host operations. -/
namespace ClusterMesh.Station

def setCrowding (s : Station) (crowding : Float) : Station :=
  { s with crowding := clampUnit crowding }

def setNoise (s : Station) (noise : Float) : Station :=
  { s with node := { s.node with noise } }

def locate (s : Station) (p : Position) : Station := { s with node := s.node.locate p }

def forgetPosition (s : Station) : Station := { s with node := s.node.forgetPosition }

def noteCandidate (s : Station) : Station := { s with node := s.node.noteCandidate }

def reseed (s : Station) (seed : UInt32) : Station :=
  { s with dice := Generator.reseed seed s.dice }

def enable (s : Station) : Station := { s with enabled := true }

def disable (s : Station) : Station := { s with enabled := false }

def collect (s : Station) : Outbox × Station := (s.outbox, { s with outbox := {} })

inductive Op
  | tick (now : Instant)
  | receive (p : Packet) (rssi : Int8) (now : Instant)
  | receiveBytes (bytes : List UInt8) (rssi : Int8) (now : Instant)
  | setCrowding (crowding : Float)
  | setNoise (noise : Float)
  | locate (p : Position)
  | forgetPosition
  | noteCandidate
  | reseed (seed : UInt32)
  | enable
  | disable
  | reset

def step (s : Station) : Op → Station
  | .tick now => s.tick now
  | .receive p rssi now => (s.receive p rssi now).2
  | .receiveBytes bytes rssi now => (s.receiveBytes bytes rssi now).2
  | .setCrowding crowding => s.setCrowding crowding
  | .setNoise noise => s.setNoise noise
  | .locate p => s.locate p
  | .forgetPosition => s.forgetPosition
  | .noteCandidate => s.noteCandidate
  | .reseed seed => s.reseed seed
  | .enable => s.enable
  | .disable => s.disable
  | .reset => s.reset

def run (s : Station) (ops : List Op) : Station := ops.foldl step s

end ClusterMesh.Station
