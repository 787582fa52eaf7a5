import ClusterMesh.Bounded
import ClusterMesh.Identity
import ClusterMesh.Position

/-! The packets that nodes send and relay. Every packet is a beacon with a sender, a
remaining life in hops and the path it took; an announcement or a renouncement of a
candidacy carries a ballot on top. -/
namespace ClusterMesh

def maxHops : Nat := 50

def fullCluster : UInt32 := 150

abbrev Path := Bounded NodeId maxHops

/-- One step of the count of devices reached: each of them, and at least one, reaches
`fresh` more. The count stays at the largest word once it gets there. -/
def reachStep (reached fresh : UInt32) : UInt32 :=
  let base := max 1 reached.toNat
  UInt32.ofNat (min (base + base * fresh.toNat) 0xffffffff)

structure Ballot where
  clusterClass : UInt16 := 0
  direct : UInt32 := 0
  reach : UInt32 := 0
  history : Bounded UInt32 maxHops := .empty
  score : Binary64 := .zero
  hash : UInt32 := 0
  deriving DecidableEq, Inhabited

namespace Ballot

/-- Counts one more hop by a node with `direct` neighbors of which `known` were on the path.
A full history leaves the ballot as it is. -/
def addHop (b : Ballot) (direct known : UInt32) : Ballot :=
  let fresh := direct - min known direct
  match b.history.push? fresh with
  | none => b
  | some history => { b with history, reach := reachStep b.reach fresh }

def isSaturated (b : Ballot) : Bool := fullCluster ≤ b.reach

end Ballot

inductive Content
  | beacon
  | candidacy (ballot : Ballot)
  | renouncement (ballot : Ballot)
  deriving DecidableEq, Inhabited

structure Packet where
  sender : NodeId
  life : UInt8 := 10
  path : Path := .empty
  position : Option Position := none
  fromHead : Bool := false
  content : Content := .beacon
  deriving DecidableEq, Inhabited

namespace Content

def kind : Content → UInt8
  | beacon => 0
  | candidacy _ => 1
  | renouncement _ => 2

def ballot? : Content → Option Ballot
  | beacon => none
  | candidacy b => some b
  | renouncement b => some b

def mapBallot (f : Ballot → Ballot) : Content → Content
  | beacon => beacon
  | candidacy b => candidacy (f b)
  | renouncement b => renouncement (f b)

def isRenouncement : Content → Bool
  | renouncement _ => true
  | _ => false

end Content

namespace Packet

def spendLife? (p : Packet) : Option Packet :=
  if p.life = 0 then none else some { p with life := p.life - 1 }

def addToPath? (p : Packet) (id : NodeId) : Option Packet :=
  (p.path.push? id).map fun path => { p with path }

def hops (p : Packet) : Nat := p.path.size

def transmitter (p : Packet) : NodeId := p.path.last?.getD p.sender

def distance (p : Packet) : UInt8 := UInt8.ofNat (min (max p.hops 1) 255)

end Packet

def candidacyScore (direct : UInt32) (noise : Float) : Float :=
  let d := direct.toFloat
  d + d / fullCluster.toFloat * (1.0 / (noise + 1.0))

end ClusterMesh
