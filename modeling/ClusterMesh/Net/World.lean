import ClusterMesh.Net.Agenda
import ClusterMesh.Net.Layout
import ClusterMesh.Net.Seeds
import ClusterMesh.Net.Snapshot
import ClusterMesh.Station.Control

/-! A simulated network: stations, the topology that joins them, and an agenda of what is to
happen. An event lets one node act or changes the network, and what a node sends becomes
events again. -/
namespace ClusterMesh.Net

structure Resident where
  station : Station
  joined : Instant

namespace Resident

def start (settings : Settings) (seed : UInt64) (joined : Instant) (hash : Hash := hashWord) :
    Except SettingsError Resident :=
  let seeds := nodeSeeds seed settings.id hash
  let settings := { settings with timingSeed := seeds.1, relaySeed := seeds.2 }
  (Station.start settings { measures := false }).map fun station => { station, joined }

def modify (r : Resident) (f : Station → Station) : Resident := { r with station := f r.station }

def place (r : Resident) (x y : Float) : Resident := r.modify (·.locate (.ofFloats x y 0.0))

def isHead (r : Resident) : Bool := r.station.node.role = .head

def head? (r : Resident) : Option NodeId :=
  if r.station.node.hasHead then some r.station.node.head else none

def takeFrames (r : Resident) : List (List UInt8) × Resident :=
  (r.station.outbox.packets.toList.map Packet.encode,
    r.modify fun s => { s with outbox := { s.outbox with packets := #[] } })

def takeTraces (r : Resident) : List Trace × Resident :=
  (r.station.outbox.traces.toList,
    r.modify fun s => { s with outbox := { s.outbox with traces := .empty } })

def takeNotices (r : Resident) : Array Notice × Resident :=
  (r.station.outbox.notices,
    r.modify fun s => { s with outbox := { s.outbox with notices := #[] } })

def record (r : Resident) : Record where
  role := r.station.node.role
  head := r.head?
  direct := r.station.node.countDirect
  candidateHeard := r.station.node.candidateHeard
  counts := r.station.node.counts

end Resident

structure World where
  residents : Table NodeId Resident := .empty
  topology : Topology := {}
  template : Settings := {}
  seed : UInt64
  hash : Hash
  now : Instant := .zero
  agenda : Agenda := .empty
  planned : Nat := 0
  history : History := {}
  lossState : UInt64
  interval? : Option Span := none
  nextSnapshot? : Option Instant := none

namespace World

def ofSeed (seed : UInt64) (hash : Hash := hashWord) : World := { seed, hash, lossState := seed }

def withInterval (w : World) (interval : Span) : World :=
  { w with interval? := some interval, nextSnapshot? := some (w.now.after interval) }

def names (w : World) : List NodeId := w.residents.keys.mergeSort fun a b => a ≤ b

/-- Puts an event on the agenda. Its number is that of the events before it, in one word. -/
def schedule (w : World) (time : Instant) (event : Event) : World :=
  { w with
    agenda := w.agenda.insert ⟨time, .ofNat w.planned, event⟩
    planned := w.planned + 1 }

/-- Adds a node, in place of one with the same name, whose first slot begins at once. -/
def add (w : World) (id : NodeId) : Except SettingsError World :=
  match Resident.start { w.template with id } w.seed w.now w.hash with
  | .error e => .error e
  | .ok r =>
    let r :=
      match w.topology.place? id with
      | some (x, y) => r.place x y
      | none => r
    .ok ({ w with residents := w.residents.insert id r }.schedule w.now (.tick id))

/-! ## Snapshots -/

def snapshot (w : World) : Snapshot := ⟨w.now, w.residents.mapValues fun _ r => r.record⟩

def takeSnapshot (w : World) : World :=
  { w with history := { w.history with snapshots := w.history.snapshots.push w.snapshot } }

def snapshotIfDue (w : World) : World :=
  match w.nextSnapshot? with
  | none => w
  | some next =>
    if next ≤ w.now then
      { w.takeSnapshot with nextSnapshot? := some ((w.interval?.map next.after).getD next) }
    else w

/-! ## Frames on the air -/

def draw (w : World) : Float × World :=
  let s := lcg64Step w.lossState
  (s.toFloat / (0xffffffffffffffff : UInt64).toFloat, { w with lossState := s })

/-- Whether a copy of a frame gets over a link. A link without loss costs no draw. -/
def survives (w : World) (l : Link) : Bool × World :=
  if 0.0 < l.loss then
    let (draw, w) := w.draw
    if draw < l.loss then
      (false, { w with history := { w.history with lost := w.history.lost.succSat } })
    else (true, w)
  else (true, w)

def reached (w : World) (sender : NodeId) : List NodeId → List (NodeId × Link) × World
  | [] => ([], w)
  | n :: ns =>
    match w.topology.link? sender n with
    | none => w.reached sender ns
    | some l =>
      let (survived, w) := w.survives l
      let (rest, w) := w.reached sender ns
      (if survived then (n, l) :: rest else rest, w)

def broadcast (w : World) (sender : NodeId) (bytes : List UInt8) : World :=
  let w := { w with history := { w.history with sent := w.history.sent.succSat } }
  let (copies, w) := w.reached sender (w.topology.neighbors sender)
  copies.foldl (fun w c =>
    w.schedule (w.now.after c.2.delay) (.delivery c.1 sender bytes c.2.rssi)) w

/-! ## Events -/

def advanceTo (w : World) (time : Instant) : World := { w with now := w.now.latest time }

def modify (w : World) (id : NodeId) (f : Resident → Resident) : World :=
  { w with residents := w.residents.modify id f }

def collect (w : World) (id : NodeId) : World :=
  match w.residents.get? id with
  | none => w
  | some r =>
    let (frames, r) := r.takeFrames
    frames.foldl (fun w bytes => w.broadcast id bytes)
      { w with residents := w.residents.insert id r }

def deliver (w : World) (target : NodeId) (bytes : List UInt8) (rssi : Int8) : World :=
  match w.residents.get? target with
  | none => w
  | some r =>
    let (result, station) := r.station.receiveBytes bytes rssi w.now
    let history :=
      match result with
      | .ok _ => { w.history with delivered := w.history.delivered.succSat }
      | .error _ => { w.history with undecodable := w.history.undecodable.succSat }
    { w with residents := w.residents.insert target { r with station }, history }.collect target

def fireTick (w : World) (id : NodeId) : World :=
  match w.residents.get? id with
  | none => w
  | some r =>
    let r := r.modify (·.tick w.now)
    let next := w.now.after r.station.slotSpan
    ({ w with residents := w.residents.insert id r }.collect id).schedule next (.tick id)

def perform (w : World) : Action → World
  | .partition groups => { w with topology := w.topology.partition groups }
  | .heal => { w with topology := w.topology.heal }
  | .cut a b => { w with topology := w.topology.adjust a b ({ · with active := false }) }
  | .restore a b => { w with topology := w.topology.adjust a b ({ · with active := true }) }
  | .setLoss a b loss => { w with topology := w.topology.adjust a b (·.setLoss loss) }
  | .powerDown id => w.modify id (·.modify Station.disable)
  | .powerUp id => w.modify id (·.modify Station.enable)
  | .snapshot => w.takeSnapshot

def handle (w : World) : Event → World
  | .delivery target _ bytes rssi => w.deliver target bytes rssi
  | .tick id => w.fireTick id
  | .action a => w.perform a

def happen (w : World) (e : Scheduled) : World :=
  ((w.advanceTo e.time).handle e.event).snapshotIfDue

end World
end ClusterMesh.Net
