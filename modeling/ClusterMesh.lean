import ClusterMesh.Airtime
import ClusterMesh.Binary64
import ClusterMesh.Bounded
import ClusterMesh.Cycle
import ClusterMesh.Fault
import ClusterMesh.Generator
import ClusterMesh.Identity
import ClusterMesh.Loop
import ClusterMesh.Net.Agenda
import ClusterMesh.Net.Forest
import ClusterMesh.Net.Layout
import ClusterMesh.Net.Run
import ClusterMesh.Net.Scenario
import ClusterMesh.Net.Seeds
import ClusterMesh.Net.Snapshot
import ClusterMesh.Net.Topology
import ClusterMesh.Net.World
import ClusterMesh.Node.Basic
import ClusterMesh.Node.Roster
import ClusterMesh.Node.Standing
import ClusterMesh.Packet
import ClusterMesh.Position
import ClusterMesh.Proofs.Ballot
import ClusterMesh.Proofs.Fleet.Basic
import ClusterMesh.Proofs.Fleet.Rivals
import ClusterMesh.Proofs.Fleet.Travel
import ClusterMesh.Proofs.Relay.Queue
import ClusterMesh.Proofs.Relay.Waiting
import ClusterMesh.Proofs.Station.Allegiance
import ClusterMesh.Proofs.Station.Candidate
import ClusterMesh.Proofs.Station.Footprint
import ClusterMesh.Proofs.Station.Frame
import ClusterMesh.Proofs.Station.Hearing
import ClusterMesh.Proofs.Station.Instruments
import ClusterMesh.Proofs.Station.Laps
import ClusterMesh.Proofs.Station.Ledger
import ClusterMesh.Proofs.Station.Promotion
import ClusterMesh.Proofs.Station.Roles
import ClusterMesh.Proofs.Station.Schedule
import ClusterMesh.Proofs.Station.Slots
import ClusterMesh.Proofs.Station.Steps
import ClusterMesh.Proofs.Wire.Frame
import ClusterMesh.Proofs.Wire.Reader
import ClusterMesh.Relay.Policy
import ClusterMesh.Relay.Queue
import ClusterMesh.Role
import ClusterMesh.Settings
import ClusterMesh.Station.Basic
import ClusterMesh.Station.Control
import ClusterMesh.Station.Election
import ClusterMesh.Station.Host
import ClusterMesh.Station.Outbox
import ClusterMesh.Station.Phase
import ClusterMesh.Station.Reception
import ClusterMesh.Station.Slot
import ClusterMesh.Survey.Basic
import ClusterMesh.Survey.Ring
import ClusterMesh.Table
import ClusterMesh.Time
import ClusterMesh.Wire.Frame
import ClusterMesh.Wire.Item
import ClusterMesh.Wire.Reader
import ClusterMesh.Wire.Word
import ClusterMesh.Word
import ClusterMesh.Proofs.Station.Accounts
import ClusterMesh.Proofs.Station.Neighborhood
import ClusterMesh.Proofs.Station.Relaying
import ClusterMesh.Proofs.Station.Expiry
import ClusterMesh.Proofs.Station.Restart
import ClusterMesh.Proofs.Net.Agenda
import ClusterMesh.Proofs.Net.Happen
import ClusterMesh.Proofs.Net.Course
import ClusterMesh.Proofs.Net.Story
import ClusterMesh.Proofs.Net.Ending
import ClusterMesh.Proofs.Net.Split
import ClusterMesh.Proofs.Net.Sequence
import ClusterMesh.Proofs.Net.Provenance
import ClusterMesh.Proofs.Station.Listening
import ClusterMesh.Proofs.Net.Chronicle
import ClusterMesh.Proofs.Net.Carriage
import ClusterMesh.Proofs.Net.Clocks
import ClusterMesh.Proofs.Net.Topology
import ClusterMesh.Proofs.Net.Forest
import ClusterMesh.Proofs.Net.Patchwork
import ClusterMesh.Proofs.Number.Rounding
import ClusterMesh.Proofs.Number.Order
import ClusterMesh.Proofs.Net.Field
import ClusterMesh.Proofs.Station.Preference
import ClusterMesh.Proofs.Station.Arrival
import ClusterMesh.Proofs.Station.Message
import ClusterMesh.Proofs.Checked.Basic
import ClusterMesh.Proofs.Checked.Parts
import ClusterMesh.Proofs.Checked.Frame
import ClusterMesh.Proofs.Station.Bounds
import ClusterMesh.Proofs.Checked.Station
import ClusterMesh.Proofs.Relay.Stock
import ClusterMesh.Proofs.Station.Acquaintance
import ClusterMesh.Proofs.Station.Upkeep
import ClusterMesh.Proofs.Draws
import ClusterMesh.Proofs.Relay.Order
import ClusterMesh.Proofs.Relay.Memory
import ClusterMesh.Proofs.Wire.Stream
import ClusterMesh.Proofs.Checked.Buffer
import ClusterMesh.Proofs.Checked.Hops
import ClusterMesh.Proofs.Survey.Window
import ClusterMesh.Proofs.Airtime
import ClusterMesh.Proofs.Net.Adjacency
import ClusterMesh.Proofs.Net.Isolation
import ClusterMesh.Proofs.History
import ClusterMesh.Proofs.Cycle
import ClusterMesh.Proofs.Number.Whole
import ClusterMesh.Proofs.Shares
import ClusterMesh.Proofs.Roster
import ClusterMesh.Proofs.Wire.Items
import ClusterMesh.Proofs.Checked.Forest
import ClusterMesh.Proofs.Survey.Heard
import ClusterMesh.Proofs.Station.Sightings
import ClusterMesh.Proofs.Number.Quotient
import ClusterMesh.Proofs.Generator
import ClusterMesh.Proofs.Station.Coins
