import PeatBtle.Convergence
import PeatBtle.Sync.Streams
import PeatBtle.Sync.Delivery
import PeatBtle.DocumentSync
import PeatBtle.Sync.DeltaDocument
import PeatBtle.Relay
import PeatBtle.PeerManager
import PeatBtle.Mesh.Routing
import PeatBtle.Mesh.StrictEncryption
import PeatBtle.Mesh.EntryPoints
import PeatBtle.Mesh.DeltaRefinement
import PeatBtle.Mesh.DeltaCompleteness
import PeatBtle.Mesh.Flood
import PeatBtle.Mesh.FullDelta
import PeatBtle.Heard
import PeatBtle.Fleet
import PeatBtle.Security.Replay
import PeatBtle.Security.Handshake
import PeatBtle.PeerTable
import PeatBtle.Mesh.Agreement
import PeatBtle.Mesh.Staleness
import PeatBtle.Security.RegistryImage
import PeatBtle.Security.Rejection
import PeatBtle.Gatt.Fragmentation
import PeatBtle.Transport
import PeatBtle.Topology.Forwarding
import PeatBtle.Discovery.Privacy
import PeatBtle.Chat.Broadcast
import PeatBtle.Security.SessionLimit
import PeatBtle.Security.RegistryCapacity
import PeatBtle.AddressRotation
import PeatBtle.Reconnect.Status
import PeatBtle.Mesh.Restore
import PeatBtle.Graph.Known
import PeatBtle.Graph.Sightings
import PeatBtle.Mesh.Connections
import PeatBtle.Gossip.SignalFanout
import PeatBtle.Gatt.Transparency
import PeatBtle.Gatt.Loss
import PeatBtle.Gatt.Crash
import PeatBtle.Gatt.Service
import PeatBtle.Topology.Records
import PeatBtle.Topology.Failover
import PeatBtle.Topology.ParentSwitch
import PeatBtle.Power.SyncQueue
import PeatBtle.Power.RadioActivity
import PeatBtle.Sync.Reassembly
import PeatBtle.DeviceName
import PeatBtle.Mesh.Pacing
import PeatBtle.ClearedEmergency
import PeatBtle.Target.Safety
import PeatBtle.Discovery.ScanFilters
import PeatBtle.EmergencyReports
import PeatBtle.CounterChange
import PeatBtle.Acknowledgements
import PeatBtle.Mesh.AnonymousSender
import PeatBtle.Mesh.AppDocuments
import PeatBtle.SeenWindow
import PeatBtle.Data.Eviction
import PeatBtle.SeenLimit
import PeatBtle.Mesh.Echo
import PeatBtle.Sync.OperationFidelity
import PeatBtle.Sync.SentCarried
import PeatBtle.Data.Reservoir
import PeatBtle.Sync.Accumulation
import PeatBtle.Sync.Causality
import PeatBtle.Sync.Crdt.Register
import PeatBtle.Data.TopK
import PeatBtle.Chat.Convergence
import PeatBtle.Discovery.BeaconForms
import PeatBtle.Phy.Strategy
import PeatBtle.Phy.Controller
import PeatBtle.Sync.SentRecords
import PeatBtle.Chat.Identity
import PeatBtle.Chat.RoundTrip
import PeatBtle.Chat.Recency
import PeatBtle.Chat.DocumentMerge
import PeatBtle.Data.Presence
import PeatBtle.PeerLifetime
import PeatBtle.PeerLifetime.History
import PeatBtle.Data.TtlFlood
import PeatBtle.Mesh.FloodNetwork
import PeatBtle.Fleet.Emergencies
import PeatBtle.Data.Mailbox
import PeatBtle.Platform.MockNetwork
import PeatBtle.Platform.MockAdapter
import PeatBtle.Topology.HopTracker
import PeatBtle.Wire.FixedLayout
import PeatBtle.Security.Signing
import PeatBtle.Security.Enrollment
import PeatBtle.Data.Rounds
import PeatBtle.Platform.WriteQueue
import PeatBtle.Platform.WriteOrder
import PeatBtle.Platform.WriteAnswers
import PeatBtle.Platform.WriteProgress
import PeatBtle.Data.LastWrite
import PeatBtle.Gatt.Characteristics
import PeatBtle.Gatt.Server
import PeatBtle.Data.GossipRounds
import PeatBtle.Fleet.Rounds
import PeatBtle.Fleet.EmergencyRounds
import PeatBtle.Data.Simulation
import PeatBtle.Mesh.ActionFrame
import PeatBtle.Mesh.StrictFleet
import PeatBtle.Mesh.Records
import PeatBtle.Mesh.RecordStore
import PeatBtle.Mesh.DeltaFleet
import PeatBtle.Data.RankedLinks
import PeatBtle.Topology.Hierarchy
