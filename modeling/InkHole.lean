import InkHole.FileSystem
import InkHole.Program
import InkHole.Names
import InkHole.Data
import InkHole.Protocol
import InkHole.Inbox
import InkHole.Store
import InkHole.Transport
import InkHole.FileCalls
import InkHole.StateNames
import InkHole.Layout
import InkHole.Footprint
import InkHole.Conduct
import InkHole.Handlers
import InkHole.Operations
import InkHole.Overwrite
import InkHole.Announce
import InkHole.Writers
import InkHole.StateFiles
import InkHole.Manifests
import InkHole.FolderWalk
import InkHole.Staging
import InkHole.Materialize
import InkHole.Allocation
import InkHole.Preparing
import InkHole.Reuse
import InkHole.Sending
import InkHole.Agreement
import InkHole.Discovery
import InkHole.Pairings
import InkHole.Routes
import InkHole.Service
import InkHole.SendConduct
import InkHole.SendTarget
import InkHole.OneDevice
import InkHole.Recovery
import InkHole.Resend
import InkHole.EventQueue
import InkHole.Codes
import InkHole.Json
import InkHole.Authentication
import InkHole.Registry
import InkHole.Farewell
import InkHole.FolderScan
import InkHole.PairingCodes
import InkHole.Snapshots
import InkHole.RelayFrames
import InkHole.PairExchange
import InkHole.DataChannel
import InkHole.Impersonation
import InkHole.Secrets
import InkHole.Tunnel
import InkHole.Rendezvous
import InkHole.Phases
import InkHole.PeerSnapshots
import InkHole.ManifestSpec
import InkHole.LinkedPaths
import InkHole.FolderContents
import InkHole.NormalForms
import InkHole.Spellings
import InkHole.Guards
import InkHole.StagedCalls
import InkHole.Lifetimes
import InkHole.ServiceOperations
import InkHole.Registrations
import InkHole.Duties
import InkHole.Custody
import InkHole.Shutdown
import InkHole.Automata
import InkHole.CoreWorkers
import InkHole.CoreShutdown
import InkHole.HomePage
import InkHole.ReceivePause
import InkHole.SendPause
import InkHole.Demultiplexing
import InkHole.SafeNames
import InkHole.InboxFilter
import InkHole.Exporter
import InkHole.Patterns
import InkHole.ExportAtomicity
import InkHole.ReceivedCleaner
import InkHole.DartStrings
import InkHole.SshProfiles
import InkHole.ManualPeers
import InkHole.DiscoveryTargets
import InkHole.DnsPackets
import InkHole.DnsResponses
import InkHole.AddressRace
import InkHole.Transit
import InkHole.TransitAgreement
import InkHole.TransferIds
import InkHole.AcrossServers
import InkHole.Destinations
import InkHole.Documents
import InkHole.DestinationRecords
import InkHole.EntryNames
import InkHole.StateRecords
import InkHole.Completion
import InkHole.Frames
import InkHole.Transcripts
import InkHole.SshChannel
import InkHole.TransferLocks
import InkHole.ProbeTasks
import InkHole.EventWakeups
import InkHole.CoreConnection
import InkHole.CoreCalls
import InkHole.Stages
import InkHole.FileStages
import InkHole.Receiving
import InkHole.FileDelivery
import InkHole.FolderStages
import InkHole.FolderDelivery
import InkHole.Streams
import InkHole.Attempts
import InkHole.Resumption
import InkHole.Convergence
import InkHole.Dialogue
import InkHole.Exchanges
import InkHole.Records
import InkHole.WormholeOffers
import InkHole.WormholeSessions
import InkHole.StreamSlots
import InkHole.SendTasks
