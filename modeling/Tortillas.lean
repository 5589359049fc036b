import Tortillas.AnnounceTimers
import Tortillas.AnnounceUrl
import Tortillas.Arithmetic
import Tortillas.Availability
import Tortillas.Bencode
import Tortillas.BencodeDecode
import Tortillas.BlockDeeds
import Tortillas.Broadcast
import Tortillas.ByteStore
import Tortillas.Bytes
import Tortillas.Choking
import Tortillas.ChosenPeers
import Tortillas.ClosestContacts
import Tortillas.CompactCodecs
import Tortillas.Completion
import Tortillas.Configuration
import Tortillas.Connection
import Tortillas.Conversation
import Tortillas.ConversationBlocks
import Tortillas.Dealings
import Tortillas.DhtActor
import Tortillas.DhtDirectory
import Tortillas.DhtNetwork
import Tortillas.DhtNode
import Tortillas.DhtState
import Tortillas.DhtTasks
import Tortillas.Documents
import Tortillas.DownloadRuns
import Tortillas.EngineRestore
import Tortillas.ExtendedDictionary
import Tortillas.FailedPieces
import Tortillas.FaithfulBlocks
import Tortillas.Fields
import Tortillas.FinishedDownload
import Tortillas.Framing
import Tortillas.FramingIndependence
import Tortillas.HandshakeRuns
import Tortillas.Handshaking
import Tortillas.HashMap
import Tortillas.HostileInput
import Tortillas.InFileStorage
import Tortillas.InfoDict
import Tortillas.InfoHash
import Tortillas.Krpc
import Tortillas.Layout
import Tortillas.Lifecycle
import Tortillas.LiveHub
import Tortillas.LivePublisher
import Tortillas.LookupRounds
import Tortillas.MetaInfo
import Tortillas.MetadataAssembly
import Tortillas.OpenPieces
import Tortillas.OptimisticTurns
import Tortillas.OutputPaths
import Tortillas.Outstanding
import Tortillas.PeerActor
import Tortillas.PeerAnswers
import Tortillas.PeerHandles
import Tortillas.PeerId
import Tortillas.PeerIdDisplay
import Tortillas.PeerLookup
import Tortillas.PeerMessages
import Tortillas.PeerPanics
import Tortillas.PeerScopes
import Tortillas.PeerStream
import Tortillas.PieceCoverage
import Tortillas.PieceLengths
import Tortillas.PieceManager
import Tortillas.PieceScheduler
import Tortillas.PieceTiling
import Tortillas.ProgressAccounting
import Tortillas.QueryFutures
import Tortillas.ReceiveLoop
import Tortillas.RechokeTimers
import Tortillas.Reconciliation
import Tortillas.RecordedBlocks
import Tortillas.Registered
import Tortillas.RequestAgreement
import Tortillas.RequestScan
import Tortillas.RequestWindow
import Tortillas.RequestedBlocks
import Tortillas.RestoreRoundTrip
import Tortillas.RoutingTable
import Tortillas.SchedulerInvariant
import Tortillas.ServedBlocks
import Tortillas.SilentPeers
import Tortillas.SlotTable
import Tortillas.Snapshot
import Tortillas.SnapshotSchema
import Tortillas.SnapshotValid
import Tortillas.SpokenContacts
import Tortillas.StaleConnections
import Tortillas.Swarm
import Tortillas.SwarmRounds
import Tortillas.TokenLifetime
import Tortillas.TorrentActor
import Tortillas.TorrentChanges
import Tortillas.TorrentFrames
import Tortillas.TorrentHandles
import Tortillas.TrackerActor
import Tortillas.TrackerEvents
import Tortillas.TrackerUri
import Tortillas.Transactions
import Tortillas.TransferMetrics
import Tortillas.Transition
import Tortillas.UdpServer
import Tortillas.UdpTracker
import Tortillas.UdpWire
import Tortillas.Usize
import Tortillas.Verified
import Tortillas.WireRoundTrip
