import Peerward.Android.TunAnswers
import Peerward.Android.TunReplies
import Peerward.Carrier.BridgeProgress
import Peerward.Carrier.Budgets
import Peerward.Carrier.FrameReader
import Peerward.Carrier.QuicData
import Peerward.Carrier.Replay
import Peerward.Carrier.RetiredChecked
import Peerward.Control.DeploymentHistory
import Peerward.Control.RotationRuns
import Peerward.Credentials.TrustRuns
import Peerward.Dataplane.FirewallBounds
import Peerward.Dataplane.FragmentBoundary
import Peerward.Dataplane.FragmentRule
import Peerward.Dataplane.ReassemblyAccounting
import Peerward.Directory.ChunkRuns
import Peerward.Directory.ShortestHops
import Peerward.Directory.SparseGraph
import Peerward.Dns.StandardQueries
import Peerward.Management.DeviceConditions
import Peerward.Management.DnsAnswers
import Peerward.Management.DnsRoutes
import Peerward.Management.LeaseRuns
import Peerward.Management.ResourceDecisions
import Peerward.Management.SelectionRuns
import Peerward.P2p.StunGrammar
import Peerward.PeerCore.CoordinationCodec
import Peerward.PeerCore.CoordinationPackets
import Peerward.PeerCore.DirectoryRuns
import Peerward.PeerCore.Floors
import Peerward.PeerCore.Generations
import Peerward.PeerCore.PairIsolation
import Peerward.PeerCore.PathMtu
import Peerward.PeerCore.RelatedErrors
import Peerward.PeerCore.RelayPoolRotation
import Peerward.PeerCore.UpdateAtomicity
import Peerward.Platform.CleanFailure
import Peerward.Policy.HostBits
import Peerward.Policy.Meaning
import Peerward.Relay.BackboneExact
import Peerward.Relay.Bootstrap
import Peerward.Relay.Keepalive
import Peerward.Relay.PresenceRuns
import Peerward.Relay.RouterRuns
import Peerward.Store.Addresses
import Peerward.Store.OutboxRuns
import Peerward.Updater.CrashSafety
