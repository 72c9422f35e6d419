import CekyP2P.Core.Bytes
import CekyP2P.Core.Trace
import CekyP2P.Core.Exec
import CekyP2P.Core.Labelled
import CekyP2P.Core.Rounds
import CekyP2P.Core.Symbolic
import CekyP2P.Core.Buf
import CekyP2P.Core.Path
import CekyP2P.Core.Incremental
import CekyP2P.Core.Reissue
import CekyP2P.Core.InFlight
import CekyP2P.Core.Least
import CekyP2P.Core.XorTree
import CekyP2P.Core.OneChange
import CekyP2P.Core.FiniteMap
import CekyP2P.Core.Text
import CekyP2P.Protocol.Transfer
import CekyP2P.Protocol.TransferCodec
import CekyP2P.Protocol.Codec
import CekyP2P.Protocol.Integrity
import CekyP2P.Protocol.Stream
import CekyP2P.Protocol.Dht
import CekyP2P.Protocol.FindNodeResp
import CekyP2P.Protocol.RoundTrip
import CekyP2P.Crypto.ReplayWindow
import CekyP2P.Crypto.Aead
import CekyP2P.Crypto.Session
import CekyP2P.Crypto.Channel
import CekyP2P.Crypto.Suite
import CekyP2P.Crypto.Noise
import CekyP2P.Crypto.NoiseAgreement
import CekyP2P.Crypto.NoiseCalls
import CekyP2P.Crypto.NoiseOrder
import CekyP2P.Crypto.NoiseRefusal
import CekyP2P.Crypto.NoiseWorld
import CekyP2P.Crypto.NoiseAuth
import CekyP2P.Crypto.NoiseMutual
import CekyP2P.Crypto.Identity
import CekyP2P.Crypto.XorMetric
import CekyP2P.Crypto.PeerIdText
import CekyP2P.Transport.Connection
import CekyP2P.Transport.SocketPair
import CekyP2P.Transport.Pool
import CekyP2P.Transport.Tcp
import CekyP2P.Transport.Lifecycle
import CekyP2P.Transport.EntryStates
import CekyP2P.Transport.SendAccounting
import CekyP2P.Transport.OneConnection
import CekyP2P.Nat.Stun
import CekyP2P.Nat.StunAttributes
import CekyP2P.Nat.Relay
import CekyP2P.Nat.RelaySessions
import CekyP2P.Nat.RelayLimits
import CekyP2P.Transfer.Manager
import CekyP2P.Transfer.Handlers
import CekyP2P.Transfer.Tiling
import CekyP2P.Transfer.FileHash
import CekyP2P.Transfer.Pump
import CekyP2P.Transfer.Guards
import CekyP2P.Transfer.Receiving
import CekyP2P.Transfer.Sending
import CekyP2P.Transfer.Link
import CekyP2P.Transfer.Root
import CekyP2P.Transfer.Accounting
import CekyP2P.Transfer.Destination
import CekyP2P.Transfer.Arithmetic
import CekyP2P.Transfer.Isolation
import CekyP2P.Transfer.Selection
import CekyP2P.Transfer.ChunkPlace
import CekyP2P.Transfer.SharedFiles
import CekyP2P.Transfer.Retransmission
import CekyP2P.Transfer.Ledger
import CekyP2P.Transfer.InOrder
import CekyP2P.Dht.Storage
import CekyP2P.Dht.Expiry
import CekyP2P.Dht.Removal
import CekyP2P.Dht.ExpireIndex
import CekyP2P.Dht.Concurrent
import CekyP2P.Dht.ReadThrough
import CekyP2P.Dht.PeerInfo
import CekyP2P.Dht.Routing
import CekyP2P.Dht.RoutingInvariant
import CekyP2P.Dht.Closest
import CekyP2P.Dht.Eviction
import CekyP2P.Dht.LastSeen
import CekyP2P.Dht.Bootstrap
import CekyP2P.Dht.Lookup
import CekyP2P.Dht.SuperNode
import CekyP2P.Dht.Latency
import CekyP2P.Dht.Promotion
import CekyP2P.Dht.Pruning
import CekyP2P.Dht.Convergence
import CekyP2P.Node.EventLoop
import CekyP2P.Node.Recipient
import CekyP2P.Node.WireSize
import CekyP2P.Node.WireInput
import CekyP2P.Node.TypeBinding
import CekyP2P.Node.PeerIdParsers
import CekyP2P.Node.Changes
import CekyP2P.Node.Sessions
import CekyP2P.Node.Convergence
import CekyP2P.Node.Handshakes
import CekyP2P.Node.Dialogue
import CekyP2P.Node.Messages
import CekyP2P.Node.Stack
import CekyP2P.Node.Swarm
import CekyP2P.Node.Transfers
import CekyP2P.Node.Delivery
import CekyP2P.Node.Arrival
