import Lokinet.Lib.FaultState
import Lokinet.Lib.Bytes
import Lokinet.Lib.Bitset
import Lokinet.Lib.SortedMap
import Lokinet.Lib.StdSet
import Lokinet.Lib.Ring
import Lokinet.Util.Buffer
import Lokinet.Util.Bencode
import Lokinet.Dns.Name
import Lokinet.Dns.Message
import Lokinet.Iwp.MessageBuffer
import Lokinet.Iwp.Session
import Lokinet.Iwp.Network
import Lokinet.Proofs.BencodeRead
import Lokinet.Proofs.BencodeWrite
import Lokinet.Proofs.BencodeCodec
import Lokinet.Proofs.DnsName
import Lokinet.Proofs.DnsMessage
import Lokinet.Proofs.IwpMessages
import Lokinet.Proofs.IwpSession
import Lokinet.Proofs.IwpDelivery
import Lokinet.Proofs.IwpState
import Lokinet.Net.AddressInfo
import Lokinet.Router.Contact
import Lokinet.Proofs.AddressCodec
import Lokinet.Proofs.RouterCodec
import Lokinet.Net.IPRange
import Lokinet.Net.TrafficPolicy
import Lokinet.Service.IntroSet
import Lokinet.Proofs.IntroSetEncode
import Lokinet.Proofs.IntroSetDecode
import Lokinet.Proofs.IntroSetCodec
import Lokinet.Quic.Stream
import Lokinet.Proofs.QuicStream
import Lokinet.Lib.AssocMap
import Lokinet.Handlers.Tun
import Lokinet.Handlers.Exit
import Lokinet.Proofs.Allocation
import Lokinet.Dht.TxHolder
import Lokinet.Proofs.DhtTxHolder
import Lokinet.Lib.StreamCipher
import Lokinet.Path.Path
import Lokinet.Proofs.PathOnion
import Lokinet.Messages.RelayCommit
import Lokinet.Proofs.RelayCommit
import Lokinet.Path.Build
import Lokinet.Proofs.PathBuild
import Lokinet.Path.Select
import Lokinet.Proofs.PathSelect
import Lokinet.Lib.Word32
import Lokinet.Thread.Queue
import Lokinet.Proofs.ThreadQueue
import Lokinet.Router.OutboundMessageHandler
import Lokinet.Proofs.OutboundMessages
import Lokinet.Lib.DoubleWord
import Lokinet.Net.Uint128
import Lokinet.Proofs.Uint128
import Lokinet.Lib.PrefixBlock
import Lokinet.Net.Bogon
import Lokinet.Net.IPRangeMap
import Lokinet.Handlers.TunExit
import Lokinet.Proofs.IPRangeSets
import Lokinet.Proofs.ExitRouting
import Lokinet.Proofs.IPRangeText
import Lokinet.Proofs.AddressBounds
import Lokinet.Proofs.IwpReassembly
import Lokinet.Lib.ByteOrder
import Lokinet.Lib.Nearest
import Lokinet.Dht.Bucket
import Lokinet.Proofs.DhtNearest
import Lokinet.Util.Str
import Lokinet.Service.Name
import Lokinet.Proofs.OnsName
import Lokinet.Peerstats.PeerDb
import Lokinet.Proofs.PeerStats
import Lokinet.Routing.MessageParser
import Lokinet.Proofs.RoutingParser
import Lokinet.Net.SockAddr
import Lokinet.Proofs.SockAddrMirror
import Lokinet.Service.EncryptedIntroSet
import Lokinet.Proofs.IntroSetPublish
