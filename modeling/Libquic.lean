import Libquic.Lib.Machine
import Libquic.Lib.Memory
import Libquic.Lib.OrderedMap
import Libquic.Lib.Segments
import Libquic.Stream.Basic
import Libquic.Stream.SendSpec
import Libquic.Stream.Ledger
import Libquic.Stream.Receive
import Libquic.Connection.Offer
import Libquic.Connection.Early
import Libquic.Endpoint.SendPackets
import Libquic.Connection.Flush
import Libquic.Connection.FlushSpec
import Libquic.Endpoint.Stall
import Libquic.Endpoint.Close
import Libquic.Connection.Streams
import Libquic.Connection.StreamsSpec
import Libquic.Connection.CloseAll
import Libquic.Connection.BackPointer
import Libquic.Connection.Teardown
import Libquic.Datagram.Rotating
import Libquic.Datagram.RotatingSpec
import Libquic.Datagram.Reassembly
import Libquic.Datagram.Late
import Libquic.Datagram.Queue
import Libquic.Datagram.QueueSpec
import Libquic.Datagram.Pending
import Libquic.Datagram.Transfer
import Libquic.Lib.Bencode
import Libquic.Request.Incoming
import Libquic.Request.Chunks
import Libquic.Request.Handlers
import Libquic.Request.RoundTrip
import Libquic.Request.Lifecycle
import Libquic.Request.LifecycleSpec
import Libquic.Request.Answers
import Libquic.Request.Punctual
import Libquic.Request.Destruction
import Libquic.Request.Withdrawal
import Libquic.Loop.JobQueue
import Libquic.Stream.ChunkSender
import Libquic.Stream.ChunkOrder
import Libquic.Stream.ChunkInline
import Libquic.Datagram.Head
import Libquic.Request.Prefix
import Libquic.Connection.IncomingIds
import Libquic.Connection.StreamCredit
import Libquic.Connection.StreamIds
import Libquic.Endpoint.Established
import Libquic.Stream.Watermark
import Libquic.Tls.RemoteKey
import Libquic.Connection.Turn
import Libquic.Endpoint.Fin
import Libquic.Lib.PersistentEvent
import Libquic.Loop.Timers
import Libquic.Tls.Resumption
import Libquic.Datagram.MaxPiece
import Libquic.Datagram.Overhead
import Libquic.Lib.Words
import Libquic.Net.Ip
import Libquic.Net.Nat64
import Libquic.Net.Address
import Libquic.Endpoint.Tables
import Libquic.Tls.AntiReplay
import Libquic.Endpoint.Attempts
import Libquic.Endpoint.ResetTokens
import Libquic.Udp.Gso
import Libquic.Lib.Framing
import Libquic.Tls.Unencrypted
import Libquic.Tls.TicketBuffer
import Libquic.Endpoint.Cids
import Libquic.Datagram.Slots
import Libquic.Lib.EraseDups
import Libquic.Endpoint.Waiters
import Libquic.Connection.Migration
import Libquic.Connection.MigrationSpec
import Libquic.Tls.Handshake
import Libquic.Udp.Send
import Libquic.Udp.Writeable
import Libquic.Udp.Receive
import Libquic.Endpoint.Wakeups
import Libquic.Endpoint.Validation
import Libquic.Endpoint.Dispatch
import Libquic.Endpoint.Nat64Cache
