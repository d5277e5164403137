import KtcpSplit.Lib.Transition
import KtcpSplit.Lib.SearchTree
import KtcpSplit.Core.ConnKey
import KtcpSplit.Core.Endian
import KtcpSplit.Tree.RbData
import KtcpSplit.Tree.Listner
import KtcpSplit.Core.QpCpu
import KtcpSplit.Core.OnlineCpu
import KtcpSplit.Packet.SkBuff
import KtcpSplit.Packet.Hooks
import KtcpSplit.Packet.ProbePointer
import KtcpSplit.Packet.ProbeTuple
import KtcpSplit.Rendezvous.Model
import KtcpSplit.Rendezvous.Steps
import KtcpSplit.Rendezvous.Owners
import KtcpSplit.Rendezvous.Linked
import KtcpSplit.Rendezvous.Exclusive
import KtcpSplit.Rendezvous.Pairing
import KtcpSplit.Rendezvous.Frames
import KtcpSplit.Rendezvous.Removal
import KtcpSplit.Rendezvous.Lifetime
import KtcpSplit.Rendezvous.Stale
import KtcpSplit.Lib.Bag
import KtcpSplit.Lib.Ledger
import KtcpSplit.Lib.Pipeline
import KtcpSplit.Lib.Ranking
import KtcpSplit.Lib.LinkedList
import KtcpSplit.Lib.ByteRange
import KtcpSplit.Lib.MessageLog
import KtcpSplit.Magazine.Allocator
import KtcpSplit.Magazine.Calls
import KtcpSplit.Magazine.Refinement
import KtcpSplit.Magazine.Representation
import KtcpSplit.Pool.Cycle
import KtcpSplit.Pool.Tasks
import KtcpSplit.Pool.Creation
import KtcpSplit.Lib.WrappingTree
import KtcpSplit.Tree.Lookups
import KtcpSplit.Preconn.Cap
import KtcpSplit.Preconn.Entries
import KtcpSplit.Preconn.Command
import KtcpSplit.Duplex.Forwarding
import KtcpSplit.Duplex.Chain
import KtcpSplit.Duplex.Balance
import KtcpSplit.Duplex.References
import KtcpSplit.Duplex.Decoding
import KtcpSplit.Duplex.StackFrame
import KtcpSplit.Magazine.Loads
import KtcpSplit.Pool.Refill
import KtcpSplit.Pool.Converge
import KtcpSplit.Pool.Magazines
import KtcpSplit.Server.Model
import KtcpSplit.Server.Steps
import KtcpSplit.Server.Listners
import KtcpSplit.Server.Exclusive
import KtcpSplit.Server.Connections
import KtcpSplit.Rendezvous.Listners
import KtcpSplit.Server.Attended
import KtcpSplit.Server.Stop
import KtcpSplit.Server.Listing
import KtcpSplit.Server.Command
import KtcpSplit.Magazine.Memory
import KtcpSplit.Magazine.Stranded
import KtcpSplit.Magazine.Depot
import KtcpSplit.Magazine.Recycled
import KtcpSplit.Rendezvous.Fallback
import KtcpSplit.Rendezvous.WaitReady
import KtcpSplit.Work.Records
import KtcpSplit.Work.Setup
import KtcpSplit.Work.Handover
import KtcpSplit.Logger.Model
import KtcpSplit.Logger.StatsList
import KtcpSplit.Logger.Write
import KtcpSplit.Logger.Buffer
import KtcpSplit.Logger.Delivery
import KtcpSplit.Logger.Growing
import KtcpSplit.Unload.Clean
import KtcpSplit.Unload.StopSockets
import KtcpSplit.Lib.RedBlack.Tree
import KtcpSplit.Lib.RedBlack.Balance
import KtcpSplit.Lib.RedBlack.Drain
import KtcpSplit.Lib.RedBlack.First
import KtcpSplit.Lib.RedBlack.Lowest
import KtcpSplit.Lib.RedBlack.Postorder
import KtcpSplit.Lib.Format
import KtcpSplit.Debug.Dump
import KtcpSplit.Debug.Contiguous
import KtcpSplit.Debug.Bounds
import KtcpSplit.ZeroCopy.Receive
import KtcpSplit.ZeroCopy.Delivery
import KtcpSplit.ZeroCopy.Gather
import KtcpSplit.ZeroCopy.Blocking
import KtcpSplit.Duplex.Teardown
import KtcpSplit.Rendezvous.Meeting
import KtcpSplit.Preconn.Idle
import KtcpSplit.Preconn.Replenish
import KtcpSplit.Pool.Stop
import KtcpSplit.Client.Poll
import KtcpSplit.Lib.Sleeper
import KtcpSplit.Lib.AtomicObject
import KtcpSplit.Magazine.Concurrent
import KtcpSplit.Magazine.InFlight
import KtcpSplit.Magazine.Linearizable
import KtcpSplit.Server.Page
import KtcpSplit.Server.Tenants
