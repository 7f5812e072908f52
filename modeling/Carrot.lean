import Carrot.Aof.Agreement
import Carrot.Aof.Append
import Carrot.Aof.Atomic
import Carrot.Aof.Crash
import Carrot.Aof.Durable
import Carrot.Aof.Log
import Carrot.Aof.Open
import Carrot.Aof.ReadBack
import Carrot.Aof.Record
import Carrot.Aof.Recoverable
import Carrot.Aof.Replay
import Carrot.Aof.Snapshot
import Carrot.Command.Calls
import Carrot.Command.Canonical
import Carrot.Command.Command
import Carrot.Command.Execute
import Carrot.Command.Expired
import Carrot.Command.Failure
import Carrot.Command.Handlers
import Carrot.Command.ListMove
import Carrot.Command.Recovery
import Carrot.Command.Tracks
import Carrot.Command.Words
import Carrot.Dispatcher.Acknowledged
import Carrot.Dispatcher.Backend
import Carrot.Dispatcher.Deadlock
import Carrot.Dispatcher.Dispatcher
import Carrot.Dispatcher.Order
import Carrot.Executor.ActiveExpire
import Carrot.Executor.Batch
import Carrot.Executor.Durability
import Carrot.Executor.Eviction
import Carrot.Executor.Execute
import Carrot.Executor.Executor
import Carrot.Executor.ExpiryPass
import Carrot.Executor.ExpiryTrace
import Carrot.Executor.Failure
import Carrot.Executor.Lifetimes
import Carrot.Executor.LogCalls
import Carrot.Executor.Memory
import Carrot.Executor.Persistent
import Carrot.Executor.Reply
import Carrot.Executor.Rewrite
import Carrot.Executor.RewriteStatus
import Carrot.Executor.Single
import Carrot.Executor.Sized
import Carrot.Executor.WritePath
import Carrot.Keyspace.Alignment
import Carrot.Keyspace.Cell
import Carrot.Keyspace.Lists
import Carrot.Keyspace.Restart
import Carrot.Keyspace.Words
import Carrot.Library.BufferedWriter
import Carrot.Library.CrashDisk
import Carrot.Library.Decimal
import Carrot.Library.FiniteMap
import Carrot.Library.Incremental
import Carrot.Library.IndexedSet
import Carrot.Library.Interleaving
import Carrot.Library.Program
import Carrot.Library.RingBuffer
import Carrot.Library.Slice
import Carrot.Library.Utf8
import Carrot.Reactor.Connection
import Carrot.Reactor.Delivered
import Carrot.Reactor.Descriptors
import Carrot.Reactor.EventLoop
import Carrot.Reactor.Framing
import Carrot.Reactor.HalfClose
import Carrot.Reactor.Holder
import Carrot.Reactor.InputLimit
import Carrot.Reactor.Loop
import Carrot.Reactor.Member
import Carrot.Reactor.Queue
import Carrot.Reactor.Rejection
import Carrot.Reactor.Requests
import Carrot.Reactor.Response
import Carrot.Reactor.Rounds
import Carrot.Reactor.Sharing
import Carrot.Resp.Bounds
import Carrot.Resp.Decode
import Carrot.Resp.Frames
import Carrot.Resp.Grammar
import Carrot.Resp.MessageLimit
import Carrot.Resp.Messages
import Carrot.Resp.RoundTrip
import Carrot.Resp.Stream
import Carrot.Resp.Value
import Carrot.Server.Connections
import Carrot.Server.Lifecycle
import Carrot.Server.Server
import Carrot.Server.Shutdown
import Carrot.Server.Stages
import Carrot.Storage.Call
import Carrot.Storage.Clock
import Carrot.Storage.Deadlines
import Carrot.Storage.Expiry
import Carrot.Storage.ExpiryCycle
import Carrot.Storage.Invariant
import Carrot.Storage.List
import Carrot.Storage.ListLoops
import Carrot.Storage.ListValue
import Carrot.Storage.Locality
import Carrot.Storage.Memory
import Carrot.Storage.Operations
import Carrot.Storage.Positions
import Carrot.Storage.RawList
import Carrot.Storage.Refinement
import Carrot.Storage.Snapshot
import Carrot.Storage.Store
import Carrot.Storage.Victim
import Carrot.Storage.View
import Carrot.Text
