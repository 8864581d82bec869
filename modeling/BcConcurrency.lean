import BcConcurrency.Lib.Bytes
import BcConcurrency.Lib.EvenSplit
import BcConcurrency.Lib.FirstOccurrence
import BcConcurrency.Lib.HappensBefore
import BcConcurrency.Lib.Heap
import BcConcurrency.Lib.Linearizability
import BcConcurrency.Lib.Objects
import BcConcurrency.Lib.Ring
import BcConcurrency.Lib.Transition
import BcConcurrency.Lib.WeakMemory
import BcConcurrency.Lib.Word
import BcConcurrency.Platform.Topology
import BcConcurrency.Pool.Accumulation
import BcConcurrency.Pool.Batches
import BcConcurrency.Pool.CallTasks
import BcConcurrency.Pool.Callbacks
import BcConcurrency.Pool.Completion
import BcConcurrency.Pool.ConfigGate
import BcConcurrency.Pool.Context
import BcConcurrency.Pool.Creation
import BcConcurrency.Pool.FailedCreation
import BcConcurrency.Pool.Dispatch
import BcConcurrency.Pool.Following
import BcConcurrency.Pool.Handshake
import BcConcurrency.Pool.HandshakeInvariant
import BcConcurrency.Pool.HappensBefore
import BcConcurrency.Pool.Lending
import BcConcurrency.Pool.NestedLoops
import BcConcurrency.Pool.NestedSubmissions
import BcConcurrency.Pool.NestedTransparency
import BcConcurrency.Pool.Ownership
import BcConcurrency.Pool.ParallelLoop
import BcConcurrency.Pool.Registration
import BcConcurrency.Pool.Retry
import BcConcurrency.Pool.Rounds
import BcConcurrency.Pool.Script
import BcConcurrency.Pool.Session
import BcConcurrency.Pool.SlotTable
import BcConcurrency.Pool.SharedMemory
import BcConcurrency.Pool.SharedRefinement
import BcConcurrency.Pool.SharedScripts
import BcConcurrency.Pool.SharedSessions
import BcConcurrency.Pool.Slots
import BcConcurrency.Pool.Spawning
import BcConcurrency.Pool.StagedTasks
import BcConcurrency.Pool.Staging
import BcConcurrency.Queue.Closing
import BcConcurrency.Queue.Concurrent
import BcConcurrency.Queue.Bytewise
import BcConcurrency.Queue.Creation
import BcConcurrency.Queue.Drain
import BcConcurrency.Queue.Progress
import BcConcurrency.Queue.ExactlyOnce
import BcConcurrency.Queue.Failures
import BcConcurrency.Queue.Fifo
import BcConcurrency.Queue.Invariant
import BcConcurrency.Queue.Layout
import BcConcurrency.Queue.Linearizability
import BcConcurrency.Queue.LockFree
import BcConcurrency.Queue.Publication
import BcConcurrency.Queue.Sequential
import BcConcurrency.Queue.WeakMemory
import BcConcurrency.Pool.Termination
import BcConcurrency.Pool.ThreadOwnership
import BcConcurrency.Signal.Delivery
import BcConcurrency.Signal.Handlers
import BcConcurrency.Signal.Restoration
import BcConcurrency.Signal.Sleep
import BcConcurrency.Signal.StopRequest
