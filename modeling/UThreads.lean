import UThreads.Lib.Machine
import UThreads.Lib.Word
import UThreads.Lib.GapChain
import UThreads.Lib.Fifo
import UThreads.Generic.BlockingMPSCQueue
import UThreads.Generic.BlockingMPSCQueueProof
import UThreads.Generic.IntrusiveList
import UThreads.Generic.QueueStore
import UThreads.Generic.ListRemoveAll
import UThreads.Schedulers.Scheduler01Portion
import UThreads.Schedulers.Scheduler01Switch
import UThreads.Schedulers.Scheduler02
import UThreads.Schedulers.Scheduler03Proof
import UThreads.Schedulers.Scheduler04Wakeup
import UThreads.Sync.MutexRefinement
import UThreads.Sync.Stalls
import UThreads.Sync.Semaphore
import UThreads.Sync.ConditionVariable
import UThreads.Sync.Detach
import UThreads.Sync.OwnerLockProof
import UThreads.Sync.UThreadPoolIdle
import UThreads.Io.Close
import UThreads.Io.PollCacheProof
import UThreads.Io.Slots
import UThreads.Io.Readiness
import UThreads.Runtime.KThreadProof
import UThreads.Runtime.UThreadCacheProof
import UThreads.Runtime.Registry
import UThreads.Sync.OwnerLockReturn
import UThreads.Schedulers.Scheduler02Progress
import UThreads.Schedulers.Scheduler02Tokens
import UThreads.Io.Connect
import UThreads.Io.PollProof
import UThreads.Io.PollingProof
import UThreads.Io.PollerSemaphore
import UThreads.Runtime.AssignKThread
import UThreads.Runtime.Counters
import UThreads.Runtime.HandoverLabels
import UThreads.Runtime.HandoverClean
import UThreads.Runtime.StackProof
