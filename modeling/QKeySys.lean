import QKeySys.Core.Agreement
import QKeySys.Core.CondVar
import QKeySys.Core.Containers
import QKeySys.Core.Drained
import QKeySys.Core.Execution
import QKeySys.Core.Fifo
import QKeySys.Core.Handover
import QKeySys.Core.Handshake
import QKeySys.Core.HardBlock
import QKeySys.Core.Injector
import QKeySys.Core.Joined
import QKeySys.Core.LockedShutdown
import QKeySys.Core.Locks
import QKeySys.Core.Preemption
import QKeySys.Core.Reclaim
import QKeySys.Core.Refinement
import QKeySys.Core.Shutdown
import QKeySys.Core.Sleep
import QKeySys.Core.StoredSystem
import QKeySys.Core.StrictFifo
import QKeySys.Core.Termination
import QKeySys.KeyDist.KeyDist
import QKeySys.KeyDist.Refill
import QKeySys.KeyPool.Exclusion
import QKeySys.KeyPool.FaultFree
import QKeySys.KeyPool.Growth
import QKeySys.KeyPool.Identity
import QKeySys.KeyPool.KeyValue
import QKeySys.KeyPool.Linearization
import QKeySys.KeyPool.Lookup
import QKeySys.KeyPool.NtpClient
import QKeySys.KeyPool.RepeatedCheck
import QKeySys.KeyPool.SharedBlocks
import QKeySys.KeyPool.Snapshot
