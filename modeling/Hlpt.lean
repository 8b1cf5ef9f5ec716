import Hlpt.Atfork.Order
import Hlpt.Atfork.Unregister
import Hlpt.Attributes.Reported
import Hlpt.Barrier.Destroy
import Hlpt.Barrier.Rounds
import Hlpt.Cancel.Disabled
import Hlpt.Cancel.ExitOnce
import Hlpt.Cancel.NotLost
import Hlpt.Cond.Notified
import Hlpt.CondCall.Hurd
import Hlpt.Coupling.Groups
import Hlpt.Deadline
import Hlpt.Exit.Handlers
import Hlpt.Fork.Ownership
import Hlpt.Identity.Known
import Hlpt.Keys.Paired
import Hlpt.Lib.Lock
import Hlpt.Lists.Refines
import Hlpt.LowLevelLock.Invariant
import Hlpt.Mutex.Linear
import Hlpt.Mutex.Private
import Hlpt.Mutex.Shared
import Hlpt.MutexCall.Agree
import Hlpt.MutexCall.RobustAccesses
import Hlpt.NamedSem.Contents
import Hlpt.NamedSem.Follows
import Hlpt.Once.Single
import Hlpt.Recovery.Remembered
import Hlpt.Registry.Ids
import Hlpt.Requeue.Linear
import Hlpt.Requeue.Stranded
import Hlpt.Robust.Consistent
import Hlpt.Robust.Timed
import Hlpt.RobustLock.Linear
import Hlpt.RobustLock.Polling
import Hlpt.Running.Linear
import Hlpt.Rwlock.Idle
import Hlpt.Rwlock.Linear
import Hlpt.Rwlock.Stranded
import Hlpt.Sem.Ledger
import Hlpt.Sem.Linear
import Hlpt.Spin.Linear
import Hlpt.Stacks.Release
import Hlpt.Termination.Joined
import Hlpt.Termination.Release
import Hlpt.Timeouts.Accesses
import Hlpt.Timeouts.Invalid
import Hlpt.TlsList.Distinct
import Hlpt.Tsd.Fork
import Hlpt.Waiters.Count
