import Hlpt.Flags
import Hlpt.MutexCall.Agree
import Hlpt.Rwlock.Model
import Hlpt.Sem.Model
import Hlpt.Termination.Model

/-!
# `Hlpt.Timeouts.Model`: whole calls of the timed operations

`pthread_rwlock_timedrdlock`, `pthread_rwlock_timedwrlock`, `sem_timedwait` and
`pthread_timedjoin_np` as one call computes them, in the manner of `Hlpt.MutexCall`: the
others move only in a sleep, and may do anything then. Each sleep is a `Nap`, with the object
as the caller finds it afterwards. A call that needs more naps than it gets has not returned.
The caller is not cancelled.

A reading of the clock belongs to the nap that follows it.
-/

set_option autoImplicit false

namespace Hlpt.Timeouts

open Hlpt.MutexCall (Self Mutex Attr pthreadMutexTimedlock)
open Hlpt.Rwlock (RWLOCK_UNOWNED RWLOCK_RO)

universe u v w

/-- One sleep: the reading of the clock before it, how it ends, and the object after it. -/
structure Nap (σ : Type u) where
  now : Timespec
  ends : KernReturn
  after : σ

/-- A timed operation on an object: its call, and what the object says about its owner, its
holders, its count and its waiters. -/
structure TimedOp (σ : Type u) (η : Type v) (ν : Type w) where
  call : Timespec → List η → σ → Option (Code × σ)
  view : σ → ν

/-! ### `rwlock.c` -/

/-- The calling thread: `PTHREAD_SELF->id` and `getpid ()`. -/
structure Caller where
  id : BitVec 32
  pid : BitVec 32
  deriving DecidableEq, Repr

/-- The four words of a read-write lock, and how often its readers were woken. -/
structure Rwlock where
  oid : BitVec 32
  nrd : BitVec 32
  nwr : BitVec 32
  spid : BitVec 32
  wakes : ℕ
  deriving DecidableEq, Repr

namespace Rwlock

variable (self : Caller) (shared : Bool) (abstime : Timespec)

/-- `rwl_owned_p` -/
def ownedP (rw : Rwlock) : Bool := rw.oid == self.id && (!shared || rw.spid == self.pid)

/-- `rwl_setown` -/
def setown (rw : Rwlock) : Rwlock := { rw with spid := if shared then self.pid else rw.spid }

/-- A reader takes the lock, and wakes the readers that wait for one without an owner. -/
def rdTaken (rw : Rwlock) : Rwlock :=
  { rw with
    oid := RWLOCK_RO
    nrd := rw.nrd + 1
    wakes := if rw.oid = RWLOCK_UNOWNED ∧ rw.nrd ≠ 0 then rw.wakes + 1 else rw.wakes }

/-- The loop of `pthread_rwlock_timedrdlock`. -/
def timedrdLoop : List (Nap Rwlock) → Rwlock → Option (Code × Rwlock)
  | naps, rw =>
      if rw.oid &&& PTHREAD_ID_MASK = 0 then some (.ok, rw.rdTaken)
      else if abstime.badNsec then some (.einval, rw)
      else
        match naps with
        | [] => none
        | n :: naps =>
            if expired abstime n.now then some (.etimedout, rw)
            else if n.ends = .timedout then
              some (.etimedout, { n.after with nrd := n.after.nrd - 1 })
            else timedrdLoop naps { n.after with nrd := n.after.nrd - 1 }

/-- `pthread_rwlock_timedrdlock` -/
def pthreadRwlockTimedrdlock (naps : List (Nap Rwlock)) (rw : Rwlock) : Option (Code × Rwlock) :=
  if rw.ownedP self shared then some (.edeadlk, rw) else timedrdLoop abstime naps rw

/-- The end of a timed wait for writing: the last waiter wakes the readers of a lock that
is not owned. -/
def wrTimedout (rw : Rwlock) : Rwlock :=
  { rw with
    nwr := rw.nwr - 1
    wakes := if rw.nwr = 1 ∧ rw.nrd ≠ 0 ∧ rw.oid = RWLOCK_UNOWNED then rw.wakes + 1
      else rw.wakes }

/-- The loop of `pthread_rwlock_timedwrlock`. -/
def timedwrLoop : List (Nap Rwlock) → Rwlock → Option (Code × Rwlock)
  | naps, rw =>
      if rw.oid = RWLOCK_UNOWNED then some (.ok, setown self shared { rw with oid := self.id })
      else if abstime.badNsec then some (.einval, rw)
      else
        match naps with
        | [] => none
        | n :: naps =>
            if expired abstime n.now then
              some (.etimedout, wrTimedout { rw with nwr := rw.nwr + 1 })
            else if n.ends = .timedout then some (.etimedout, wrTimedout n.after)
            else timedwrLoop naps { n.after with nwr := n.after.nwr - 1 }

/-- `pthread_rwlock_timedwrlock` -/
def pthreadRwlockTimedwrlock (naps : List (Nap Rwlock)) (rw : Rwlock) : Option (Code × Rwlock) :=
  if rw.ownedP self shared then some (.edeadlk, rw) else timedwrLoop self shared abstime naps rw

end Rwlock

/-! ### `sem.c` -/

/-- The two halves of `__val_nw`. -/
structure Sem where
  val : BitVec 32
  nw : BitVec 32
  deriving DecidableEq, Repr

namespace Sem

variable (tsp : Timespec)

/-- `cleanup` -/
def cleanup (s : Sem) : Sem := { s with nw := s.nw - 1 }

/-- The loop of `sem_timedwait`. A code other than 0 is in `errno`. -/
def timedwaitLoop : List (Nap Sem) → Sem → Option (Code × Sem)
  | naps, s =>
      if s.val ≠ 0 then some (.ok, ⟨s.val - 1, s.nw - 1⟩)
      -- The only one of the loops that does not say `EINVAL` here.
      else if tsp.badNsec then some (.etimedout, s.cleanup)
      else
        match naps with
        | [] => none
        | n :: naps =>
            if expired tsp n.now then some (.etimedout, s.cleanup)
            else if n.ends = .interrupted then some (.eintr, n.after.cleanup)
            else if n.ends = .timedout then some (.etimedout, n.after.cleanup)
            else timedwaitLoop naps n.after

/-- `sem_timedwait` -/
def semTimedwait (naps : List (Nap Sem)) (s : Sem) : Option (Code × Sem) :=
  if s.val ≠ 0 then some (.ok, { s with val := s.val - 1 })
  else timedwaitLoop tsp naps { s with nw := s.nw + 1 }

end Sem

/-! ### `join.c` -/

/-- The descriptor of the thread to join, what `*retpp` holds, and whether the stack was
passed to `free_stack`. -/
structure Joinee (T : Type u) where
  joinpt : Option T
  id : BitVec 32
  flags : BitVec 32
  retval : BitVec 32
  out : Option (BitVec 32)
  freed : Bool

namespace Joinee

variable {T : Type u} [DecidableEq T]

/-- `cleanup` -/
def cleanup (self : T) (d : Joinee T) : Joinee T :=
  { d with joinpt := if d.joinpt = some self then none else d.joinpt }

/-- `__pthread_deallocate` -/
def pthreadDeallocate (d : Joinee T) : Joinee T :=
  { d with
    flags := d.flags ||| PT_FLG_TERMINATED
    freed := d.freed || d.flags &&& PT_FLG_TERMINATED == 0 }

/-- The end of a join that succeeds. -/
def collect (retpp : Bool) (d : Joinee T) : Joinee T :=
  pthreadDeallocate { d with out := if retpp then some d.retval else d.out }

/-- The loop of `pthread_timedjoin_np`, and what follows it. -/
def timedjoinLoop (self : T) (retpp : Bool) (tsp : Timespec) :
    List (Nap (Joinee T)) → Joinee T → Option (Code × Joinee T)
  | naps, d =>
      if d.id = 0 then some (.ok, d.collect retpp)
      else
        match naps with
        | [] => none
        | n :: naps =>
            if expired tsp n.now then some (.etimedout, d.cleanup self)
            else if n.ends = .interrupted then timedjoinLoop self retpp tsp naps n.after
            else if n.ends = .timedout then some (.etimedout, n.after.cleanup self)
            else some (.ok, n.after.collect retpp)

/-- `pthread_timedjoin_np`, with `self->joinpt` and the descriptor of `th`. -/
def pthreadTimedjoinNp (self : T) (selfJoinpt th : Option T) (retpp : Bool) (tsp : Timespec)
    (naps : List (Nap (Joinee T))) (d : Joinee T) : Option (Code × Joinee T) :=
  match th with
  | none => some (.esrch, d)
  | some pt =>
      if d.joinpt = some pt then some (.einval, d)
      else if pt = self ∨ selfJoinpt = some pt then some (.edeadlk, d)
      else if d.joinpt ≠ none then some (.einval, d)
      else timedjoinLoop self retpp tsp naps { d with joinpt := some self }

end Joinee

/-! ### The five operations -/

/-- `pthread_mutex_timedlock` -/
def mutexOp (self : Self) (a : Attr) : TimedOp Mutex MutexCall.Nap MutexCall.View where
  call := pthreadMutexTimedlock self a
  view := Mutex.view a

/-- `pthread_rwlock_timedrdlock` -/
def rdlockOp (self : Caller) (shared : Bool) : TimedOp Rwlock (Nap Rwlock) Rwlock where
  call := Rwlock.pthreadRwlockTimedrdlock self shared
  view := id

/-- `pthread_rwlock_timedwrlock` -/
def wrlockOp (self : Caller) (shared : Bool) : TimedOp Rwlock (Nap Rwlock) Rwlock where
  call := Rwlock.pthreadRwlockTimedwrlock self shared
  view := id

/-- `sem_timedwait` -/
def semOp : TimedOp Sem (Nap Sem) Sem where
  call := Sem.semTimedwait
  view := id

/-- `pthread_timedjoin_np` -/
def joinOp {T : Type u} [DecidableEq T] (self : T) (selfJoinpt th : Option T) (retpp : Bool) :
    TimedOp (Joinee T) (Nap (Joinee T)) (Joinee T) where
  call := Joinee.pthreadTimedjoinNp self selfJoinpt th retpp
  view := id

end Hlpt.Timeouts
