import Hlpt.Base
import Hlpt.Lib.Threads
import Mathlib.Data.Finset.Card

/-!
# `Hlpt.Cond.Model`: the condition variable of `cond.c`

A condition variable that is always used with one mutex, and any number of threads that
run `pthread_cond_wait`, `pthread_cond_timedwait`, `pthread_cond_signal` and
`pthread_cond_broadcast` on it. Every atomic access and every `gsync` call is one step of
`exec`.

`__seq_nw` is one 64-bit word: the sequence of the wakes in its low half, the number of
waiters in its high half. The waiters sleep on the address of the sequence, in a queue
from which the kernel takes the first. A waiter may be cancelled anywhere between
`__pthread_cancelpoint_begin` and `__pthread_cancelpoint_end`; it then runs `cleanup` and
is gone.

The mutex is outside. Locking and unlocking it return any code, a lock returns whenever
the mutex lets it, and so does the sleep of a thread that a broadcast has moved to the
mutex.

The ghosts are the registered waiters, how often each thread has registered and how many
increments there were before, the waits that left without being uncounted, and a `Note`
for each increment of the sequence.
-/

set_option autoImplicit false

namespace Hlpt.Cond

open Hlpt.Lib

universe u

/-- The descriptors of the threads, `struct pthread *`. They are distinct, and none is
NULL. -/
structure Descriptors (T : Type u) where
  ptr : T → BitVec 32
  inj : ∀ t u, ptr t = ptr u → t = u
  ne_null : ∀ t, ptr t ≠ 0

/-- The two waits. -/
inductive WaitCall where
  | wait
  | timedwait (tsp : Timespec)
  deriving DecidableEq, Repr

/-- The operations of a condition variable. -/
inductive Call where
  | wait (k : WaitCall)
  | signal
  | broadcast
  deriving DecidableEq, Repr

/-- What a call returns: a code, or the code of the kernel that a timed wait passes
on. -/
inductive Ret where
  | code (r : Code)
  | kern (r : KernReturn)
  deriving DecidableEq, Repr

/-- The control points, each before one access. A value that the code keeps in a local
variable is an argument: `sw` is the low half of `cc.sw`. The number `n` of the
increment of a signal or of a broadcast is a ghost. -/
inductive Pc where
  | idle
  /-- `condp->__mutex == NULL` -/
  | checkMutex (k : WaitCall)
  /-- `atomic_store (&condp->__mutex, mtxp)` -/
  | storeMutex (k : WaitCall)
  /-- `pthread_mutex_unlock (mtxp)` -/
  | unlock (k : WaitCall)
  /-- The load of `atomic_addx_hi (&condp->__seq_nw.qv, 1)` -/
  | regLoad (k : WaitCall)
  /-- Its compare-and-swap. -/
  | regCas (k : WaitCall) (lo hi : BitVec 32)
  /-- `prev = __pthread_cancelpoint_begin ()` -/
  | cancelpointBegin (k : WaitCall) (sw : BitVec 32)
  /-- `compute_reltime` of `lll_abstimed_wait` -/
  | clock (tsp : Timespec) (sw : BitVec 32)
  /-- `lll_wait (&condp->__seq_nw.lo, cc.sw.lo, flags)` or the timed wait -/
  | wait (k : WaitCall) (sw : BitVec 32)
  /-- Inside `gsync_wait`. -/
  | asleep (k : WaitCall) (sw : BitVec 32)
  /-- `__pthread_cancelpoint_end (prev)`, after the wait ended with `ret` -/
  | cancelpointEnd (k : WaitCall) (sw : BitVec 32) (ret : KernReturn)
  /-- `atomic_add (&condp->__seq_nw.hi, -1)` -/
  | uncount (k : WaitCall) (ret : KernReturn)
  /-- `__pthread_mutex_cond_lock (mtxp)` -/
  | relock (k : WaitCall) (ret : KernReturn)
  /-- The load of `atomic_addx_hi (&ccp->condp->__seq_nw.qv, -1)` in `cleanup` -/
  | cleanLoad (sw : BitVec 32)
  /-- Its compare-and-swap. -/
  | cleanCas (sw lo hi : BitVec 32)
  /-- `lll_wake` of all waiters in `cleanup` -/
  | cleanWake
  /-- `__pthread_mutex_cond_lock (ccp->mtxp)` -/
  | cleanRelock
  /-- The load of `atomic_addx_lo (&condp->__seq_nw.qv, 1)` in
  `pthread_cond_signal` -/
  | sigLoad
  /-- Its compare-and-swap. -/
  | sigCas (lo hi : BitVec 32)
  /-- `lll_wake (&condp->__seq_nw.lo, condp->__flags & GSYNC_SHARED)` -/
  | sigWake (n : ℕ)
  /-- The load of `atomic_addx_lo` in `pthread_cond_broadcast` -/
  | bcLoad
  /-- Its compare-and-swap. -/
  | bcCas (lo hi : BitVec 32)
  /-- `condp->__mutex != NULL` -/
  | bcMutex (n : ℕ)
  /-- `lll_requeue (&condp->__seq_nw.lo, &condp->__mutex->__lock, 1, flags)` -/
  | bcRequeue (n : ℕ)
  /-- `lll_wake (&condp->__seq_nw.lo, flags)` -/
  | bcWake (n : ℕ)
  /-- The call returns. -/
  | ret (r : Ret)
  /-- The thread was cancelled. -/
  | gone
  deriving DecidableEq, Repr

/-- An increment of the sequence: whether it is a broadcast, and the threads that were
registered, with the number of the wait of each. -/
structure Note (T : Type u) where
  bcast : Bool
  waiting : Finset T
  waits : T → ℕ

/-- The word of the condition variable, its mutex (`mutex` says that it is not NULL), the
queue of the sequence and the threads that a broadcast moved to the mutex. Then the
ghosts. -/
structure Mem (T : Type u) where
  lo : BitVec 32
  hi : BitVec 32
  mutex : Bool
  queue : List T
  requeued : Finset T
  waiting : Finset T
  waits : T → ℕ
  since : T → ℕ
  leaked : ℕ
  notes : List (Note T)

/-- What the environment chooses in a step: the operation an idle thread calls, the
reading of the clock, what an operation of the mutex returns, whether an unlock of the
mutex wakes the thread, whether the kernel ends its sleep, and whether a cancellation
reaches it. -/
structure Choice where
  call : Call := .signal
  now : Timespec := default
  mtx : Code := .ok
  mtxWake : Bool := false
  ends : Option WaitEnd := none
  cancel : Bool := false

namespace WaitCall

/-- The wait after `__pthread_cancelpoint_begin`: `lll_abstimed_wait` reads the clock
first. -/
def block (sw : BitVec 32) : WaitCall → Pc
  | wait => .wait .wait sw
  | timedwait tsp => .clock tsp sw

/-- Whether the wait has a timeout. -/
def timed : WaitCall → Bool
  | wait => false
  | timedwait _ => true

/-- What the call returns after its wait ended with `ret` and locking the mutex gave
`r`. -/
def result (ret : KernReturn) (r : Code) : WaitCall → Ret
  | wait => .code r
  | timedwait _ =>
      match ret with
      | .success => .code r
      | .timedout => .code .etimedout
      | .invalidArgument => .kern .invalidArgument
      | .interrupted => .kern .interrupted

end WaitCall

/-- Whether the thread is between `__pthread_cancelpoint_begin` and
`__pthread_cancelpoint_end`, where a cancellation may end it, and the low half of its
`cc.sw` then. -/
def cancelSw : Pc → Option (BitVec 32)
  | .cancelpointBegin _ sw | .clock _ sw | .wait _ sw | .asleep _ sw
  | .cancelpointEnd _ sw _ => some sw
  | _ => none

/-- The entry of an operation. `flags` of a shared condition variable keep the mutex from
being remembered. -/
def enter (pshared : Bool) : Call → Pc
  | .wait .wait => if pshared then .unlock .wait else .checkMutex .wait
  | .wait (.timedwait tsp) =>
      if tsp.badNsec then .ret (.code .einval)
      else if pshared then .unlock (.timedwait tsp) else .checkMutex (.timedwait tsp)
  | .signal => .sigLoad
  | .broadcast => .bcLoad

variable {T : Type u} [DecidableEq T]

namespace Mem

/-- The ghosts when the thread `t` registers. -/
def register (m : Mem T) (t : T) : Mem T :=
  { m with
    waiting := insert t m.waiting
    waits := Function.update m.waits t (m.waits t + 1)
    since := Function.update m.since t m.notes.length }

/-- The note of an increment. -/
def note (m : Mem T) (bcast : Bool) : Mem T :=
  { m with notes := m.notes ++ [⟨bcast, m.waiting, m.waits⟩] }

end Mem

/-- The next access of the thread `t` when it is not cancelled. -/
def act (pshared : Bool) (t : T) (c : Choice) (m : Mem T) (pc : Pc) :
    Option (Mem T × Pc) :=
  match pc with
  | .idle => some (m, enter pshared c.call)
  -- The waits store the mutex, unlock it and count themselves.
  | .checkMutex k => some (m, if m.mutex then .unlock k else .storeMutex k)
  | .storeMutex k => some ({ m with mutex := true }, .unlock k)
  | .unlock k => some (m, if c.mtx = .ok then .regLoad k else .ret (.code c.mtx))
  | .regLoad k => some (m, .regCas k m.lo m.hi)
  | .regCas k lo hi =>
      if m.lo = lo ∧ m.hi = hi then
        some ({ m.register t with hi := hi + 1 }, .cancelpointBegin k lo)
      else some (m, .regLoad k)
  -- The sleep, inside the cancellation point.
  | .cancelpointBegin k sw => some (m, k.block sw)
  | .clock tsp sw =>
      some (m, if expired tsp c.now then .cancelpointEnd (.timedwait tsp) sw .timedout
        else .wait (.timedwait tsp) sw)
  | .wait k sw =>
      if m.lo = sw then some ({ m with queue := m.queue ++ [t] }, .asleep k sw)
      else some (m, .cancelpointEnd k sw .invalidArgument)
  | .asleep k sw =>
      (sleepEnd (t ∈ m.queue ∨ t ∈ m.requeued ∧ c.mtxWake = false) k.timed c.ends).map
        fun ret => ({ m with queue := m.queue.erase t, requeued := m.requeued.erase t },
          .cancelpointEnd k sw ret)
  | .cancelpointEnd k _ ret =>
      -- `continue` leaves the loop, and the waiter stays counted.
      if ret = .interrupted then
        some ({ m with waiting := m.waiting.erase t, leaked := m.leaked + 1 }, .relock k ret)
      else some (m, .uncount k ret)
  | .uncount k ret =>
      some ({ m with hi := m.hi - 1, waiting := m.waiting.erase t }, .relock k ret)
  | .relock k ret => some (m, .ret (k.result ret c.mtx))
  -- `cleanup`
  | .cleanLoad sw => some (m, .cleanCas sw m.lo m.hi)
  | .cleanCas sw lo hi =>
      if m.lo = lo ∧ m.hi = hi then
        some ({ m with hi := hi - 1, waiting := m.waiting.erase t },
          if sw ≠ lo then .cleanWake else .cleanRelock)
      else some (m, .cleanLoad sw)
  | .cleanWake => some ({ m with queue := [] }, .cleanRelock)
  | .cleanRelock => some (m, .gone)
  -- `pthread_cond_signal`
  | .sigLoad => some (m, .sigCas m.lo m.hi)
  | .sigCas lo hi =>
      if m.lo = lo ∧ m.hi = hi then
        some ({ m.note false with lo := lo + 1 },
          if hi ≠ 0 then .sigWake m.notes.length else .ret (.code .ok))
      else some (m, .sigLoad)
  | .sigWake _ => some ({ m with queue := m.queue.tail }, .ret (.code .ok))
  -- `pthread_cond_broadcast`
  | .bcLoad => some (m, .bcCas m.lo m.hi)
  | .bcCas lo hi =>
      if m.lo = lo ∧ m.hi = hi then
        some ({ m.note true with lo := lo + 1 },
          if hi ≠ 0 then .bcMutex m.notes.length else .ret (.code .ok))
      else some (m, .bcLoad)
  | .bcMutex n => some (m, if m.mutex then .bcRequeue n else .bcWake n)
  | .bcRequeue _ =>
      some ({ m with queue := [], requeued := m.requeued ∪ m.queue.tail.toFinset },
        .ret (.code .ok))
  | .bcWake _ => some ({ m with queue := [] }, .ret (.code .ok))
  | .ret _ => some (m, .idle)
  | .gone => none

/-- The next step of the thread `t`. A cancellation takes it out of the kernel's queues
and to `cleanup`. -/
def exec (pshared : Bool) : Exec T Choice (Mem T) Pc := fun t c m pc =>
  if c.cancel then
    (cancelSw pc).map fun sw =>
      ({ m with queue := m.queue.erase t, requeued := m.requeued.erase t }, .cleanLoad sw)
  else act pshared t c m pc

/-- `pthread_cond_init`: the words are 0, there is no mutex, and no thread is inside a
call. -/
def IsInit (s : Global T (Mem T) Pc) : Prop :=
  s.mem = ⟨0, 0, false, [], ∅, ∅, fun _ => 0, fun _ => 0, 0, []⟩ ∧ ∀ t, s.loc t = .idle

/-- The threads that share one condition variable. -/
def machine (pshared : Bool) : Machine (Global T (Mem T) Pc) (T × Choice) :=
  (exec pshared).machine IsInit

end Hlpt.Cond
