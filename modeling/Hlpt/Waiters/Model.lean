import Hlpt.Requeue.Model

/-!
# `Hlpt.Waiters.Model`: every wait on a condition variable, and every way out of it

A condition variable with any mutex, private or shared between processes. Any number of
threads run the two waits of `pthread`, the two of the Hurd, `pthread_cond_signal`,
`pthread_cond_broadcast`, `pthread_cond_destroy`, and cancel the waits of the Hurd.

The mutex is outside: an operation of it returns any code. `pthread_cleanup_push` and
`pthread_cleanup_pop` are steps of their own, since a cancellation may reach a thread
anywhere: its cancellation type may be asynchronous, and a redirected thread may have left
its cancellation point. With the handler in place the thread goes to `cleanup`, and
without it to its other handlers, where it may make any call. A handler is popped after
it has returned.
-/

set_option autoImplicit false

namespace Hlpt.Waiters

open Hlpt.Lib
open Hlpt.Requeue (WaitCall)

universe u

/-- The calls of a thread. `cancelHurd` is what one thread does to cancel the wait of
another. -/
inductive Call (T : Type u) where
  | wait (k : WaitCall)
  | signal
  | broadcast
  | destroy
  | cancelHurd (th : T)
  deriving DecidableEq, Repr

/-- The control points, each before one access. A value that the code keeps in a local
variable is an argument: `sw` is the sequence that a wait registered with, and `ret` the
code of the kernel that ended it. -/
inductive Pc (T : Type u) where
  | idle
  /-- The first `__spin_lock (&stp->lock)` -/
  | spinLock (k : WaitCall)
  /-- `stp->cancel`, and the store that clears it -/
  | testPending (k : WaitCall)
  /-- `__spin_unlock (&stp->lock)` before an early return -/
  | refuse (r : Code)
  /-- `condp->__mutex == NULL` -/
  | checkMutex (k : WaitCall)
  /-- `atomic_store (&condp->__mutex, mtxp)` -/
  | storeMutex (k : WaitCall)
  /-- `pthread_mutex_unlock (mtxp)` -/
  | unlock (k : WaitCall)
  /-- The load of `atomic_addx_hi (&condp->__seq_nw.qv, 1)` -/
  | regLoad (k : WaitCall)
  /-- Its compare-and-swap. -/
  | regCas (k : WaitCall) (lo hi : BitVec 32)
  /-- `pthread_cleanup_push (cleanup, &cc)` -/
  | push (k : WaitCall) (sw : BitVec 32)
  /-- `stp->cancel_hook = cancel_self` -/
  | setHook (k : WaitCall) (sw : BitVec 32)
  /-- The first `__spin_unlock (&stp->lock)` -/
  | spinUnlock (k : WaitCall) (sw : BitVec 32)
  /-- `prev = __pthread_cancelpoint_begin ()` -/
  | cancelpointBegin (k : WaitCall) (sw : BitVec 32)
  /-- `compute_reltime` of `lll_abstimed_wait` -/
  | clock (k : WaitCall) (tsp : Timespec) (sw : BitVec 32)
  /-- `lll_wait (&condp->__seq_nw.lo, sw, flags)` or the timed wait -/
  | wait (k : WaitCall) (sw : BitVec 32)
  /-- Inside `gsync_wait`. -/
  | asleep (k : WaitCall) (sw : BitVec 32)
  /-- `__pthread_cancelpoint_end (prev)` -/
  | cancelpointEnd (k : WaitCall) (sw : BitVec 32) (ret : KernReturn)
  /-- `ret == KERN_INTERRUPTED` -/
  | judge (k : WaitCall) (sw : BitVec 32) (ret : KernReturn)
  /-- `atomic_add (&condp->__seq_nw.hi, -1)` -/
  | uncount (k : WaitCall) (sw : BitVec 32) (ret : KernReturn)
  /-- `pthread_cleanup_pop (0)` -/
  | pop (k : WaitCall) (sw : BitVec 32) (ret : KernReturn)
  /-- The second `__spin_lock (&stp->lock)` -/
  | spinRelock (k : WaitCall) (ret : KernReturn)
  /-- `stp->cancel_hook = 0` -/
  | clearHook (k : WaitCall) (ret : KernReturn)
  /-- `stp->cancel != 0`, and the store that clears it -/
  | testCancel (k : WaitCall) (ret : KernReturn)
  /-- The second `__spin_unlock (&stp->lock)`, and whether the wait was cancelled -/
  | leave (k : WaitCall) (ret : KernReturn) (cancelled : Bool)
  /-- `__pthread_mutex_cond_lock (mtxp)` of a wait -/
  | relock (k : WaitCall) (ret : KernReturn)
  /-- The load of `atomic_addx_hi (&ccp->condp->__seq_nw.qv, -1)` in `cleanup` -/
  | cleanLoad (sw : BitVec 32)
  /-- Its compare-and-swap. -/
  | cleanCas (sw lo hi : BitVec 32)
  /-- `lll_wake` of all waiters in `cleanup` -/
  | cleanWake (sw : BitVec 32)
  /-- `__pthread_mutex_cond_lock (ccp->mtxp)` of `cleanup` -/
  | cleanRelock (sw : BitVec 32)
  /-- The load of `atomic_addx_lo (&condp->__seq_nw.qv, 1)` in `pthread_cond_signal` -/
  | sigLoad
  /-- Its compare-and-swap. -/
  | sigCas (lo hi : BitVec 32)
  /-- `lll_wake (&condp->__seq_nw.lo, condp->__flags & GSYNC_SHARED)` -/
  | sigWake
  /-- The load of `atomic_addx_lo` in `pthread_cond_broadcast` -/
  | bcLoad
  /-- Its compare-and-swap. -/
  | bcCas (lo hi : BitVec 32)
  /-- `condp->__mutex != NULL` -/
  | bcMutex
  /-- `lll_requeue (&condp->__seq_nw.lo, &condp->__mutex->__lock, 1, flags)` -/
  | bcRequeue
  /-- `lll_wake (&condp->__seq_nw.lo, flags)` -/
  | bcWake
  /-- The cancellation of another thread takes its `stp->lock`, sets `stp->cancel` and looks
  at `cancel_hook`. -/
  | cancelSet (th : T)
  /-- `atomic_add (&condp->__seq_nw.lo, 1)` in `cancel_self` -/
  | hookAdd
  /-- `lll_wake (&condp->__seq_nw.lo, flags | GSYNC_BROADCAST)` in `cancel_self` -/
  | hookWake
  /-- `atomic_load (&condp->__seq_nw.hi)` in `pthread_cond_destroy` -/
  | destroy
  /-- The call returns. -/
  | ret (r : Cond.Ret)
  deriving DecidableEq, Repr

/-- The word of the condition variable, whether its `__mutex` is set, the threads asleep on
the sequence and those that a broadcast moved to the mutex, and the fields of the threads'
`struct hurd_sigstate`. -/
structure Mem (T : Type u) where
  lo : BitVec 32
  hi : BitVec 32
  mutex : Bool
  queue : Finset T
  moved : Finset T
  spin : T → Bool
  cancel : T → Bool
  hook : T → Bool

/-- What the environment chooses in a step: the call of an idle thread, the reading of the
clock, what an operation of the mutex returns, the sleeper that a wake takes, whether an
unlock of the mutex wakes the thread, whether the kernel ends its sleep, and whether a
cancellation reaches it. -/
structure Choice (T : Type u) where
  call : Call T := .signal
  now : Timespec := default
  mtx : Code := .ok
  pick : Option T := none
  mtxWake : Bool := false
  ends : Option WaitEnd := none
  cancel : Bool := false

section WaitCall

variable {T : Type u}

/-- The wait itself. A timed one reads the clock first. -/
def block (k : WaitCall) (sw : BitVec 32) : Pc T :=
  match k.tsp with
  | none => .wait k sw
  | some tsp => .clock k tsp sw

/-- Where a wait goes when the kernel has ended it. -/
def awake (k : WaitCall) (sw : BitVec 32) (ret : KernReturn) : Pc T :=
  if k.hurd then .judge k sw ret else .cancelpointEnd k sw ret

/-- Where a wait goes after its loop. -/
def looped (k : WaitCall) (sw : BitVec 32) (ret : KernReturn) : Pc T :=
  if k.hurd then .spinRelock k ret else .pop k sw ret

/-- What a wait returns after the kernel ended it with `ret` and locking the mutex gave
`r`. The waits of the Hurd overwrite their code. -/
def result (k : WaitCall) (ret : KernReturn) (r : Code) : Cond.Ret :=
  if k.hurd then .code r
  else
    match k.tsp with
    | none => .code r
    | some tsp => (Cond.WaitCall.timedwait tsp).result ret r

/-- The entry of a call. The waits of the Hurd take their lock before they look at
`__flags`. -/
def enter (pshared : Bool) : Call T → Pc T
  | .wait k =>
      if k.tsp.any Timespec.badNsec then .ret (.code .einval)
      else if k.hurd then .spinLock k
      else if pshared then .unlock k
      else .checkMutex k
  | .signal => .sigLoad
  | .broadcast => .bcLoad
  | .destroy => .destroy
  | .cancelHurd u => .cancelSet u

/-- The low half of `cc.sw`, when the handler of a wait is in place. The waits of the Hurd
have none. -/
def handler : Pc T → Option (BitVec 32)
  | .cancelpointBegin k sw | .clock k _ sw | .wait k sw | .asleep k sw | .cancelpointEnd k sw _
  | .judge k sw _ | .uncount k sw _ | .pop k sw _ => if k.hurd then none else some sw
  | .cleanLoad sw | .cleanCas sw _ _ | .cleanWake sw | .cleanRelock sw => some sw
  | .idle | .spinLock _ | .testPending _ | .refuse _ | .checkMutex _ | .storeMutex _ | .unlock _
  | .regLoad _ | .regCas .. | .push .. | .setHook .. | .spinUnlock .. | .spinRelock ..
  | .clearHook .. | .testCancel .. | .leave .. | .relock .. | .sigLoad | .sigCas .. | .sigWake
  | .bcLoad | .bcCas .. | .bcMutex | .bcRequeue | .bcWake | .cancelSet _ | .hookAdd | .hookWake
  | .destroy | .ret _ => none

end WaitCall

variable {T : Type u} [DecidableEq T]

/-- The memory without the thread among the sleepers. -/
def Mem.out (m : Mem T) (t : T) : Mem T :=
  { m with queue := m.queue.erase t, moved := m.moved.erase t }

/-- `gsync_requeue` with `wake_one`: one sleeper on the sequence is woken, and the others
sleep on the mutex. -/
def Mem.requeue (m : Mem T) (pick : Option T) : Option (Mem T) :=
  (wakeOne m.queue pick).map fun q => { m with queue := ∅, moved := m.moved ∪ q }

/-- The next access of the thread `t`, when it is not cancelled. -/
def act (pshared : Bool) (t : T) (c : Choice T) (m : Mem T) (pc : Pc T) : Option (Mem T × Pc T) :=
  match pc with
  | .idle => some (m, enter pshared c.call)
  -- `pt_hurd_cond_wait`, up to the unlock of the mutex.
  | .spinLock k =>
      if m.spin t then none
      else some ({ m with spin := Function.update m.spin t true }, .testPending k)
  | .testPending k =>
      if m.cancel t then
        some ({ m with cancel := Function.update m.cancel t false }, .refuse .eintr)
      else some (m, if pshared then .unlock k else .checkMutex k)
  | .refuse r => some ({ m with spin := Function.update m.spin t false }, .ret (.code r))
  -- The three waits store the mutex, unlock it and count themselves.
  | .checkMutex k => some (m, if m.mutex then .unlock k else .storeMutex k)
  | .storeMutex k => some ({ m with mutex := true }, .unlock k)
  | .unlock k =>
      some (m, if c.mtx = .ok then .regLoad k
        else if k.hurd then .refuse c.mtx
        else .ret (.code c.mtx))
  | .regLoad k => some (m, .regCas k m.lo m.hi)
  | .regCas k lo hi =>
      if m.lo = lo ∧ m.hi = hi then
        some ({ m with hi := hi + 1 }, if k.hurd then .setHook k lo else .push k lo)
      else some (m, .regLoad k)
  -- The handler or the hook comes after the count.
  | .push k sw => some (m, .cancelpointBegin k sw)
  | .setHook k sw => some ({ m with hook := Function.update m.hook t true }, .spinUnlock k sw)
  | .spinUnlock k sw => some ({ m with spin := Function.update m.spin t false }, block k sw)
  -- The sleep.
  | .cancelpointBegin k sw => some (m, block k sw)
  | .clock k tsp sw => some (m, if expired tsp c.now then awake k sw .timedout else .wait k sw)
  | .wait k sw =>
      if m.lo = sw then some ({ m with queue := insert t m.queue }, .asleep k sw)
      else some (m, awake k sw .invalidArgument)
  | .asleep k sw =>
      (sleepEnd (t ∈ m.queue ∨ t ∈ m.moved ∧ c.mtxWake = false) k.tsp.isSome c.ends).map
        fun ret => (m.out t, awake k sw ret)
  | .cancelpointEnd k sw ret => some (m, .judge k sw ret)
  | .judge k sw ret =>
      -- `continue` leaves the loop, and the waiter stays counted.
      some (m, if ret = .interrupted then looped k sw ret else .uncount k sw ret)
  | .uncount k sw ret => some ({ m with hi := m.hi - 1 }, looped k sw ret)
  | .pop k _ ret => some (m, .relock k ret)
  -- `pt_hurd_cond_wait` clears its hook and looks at the flag once more.
  | .spinRelock k ret =>
      if m.spin t then none
      else some ({ m with spin := Function.update m.spin t true }, .clearHook k ret)
  | .clearHook k ret =>
      some ({ m with hook := Function.update m.hook t false }, .testCancel k ret)
  | .testCancel k ret =>
      some ({ m with cancel := Function.update m.cancel t false }, .leave k ret (m.cancel t))
  | .leave k ret cancelled =>
      some ({ m with spin := Function.update m.spin t false },
        if cancelled then .ret (.code .eintr) else .relock k ret)
  | .relock k ret => some (m, .ret (result k ret c.mtx))
  -- `cleanup`
  | .cleanLoad sw => some (m, .cleanCas sw m.lo m.hi)
  | .cleanCas sw lo hi =>
      if m.lo = lo ∧ m.hi = hi then
        some ({ m with hi := hi - 1 }, if sw ≠ lo then .cleanWake sw else .cleanRelock sw)
      else some (m, .cleanLoad sw)
  | .cleanWake sw => some ({ m with queue := ∅ }, .cleanRelock sw)
  | .cleanRelock _ => some (m, .idle)
  -- `pthread_cond_signal`
  | .sigLoad => some (m, .sigCas m.lo m.hi)
  | .sigCas lo hi =>
      if m.lo = lo ∧ m.hi = hi then
        some ({ m with lo := lo + 1 }, if hi ≠ 0 then .sigWake else .ret (.code .ok))
      else some (m, .sigLoad)
  | .sigWake => (wakeOne m.queue c.pick).map fun q => ({ m with queue := q }, .ret (.code .ok))
  -- `pthread_cond_broadcast`
  | .bcLoad => some (m, .bcCas m.lo m.hi)
  | .bcCas lo hi =>
      if m.lo = lo ∧ m.hi = hi then
        some ({ m with lo := lo + 1 }, if hi ≠ 0 then .bcMutex else .ret (.code .ok))
      else some (m, .bcLoad)
  | .bcMutex => some (m, if m.mutex then .bcRequeue else .bcWake)
  | .bcRequeue => (m.requeue c.pick).map fun m => (m, .ret (.code .ok))
  | .bcWake => some ({ m with queue := ∅ }, .ret (.code .ok))
  -- The cancellation of another thread on the Hurd, with `cancel_self` as its hook.
  | .cancelSet u =>
      if m.spin u then none
      else some ({ m with cancel := Function.update m.cancel u true },
        if m.hook u then .hookAdd else .ret (.code .ok))
  | .hookAdd => some ({ m with lo := m.lo + 1 }, .hookWake)
  | .hookWake => some ({ m with queue := ∅ }, .ret (.code .ok))
  | .destroy => some (m, .ret (.code (if m.hi ≠ 0 then .ebusy else .ok)))
  | .ret _ => some (m, .idle)

/-- The next step of the thread `t`. A cancellation takes it out of the kernel's queues and
to its handlers. -/
def exec (pshared : Bool) : Exec T (Choice T) (Mem T) (Pc T) := fun t c m pc =>
  if c.cancel then
    some (m.out t, match handler pc with
      | some sw => .cleanLoad sw
      | none => .idle)
  else act pshared t c m pc

/-- `pthread_cond_init`: the words are 0, there is no mutex, nobody is being cancelled, and
no thread is inside a call. -/
def IsInit (s : Global T (Mem T) (Pc T)) : Prop :=
  s.mem = ⟨0, 0, false, ∅, ∅, fun _ => false, fun _ => false, fun _ => false⟩ ∧
    ∀ t, s.loc t = .idle

/-- The threads that share one condition variable. -/
def machine (pshared : Bool) : Machine (Global T (Mem T) (Pc T)) (T × Choice T) :=
  (exec pshared).machine IsInit

end Hlpt.Waiters
