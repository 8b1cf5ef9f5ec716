import Hlpt.Cond.Model
import Hlpt.LowLevelLock.Model

/-!
# `Hlpt.Requeue.Model`: a condition variable together with its mutex

A process-private condition variable that is always used with one process-private mutex of
type normal. `Hlpt.Cond` leaves the mutex outside. Here both are inside: a broadcast moves
the waiters from the queue of the sequence to the one of the lock word, and the waits come
back through `__pthread_mutex_cond_lock`. The accesses to the lock word are the steps of
`Hlpt.LowLevelLock`.

The waits of the Hurd, `pthread_hurd_cond_wait_np` and `pthread_hurd_cond_timedwait_np`,
are inside as well. They may be cancelled by another thread, which sets `stp->cancel` under
`stp->lock` and then calls `cancel_hook`. A cancelled wait of the Hurd returns `EINTR` and
leaves the mutex.

A `pthread` wait that is cancelled between `__pthread_cancelpoint_begin` and
`__pthread_cancelpoint_end` runs `cleanup`. Its thread then has the mutex and goes on to its
next handler, where it may make any call.
-/

set_option autoImplicit false

namespace Hlpt.Requeue

open Hlpt.Lib

universe u

/-- The four waits: whether it is one of the Hurd, and its deadline. -/
structure WaitCall where
  hurd : Bool
  tsp : Option Timespec
  deriving DecidableEq, Repr

/-- The calls of a thread. `cancelHurd` is what one thread does to cancel the wait of
another. -/
inductive Call (T : Type u) where
  | lock
  | trylock
  | timedlock (tsp : Timespec)
  | unlock
  | wait (k : WaitCall)
  | signal
  | broadcast
  | cancelHurd (th : T)
  deriving DecidableEq, Repr

/-- The control points, each before one access. A value that the code keeps in a local
variable is an argument: `sw` is the sequence that a wait registered with, and `ret` the
code of the kernel that ended it. -/
inductive Pc (T : Type u) where
  | idle
  /-- Inside `lll_lock`, `lll_trylock`, `lll_abstimed_lock` or `lll_unlock`, called by a
  mutex function. -/
  | mutex (p : LowLevelLock.Pc)
  /-- The first `__spin_lock (&stp->lock)` -/
  | spinLock (k : WaitCall)
  /-- `stp->cancel`, and the store that clears it -/
  | testPending (k : WaitCall)
  /-- `__spin_unlock (&stp->lock)` before `return (EINTR)` -/
  | refuse
  /-- `condp->__mutex == NULL` -/
  | checkMutex (k : WaitCall)
  /-- `atomic_store (&condp->__mutex, mtxp)` -/
  | storeMutex (k : WaitCall)
  /-- Inside `lll_unlock`, called by a wait. -/
  | unlock (k : WaitCall) (p : LowLevelLock.Pc)
  /-- The load of `atomic_addx_hi (&condp->__seq_nw.qv, 1)` -/
  | regLoad (k : WaitCall)
  /-- Its compare-and-swap. -/
  | regCas (k : WaitCall) (lo hi : BitVec 32)
  /-- `stp->cancel_hook = cancel_self` -/
  | setHook (k : WaitCall) (sw : BitVec 32)
  /-- The first `__spin_unlock (&stp->lock)` -/
  | spinUnlock (k : WaitCall) (sw : BitVec 32)
  /-- `prev = __pthread_cancelpoint_begin ()` -/
  | cancelpointBegin (k : WaitCall) (sw : BitVec 32)
  /-- `compute_reltime` of `lll_abstimed_wait` -/
  | clock (k : WaitCall) (tsp : Timespec) (sw : BitVec 32)
  /-- `lll_wait (&condp->__seq_nw.lo, sw, flags)` or the timed wait -/
  | wait (k : WaitCall) (sw : BitVec 32)
  /-- Inside `gsync_wait`. -/
  | asleep (k : WaitCall) (sw : BitVec 32)
  /-- `__pthread_cancelpoint_end (prev)` -/
  | cancelpointEnd (k : WaitCall) (sw : BitVec 32) (ret : KernReturn)
  /-- `atomic_add (&condp->__seq_nw.hi, -1)` -/
  | uncount (k : WaitCall) (ret : KernReturn)
  /-- The second `__spin_lock (&stp->lock)` -/
  | spinRelock (k : WaitCall)
  /-- `stp->cancel_hook = 0` -/
  | clearHook (k : WaitCall)
  /-- `stp->cancel != 0`, and the store that clears it -/
  | testCancel (k : WaitCall)
  /-- The second `__spin_unlock (&stp->lock)`, and whether the wait was cancelled -/
  | leave (k : WaitCall) (cancelled : Bool)
  /-- Inside `lll_lock`, called by `__pthread_mutex_cond_lock`. Then the wait returns `r`,
  or `cleanup` does. -/
  | relock (r : Option Cond.Ret) (p : LowLevelLock.Pc)
  /-- `atomic_store (&mtxp->__lock, 2)` -/
  | mark (r : Option Cond.Ret)
  /-- The load of `atomic_addx_hi (&ccp->condp->__seq_nw.qv, -1)` in `cleanup` -/
  | cleanLoad (sw : BitVec 32)
  /-- Its compare-and-swap. -/
  | cleanCas (sw lo hi : BitVec 32)
  /-- `lll_wake` of all waiters in `cleanup` -/
  | cleanWake
  /-- The load of `atomic_addx_lo (&condp->__seq_nw.qv, 1)` in `pthread_cond_signal` -/
  | sigLoad
  /-- Its compare-and-swap. -/
  | sigCas (lo hi : BitVec 32)
  /-- `lll_wake (&condp->__seq_nw.lo, condp->__flags & GSYNC_SHARED)` -/
  | sigWake
  /-- The load of `atomic_addx_lo` in `pthread_cond_broadcast` -/
  | bcLoad
  /-- Its compare-and-swap. -/
  | bcCas (lo hi : BitVec 32)
  /-- `condp->__mutex != NULL` -/
  | bcMutex
  /-- `lll_requeue (&condp->__seq_nw.lo, &condp->__mutex->__lock, 1, flags)` -/
  | bcRequeue
  /-- `lll_wake (&condp->__seq_nw.lo, flags)` -/
  | bcWake
  /-- The cancellation of another thread takes its `stp->lock`, sets `stp->cancel` and looks
  at `cancel_hook`. -/
  | cancelSet (th : T)
  /-- `atomic_add (&condp->__seq_nw.lo, 1)` in `cancel_self` -/
  | hookAdd
  /-- `lll_wake (&condp->__seq_nw.lo, flags | GSYNC_BROADCAST)` in `cancel_self` -/
  | hookWake
  /-- The call returns. -/
  | ret (r : Cond.Ret)
  deriving DecidableEq, Repr

/-- A thread: its control point and whether it holds the mutex. -/
structure Local (T : Type u) where
  pc : Pc T
  holds : Bool
  deriving DecidableEq, Repr

/-- The lock word with the threads asleep on it, the word of the condition variable,
whether its `__mutex` is set, the threads asleep on the sequence, and the fields of the
threads' `struct hurd_sigstate`. -/
structure Mem (T : Type u) where
  lock : LowLevelLock.Mem T
  lo : BitVec 32
  hi : BitVec 32
  mutex : Bool
  queue : Finset T
  spin : T → Bool
  cancel : T → Bool
  hook : T → Bool

/-- What the environment chooses in a step: the call of an idle thread, the reading of the
clock, the sleeper that a wake takes, whether the kernel ends the sleep of the thread
itself, and whether a cancellation reaches it. -/
structure Choice (T : Type u) where
  call : Call T := .lock
  now : Timespec := default
  pick : Option T := none
  ends : Option WaitEnd := none
  cancel : Bool := false

/-- The choice for an access to the lock word. -/
def Choice.word {T : Type u} (c : Choice T) : LowLevelLock.Choice T :=
  { now := c.now, pick := c.pick, ends := c.ends }

namespace WaitCall

variable {T : Type u}

/-- The wait itself. A timed one reads the clock first. -/
def block (k : WaitCall) (sw : BitVec 32) : Pc T :=
  match k.tsp with
  | none => .wait k sw
  | some tsp => .clock k tsp sw

/-- Where a wait goes when it has registered. -/
def registered (k : WaitCall) (sw : BitVec 32) : Pc T :=
  if k.hurd then .setHook k sw else .cancelpointBegin k sw

/-- Where a wait goes after `continue`, or when it is no longer counted. -/
def uncounted (k : WaitCall) (ret : KernReturn) : Pc T :=
  if k.hurd then .spinRelock k
  else
    .relock (some (match k.tsp, ret with
      | none, _ => .code .ok
      | some _, .success => .code .ok
      | some _, .timedout => .code .etimedout
      | some _, .invalidArgument => .kern .invalidArgument
      | some _, .interrupted => .kern .interrupted)) (.lockTest none)

/-- Where a wait goes with the code of the kernel: `continue` leaves the loop, and the
waiter stays counted. -/
def ended (k : WaitCall) (ret : KernReturn) : Pc T :=
  if ret = .interrupted then k.uncounted ret else .uncount k ret

/-- Where a wait goes when the kernel has ended it. -/
def awake (k : WaitCall) (sw : BitVec 32) (ret : KernReturn) : Pc T :=
  if k.hurd then k.ended ret else .cancelpointEnd k sw ret

end WaitCall

/-- Whether the thread is between `__pthread_cancelpoint_begin` and
`__pthread_cancelpoint_end`, and the low half of its `cc.sw` then. The waits of the Hurd
never are. -/
def cancelSw {T : Type u} : Pc T → Option (BitVec 32)
  | .cancelpointBegin _ sw | .cancelpointEnd _ sw _ => some sw
  | .clock k _ sw | .wait k sw | .asleep k sw => if k.hurd then none else some sw
  | _ => none

/-- Where a mutex function goes after an access to the word. -/
def afterMutex {T : Type u} : LowLevelLock.Pc → Pc T
  | .ret r => .ret (.code r)
  | p => .mutex p

/-- Where a wait goes after an access of its unlock. -/
def afterUnlock {T : Type u} (k : WaitCall) : LowLevelLock.Pc → Pc T
  | .ret _ => .regLoad k
  | p => .unlock k p

/-- Where `__pthread_mutex_cond_lock` goes after an access to the word. Locking a mutex of
type normal returns 0. -/
def afterRelock {T : Type u} (r : Option Cond.Ret) : LowLevelLock.Pc → Pc T
  | .ret _ => .mark r
  | p => .relock r p

/-- The entry of a call. Unlocking and waiting are for the holder. -/
def enter {T : Type u} (l : Local T) : Call T → Option (Pc T)
  | .lock => some (.mutex (.lockTest none))
  | .trylock => some (.mutex .tryTest)
  | .timedlock tsp => some (.mutex (.lockTest (some tsp)))
  | .unlock => if l.holds then some (.mutex .unlockSwap) else none
  | .wait k =>
      if l.holds then
        if k.tsp.any Timespec.badNsec then some (.ret (.code .einval))
        else if k.hurd then some (.spinLock k) else some (.checkMutex k)
      else none
  | .signal => some .sigLoad
  | .broadcast => some .bcLoad
  | .cancelHurd u => some (.cancelSet u)

variable {T : Type u} [DecidableEq T]

/-- An access to the lock word, inside of a function that goes on with `next`. -/
def onWord (t : T) (c : Choice T) (m : Mem T) (l : Local T) (p : LowLevelLock.Pc)
    (next : LowLevelLock.Pc → Pc T) : Option (Mem T × Local T) :=
  (LowLevelLock.exec t c.word m.lock ⟨p, l.holds⟩).map fun r =>
    ({ m with lock := r.1 }, ⟨next r.2.pc, r.2.holds⟩)

/-- The memory without the thread among the sleepers. -/
def Mem.out (m : Mem T) (t : T) : Mem T :=
  { m with
    queue := m.queue.erase t
    lock := { m.lock with sleepers := m.lock.sleepers.erase t } }

/-- `gsync_requeue` with `wake_one`: one sleeper on the sequence is woken, and the others
sleep on the lock word. -/
def Mem.requeue (m : Mem T) (pick : Option T) : Option (Mem T) :=
  (wakeOne m.queue pick).map fun q =>
    { m with queue := ∅, lock := { m.lock with sleepers := m.lock.sleepers ∪ q } }

/-- The next access of the thread `t`, when it is not cancelled. -/
def act (t : T) (c : Choice T) (m : Mem T) (l : Local T) : Option (Mem T × Local T) :=
  match l.pc with
  | .idle => (enter l c.call).map fun p => (m, { l with pc := p })
  | .mutex p => onWord t c m l p afterMutex
  -- `pt_hurd_cond_wait`, up to the unlock of the mutex.
  | .spinLock k =>
      if m.spin t then none
      else some ({ m with spin := Function.update m.spin t true }, { l with pc := .testPending k })
  | .testPending k =>
      if m.cancel t then
        some ({ m with cancel := Function.update m.cancel t false }, { l with pc := .refuse })
      else some (m, { l with pc := .checkMutex k })
  | .refuse =>
      some ({ m with spin := Function.update m.spin t false },
        { l with pc := .ret (.code .eintr) })
  -- The three waits store the mutex, unlock it and count themselves.
  | .checkMutex k =>
      some (m, { l with pc := if m.mutex then .unlock k .unlockSwap else .storeMutex k })
  | .storeMutex k => some ({ m with mutex := true }, { l with pc := .unlock k .unlockSwap })
  | .unlock k p => onWord t c m l p (afterUnlock k)
  | .regLoad k => some (m, { l with pc := .regCas k m.lo m.hi })
  | .regCas k lo hi =>
      if m.lo = lo ∧ m.hi = hi then
        some ({ m with hi := hi + 1 }, { l with pc := k.registered lo })
      else some (m, { l with pc := .regLoad k })
  -- `pt_hurd_cond_wait` sets its hook before it gives the spin lock back.
  | .setHook k sw =>
      some ({ m with hook := Function.update m.hook t true }, { l with pc := .spinUnlock k sw })
  | .spinUnlock k sw =>
      some ({ m with spin := Function.update m.spin t false }, { l with pc := k.block sw })
  -- The sleep.
  | .cancelpointBegin k sw => some (m, { l with pc := k.block sw })
  | .clock k tsp sw =>
      some (m, { l with pc := if expired tsp c.now then k.awake sw .timedout else .wait k sw })
  | .wait k sw =>
      if m.lo = sw then
        some ({ m with queue := insert t m.queue }, { l with pc := .asleep k sw })
      else some (m, { l with pc := k.awake sw .invalidArgument })
  | .asleep k sw =>
      (sleepEnd (t ∈ m.queue ∨ t ∈ m.lock.sleepers) k.tsp.isSome c.ends).map fun ret =>
        (m.out t, { l with pc := k.awake sw ret })
  | .cancelpointEnd k _ ret => some (m, { l with pc := k.ended ret })
  | .uncount k ret => some ({ m with hi := m.hi - 1 }, { l with pc := k.uncounted ret })
  -- `pt_hurd_cond_wait` clears its hook and looks at the flag once more.
  | .spinRelock k =>
      if m.spin t then none
      else some ({ m with spin := Function.update m.spin t true }, { l with pc := .clearHook k })
  | .clearHook k =>
      some ({ m with hook := Function.update m.hook t false }, { l with pc := .testCancel k })
  | .testCancel k =>
      some ({ m with cancel := Function.update m.cancel t false },
        { l with pc := .leave k (m.cancel t) })
  | .leave _ cancelled =>
      some ({ m with spin := Function.update m.spin t false },
        { l with
          pc := if cancelled then .ret (.code .eintr)
            else .relock (some (.code .ok)) (.lockTest none) })
  -- `__pthread_mutex_cond_lock`
  | .relock r p => onWord t c m l p (afterRelock r)
  | .mark r =>
      some ({ m with lock := { m.lock with word := 2 } },
        { l with
          pc := match r with
            | none => .idle
            | some r => .ret r })
  -- `cleanup`
  | .cleanLoad sw => some (m, { l with pc := .cleanCas sw m.lo m.hi })
  | .cleanCas sw lo hi =>
      if m.lo = lo ∧ m.hi = hi then
        some ({ m with hi := hi - 1 },
          { l with pc := if sw ≠ lo then .cleanWake else .relock none (.lockTest none) })
      else some (m, { l with pc := .cleanLoad sw })
  | .cleanWake => some ({ m with queue := ∅ }, { l with pc := .relock none (.lockTest none) })
  -- `pthread_cond_signal`
  | .sigLoad => some (m, { l with pc := .sigCas m.lo m.hi })
  | .sigCas lo hi =>
      if m.lo = lo ∧ m.hi = hi then
        some ({ m with lo := lo + 1 },
          { l with pc := if hi ≠ 0 then .sigWake else .ret (.code .ok) })
      else some (m, { l with pc := .sigLoad })
  | .sigWake =>
      (wakeOne m.queue c.pick).map fun q =>
        ({ m with queue := q }, { l with pc := .ret (.code .ok) })
  -- `pthread_cond_broadcast`
  | .bcLoad => some (m, { l with pc := .bcCas m.lo m.hi })
  | .bcCas lo hi =>
      if m.lo = lo ∧ m.hi = hi then
        some ({ m with lo := lo + 1 },
          { l with pc := if hi ≠ 0 then .bcMutex else .ret (.code .ok) })
      else some (m, { l with pc := .bcLoad })
  | .bcMutex => some (m, { l with pc := if m.mutex then .bcRequeue else .bcWake })
  | .bcRequeue => (m.requeue c.pick).map fun m => (m, { l with pc := .ret (.code .ok) })
  | .bcWake => some ({ m with queue := ∅ }, { l with pc := .ret (.code .ok) })
  -- The cancellation of another thread on the Hurd, with `cancel_self` as its hook.
  | .cancelSet u =>
      if m.spin u then none
      else some ({ m with cancel := Function.update m.cancel u true },
        { l with pc := if m.hook u then .hookAdd else .ret (.code .ok) })
  | .hookAdd => some ({ m with lo := m.lo + 1 }, { l with pc := .hookWake })
  | .hookWake => some ({ m with queue := ∅ }, { l with pc := .ret (.code .ok) })
  | .ret _ => some (m, { l with pc := .idle })

/-- The next step of the thread `t`. A cancellation takes it out of the kernel's queues
and to `cleanup`. -/
def exec : Exec T (Choice T) (Mem T) (Local T) := fun t c m l =>
  if c.cancel then
    (cancelSw l.pc).map fun sw => (m.out t, { l with pc := .cleanLoad sw })
  else act t c m l

/-- `pthread_cond_init` and `pthread_mutex_init`: the words are 0, there is no mutex in the
condition variable, nobody is being cancelled, and no thread is inside a call. -/
def IsInit (s : Global T (Mem T) (Local T)) : Prop :=
  s.mem = ⟨⟨0, ∅⟩, 0, 0, false, ∅, fun _ => false, fun _ => false, fun _ => false⟩ ∧
    ∀ t, s.loc t = ⟨.idle, false⟩

/-- The threads that share one condition variable and its mutex. -/
def machine : Machine (Global T (Mem T) (Local T)) (T × Choice T) := exec.machine IsInit

end Hlpt.Requeue
