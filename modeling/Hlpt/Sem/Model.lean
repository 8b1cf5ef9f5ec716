import Hlpt.Base
import Hlpt.Lib.Sleepers
import Hlpt.Lib.Threads

/-!
# `Hlpt.Sem.Model`: the unnamed semaphore of `sem.c`

A semaphore, and any number of threads that run `sem_post`, `sem_trywait`, `sem_wait`
and `sem_timedwait` on it. Every atomic access and every `gsync` call is one step of
`exec`.

`__val_nw` is one 64-bit word: the count in its low half, the number of waiters in
its high half. Both halves are read and compared together, except by
`__sem_trywait`, which knows the count only. The waiters sleep on the address of the
count. A waiter may be cancelled anywhere between `__pthread_cancelpoint_begin` and
`__pthread_cancelpoint_end`; it then runs `cleanup` and is gone.
-/

set_option autoImplicit false

namespace Hlpt.Sem

open Hlpt.Lib

universe u

/-- `SEM_VALUE_MAX` -/
def SEM_VALUE_MAX : BitVec 32 := 0x7fffffff

/-- The two waits. -/
inductive WaitCall where
  | wait
  | timedwait (tsp : Timespec)
  deriving DecidableEq, Repr

/-- Who runs the loop of `__sem_trywait`: `sem_trywait`, or a wait as its first
try. -/
inductive TryCall where
  | trywait
  | first (k : WaitCall)
  deriving DecidableEq, Repr

/-- The operations of a semaphore. -/
inductive Call where
  | post
  | trywait
  | wait (k : WaitCall)
  deriving DecidableEq, Repr

/-- The control points, each before one access. A value that the code keeps in a local
variable is an argument. -/
inductive Pc where
  | idle
  /-- `tmp.qv = atomic_loadx (&semp->__val_nw.qv)` in `sem_post` -/
  | postLoad
  /-- `atomic_casx_bool`, from `lo`, `hi` to `lo + 1`, `hi` -/
  | postCas (lo hi : BitVec 32)
  /-- `lll_wake (&semp->__val_nw.lo, semp->__flags)` -/
  | postWake
  /-- `val = atomic_load (&semp->__val_nw.lo)` in `__sem_trywait` -/
  | tryLoad (k : TryCall)
  /-- `atomic_cas_bool (&semp->__val_nw.lo, val, val - 1)` -/
  | tryCas (k : TryCall) (val : BitVec 32)
  /-- The load of `atomic_addx_hi (&semp->__val_nw.qv, 1)` -/
  | addLoad (k : WaitCall)
  /-- Its compare-and-swap. -/
  | addCas (k : WaitCall) (lo hi : BitVec 32)
  /-- `tmp = atomic_loadx (&semp->__val_nw.qv)`, the examination of the count -/
  | look (k : WaitCall)
  /-- `atomic_casx_bool`, from `lo`, `hi` to `lo - 1`, `hi - 1` -/
  | take (k : WaitCall) (lo hi : BitVec 32)
  /-- `prev = __pthread_cancelpoint_begin ()` -/
  | cancelpointBegin (k : WaitCall)
  /-- `compute_reltime` of `lll_abstimed_wait` -/
  | clock (tsp : Timespec)
  /-- `lll_wait (&semp->__val_nw.lo, 0, semp->__flags)` or the timed wait -/
  | wait (k : WaitCall)
  /-- Inside `gsync_wait`, on the queue of the count. -/
  | asleep (k : WaitCall)
  /-- `__pthread_cancelpoint_end (prev)`, after the wait ended with `res` -/
  | cancelpointEnd (k : WaitCall) (res : KernReturn)
  /-- The load of `cleanup`. It is run before the call returns the code, or, with
  `none`, because the thread was cancelled. -/
  | cleanLoad (r : Option Code)
  /-- The compare-and-swap of `cleanup`. -/
  | cleanCas (r : Option Code) (lo hi : BitVec 32)
  /-- The call returns: 0, or -1 with the code in `errno`. -/
  | ret (r : Code)
  /-- The thread was cancelled. -/
  | gone
  deriving DecidableEq, Repr

/-- The word of the semaphore and the queue of its count. -/
structure Mem (T : Type u) where
  lo : BitVec 32
  hi : BitVec 32
  sleepers : Finset T

/-- What the environment chooses in a step: the operation an idle thread calls, the
reading of the clock, the sleeper that a wake takes, whether the kernel ends the sleep
of the thread itself, and whether a cancellation reaches it. -/
structure Choice (T : Type u) where
  call : Call := .post
  now : Timespec := default
  pick : Option T := none
  ends : Option WaitEnd := none
  cancel : Bool := false

namespace WaitCall

/-- Where a waiter goes that finds the count 0: `sem_timedwait` first checks its
deadline, and the code that it gives for a bad one is `ETIMEDOUT`. -/
def blocked : WaitCall → Pc
  | wait => .cancelpointBegin .wait
  | timedwait tsp =>
      if tsp.badNsec then .cleanLoad (some .etimedout) else .cancelpointBegin (.timedwait tsp)

/-- The wait after `__pthread_cancelpoint_begin`: `lll_abstimed_wait` reads the clock
first. -/
def block : WaitCall → Pc
  | wait => .wait .wait
  | timedwait tsp => .clock tsp

/-- Whether the wait has a timeout. -/
def timed : WaitCall → Bool
  | wait => false
  | timedwait _ => true

/-- Where a waiter goes after its wait ended: out, or to another look. `sem_wait` does
not test for `KERN_TIMEDOUT`, which its wait cannot give. -/
def resume (k : WaitCall) : KernReturn → Pc
  | .interrupted => .cleanLoad (some .eintr)
  | .timedout => if k.timed then .cleanLoad (some .etimedout) else .look k
  | .success => .look k
  | .invalidArgument => .look k

end WaitCall

namespace TryCall

/-- Where a thread goes when `__sem_trywait` fails. -/
def fail : TryCall → Pc
  | trywait => .ret .eagain
  | first k => .addLoad k

end TryCall

/-- Whether the thread is between `__pthread_cancelpoint_begin` and
`__pthread_cancelpoint_end`, where a cancellation may end it. -/
def InCancelpoint : Pc → Bool
  | .cancelpointBegin _ | .clock _ | .wait _ | .asleep _ | .cancelpointEnd .. => true
  | _ => false

/-- The entry of an operation. -/
def enter : Call → Pc
  | .post => .postLoad
  | .trywait => .tryLoad .trywait
  | .wait k => .tryLoad (.first k)

/-- The end of `cleanup`. -/
def cleaned : Option Code → Pc
  | some r => .ret r
  | none => .gone

variable {T : Type u} [DecidableEq T]

/-- The next access of the thread `t` when it is not cancelled. -/
def act (t : T) (c : Choice T) (m : Mem T) (pc : Pc) : Option (Mem T × Pc) :=
  match pc with
  | .idle => some (m, enter c.call)
  -- `sem_post`
  | .postLoad =>
      some (m, if m.lo = SEM_VALUE_MAX then .ret .eoverflow else .postCas m.lo m.hi)
  | .postCas lo hi =>
      if m.lo = lo ∧ m.hi = hi then
        some ({ m with lo := lo + 1 }, if hi ≠ 0 then .postWake else .ret .ok)
      else some (m, .postLoad)
  | .postWake =>
      (wakeOne m.sleepers c.pick).map fun q => ({ m with sleepers := q }, .ret .ok)
  -- `__sem_trywait`, with which the two waits begin as well.
  | .tryLoad k => some (m, if m.lo = 0 then k.fail else .tryCas k m.lo)
  | .tryCas k val =>
      if m.lo = val then some ({ m with lo := val - 1 }, .ret .ok) else some (m, .tryLoad k)
  -- The slow path of `sem_wait` and `sem_timedwait`.
  | .addLoad k => some (m, .addCas k m.lo m.hi)
  | .addCas k lo hi =>
      if m.lo = lo ∧ m.hi = hi then some ({ m with hi := hi + 1 }, .look k)
      else some (m, .addLoad k)
  | .look k => some (m, if m.lo ≠ 0 then .take k m.lo m.hi else k.blocked)
  | .take k lo hi =>
      if m.lo = lo ∧ m.hi = hi then some ({ m with lo := lo - 1, hi := hi - 1 }, .ret .ok)
      else some (m, .look k)
  -- The sleep, between the two ends of the cancellation point.
  | .cancelpointBegin k => some (m, k.block)
  | .clock tsp =>
      some (m, if expired tsp c.now then .cancelpointEnd (.timedwait tsp) .timedout
        else .wait (.timedwait tsp))
  | .wait k =>
      if m.lo = 0 then some ({ m with sleepers := insert t m.sleepers }, .asleep k)
      else some (m, .cancelpointEnd k .invalidArgument)
  | .asleep k =>
      (sleepEnd (t ∈ m.sleepers) k.timed c.ends).map fun res =>
        ({ m with sleepers := m.sleepers.erase t }, .cancelpointEnd k res)
  | .cancelpointEnd k res => some (m, k.resume res)
  -- `cleanup` takes the waiter out of the count in the high half.
  | .cleanLoad r => some (m, .cleanCas r m.lo m.hi)
  | .cleanCas r lo hi =>
      if m.lo = lo ∧ m.hi = hi then some ({ m with hi := hi - 1 }, cleaned r)
      else some (m, .cleanLoad r)
  | .ret _ => some (m, .idle)
  | .gone => none

/-- The next step of the thread `t`. A cancellation takes it out of the queue and to
`cleanup`. -/
def exec : Exec T (Choice T) (Mem T) Pc := fun t c m pc =>
  if c.cancel then
    if InCancelpoint pc then
      some ({ m with sleepers := m.sleepers.erase t }, .cleanLoad none)
    else none
  else act t c m pc

/-- `sem_init`, the semaphore of a process. -/
def semInit (val : BitVec 32) : Except Code (Mem T) :=
  if val > SEM_VALUE_MAX then .error .einval else .ok ⟨val, 0, ∅⟩

/-- The semaphore was just initialised, and no thread is inside a call. -/
def IsInit (s : Global T (Mem T) Pc) : Prop :=
  (∃ val, semInit val = .ok s.mem) ∧ ∀ t, s.loc t = .idle

/-- The threads that share one semaphore. -/
def machine : Machine (Global T (Mem T) Pc) (T × Choice T) := exec.machine IsInit

end Hlpt.Sem
