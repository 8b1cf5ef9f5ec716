import Hlpt.MutexCall.Model

/-!
# `Hlpt.CondCall.Model`: whole timed waits on a condition variable

`pthread_cond_timedwait` and `pt_hurd_cond_wait`, with the calls of `Hlpt.MutexCall` for the
unlock and the relock. While the caller waits, the others change the condvar and the mutex
as they like. What they do, and what ends the wait, is a `World`; its times are milliseconds
from the start of the wait.

One variable of the code holds kernel codes and codes of `errno.h` in turn. Both are `Ret`.
-/

set_option autoImplicit false

namespace Hlpt.CondCall

open Hlpt.MutexCall
open Hlpt.Robust (LLL_WAITERS)

def CLOCK_REALTIME : BitVec 32 := 0
def CLOCK_MONOTONIC : BitVec 32 := 1
def COND_CLK_SHIFT : ℕ := 16

/-- `pthread_cond_t`: the two halves of `__seq_nw`, `__mutex` and `__flags`. -/
structure Cond where
  lo : BitVec 32
  hi : BitVec 32
  mutex : Option (BitVec 32)
  flags : BitVec 32
  deriving DecidableEq, Repr

/-- `condp->__flags >> COND_CLK_SHIFT` -/
def Cond.clk (c : Cond) : BitVec 32 := c.flags.sshiftRight COND_CLK_SHIFT

/-- What `ret` may hold. `KERN_SUCCESS` is 0, as `ok` is. -/
inductive Ret where
  | code (r : Code)
  | kern (k : KernReturn)
  deriving DecidableEq, Repr

/-- A result of `gsync_wait` in `ret`. -/
def Ret.ofKern : KernReturn → Ret
  | .success => .code .ok
  | k => .kern k

/-- What ends a wait other than its timeout: a wake, a word without the expected value, or a
signal. -/
inductive Event where
  | woken
  | mismatch
  | interrupted
  deriving DecidableEq, Repr

def Event.code : Event → KernReturn
  | .woken => .success
  | .mismatch => .invalidArgument
  | .interrupted => .interrupted

/-- The reading of each clock when the call looks at it, what the others have made of the
condvar and of the mutex after so many milliseconds, the event that ends the wait, and
whether `hurd_thread_cancel` has set `stp->cancel` by then. -/
structure World where
  clock : BitVec 32 → Timespec
  cond : ℕ → Cond → Cond
  mutex : ℕ → Mutex → Mutex
  event : Option (ℕ × Event)
  cancel : ℕ → Bool

/-- A call that has returned: its result, the condvar and the mutex, and after how many
milliseconds its wait timed out. -/
structure Done where
  ret : Ret
  cond : Cond
  mutex : Mutex
  timedOut : Option ℕ
  deriving DecidableEq, Repr

namespace World

/-- A timed `gsync_wait`: its code, and how long it took. -/
def timedWait (w : World) (g : GsyncWait) : KernReturn × ℕ :=
  match w.event with
  | some (at_, e) => if at_ ≤ g.mlsec.toNat then (e.code, at_) else (.timedout, g.mlsec.toNat)
  | none => (.timedout, g.mlsec.toNat)

/-- A `gsync_wait` without a timeout. It may sleep forever. -/
def wait (w : World) : Option (KernReturn × ℕ) := w.event.map fun p => (p.2.code, p.1)

/-- `lll_abstimed_wait`: a past deadline times out at once. -/
def abstimedWait (w : World) (ptr val : BitVec 32) (tsp : Timespec) (flags clk : BitVec 32) :
    KernReturn × ℕ :=
  match lllAbstimedWait w.clock ptr val tsp flags clk with
  | .error k => (k, 0)
  | .ok g => w.timedWait g

end World

/-- The call: the thread, the attributes of the mutex, and the addresses of the word and of
the mutex. -/
structure Args where
  self : Self
  attr : Attr
  ptr : BitVec 32
  mtxp : BitVec 32

variable (A : Args) (w : World) (naps : List Nap)

/-- `__pthread_mutex_cond_lock` -/
def pthreadMutexCondLock (m : Mutex) : Option (Code × Mutex) :=
  (pthreadMutexLock A.self A.attr naps m).map fun r =>
    if r.1 = .ok then
      (.ok, if A.attr.flags &&& PTHREAD_MUTEX_ROBUST = 0 then { r.2 with lock := 2 }
        else { r.2 with lock := r.2.lock ||| LLL_WAITERS })
    else r

/-- A private condvar remembers the first mutex. -/
def Cond.couple (c : Cond) : Cond :=
  if c.flags &&& GSYNC_SHARED = 0 ∧ c.mutex = none then { c with mutex := some A.mtxp } else c

/-- The end of the loop, after the wait: `ret`, and the count of the waiters. An interrupted
wait goes past the decrement. -/
def afterWait (k : KernReturn) (c : Cond) : Ret × Cond :=
  match k with
  | .interrupted => (.ofKern k, c)
  | .timedout => (.code .etimedout, { c with hi := c.hi - 1 })
  | .success | .invalidArgument => (.ofKern k, { c with hi := c.hi - 1 })

/-- After how long the wait timed out, if it did. -/
def timedOutAt (k : KernReturn × ℕ) : Option ℕ := if k.1 = .timedout then some k.2 else none

/-- `pthread_cond_timedwait` -/
def pthreadCondTimedwait (tsp : Timespec) (c : Cond) (m : Mutex) : Option Done :=
  if tsp.badNsec then some ⟨.code .einval, c, m, none⟩
  else
    let c := c.couple A
    match pthreadMutexUnlock A.self A.attr m with
    | (.ok, m) =>
        let k := w.abstimedWait A.ptr c.lo tsp (c.flags &&& GSYNC_SHARED) c.clk
        let (ret, c) := afterWait k.1 (w.cond k.2 { c with hi := c.hi + 1 })
        (pthreadMutexCondLock A naps (w.mutex k.2 m)).map fun r =>
          ⟨if ret = .code .ok then .code r.1 else ret, c, r.2, timedOutAt k⟩
    | (e, m) => some ⟨.code e, c, m, none⟩

/-- `pt_hurd_cond_wait`. `cancelled` says whether `stp->cancel` is set at the start. -/
def ptHurdCondWait (cancelled : Bool) (tsp : Option Timespec) (c : Cond) (m : Mutex) :
    Option Done :=
  if tsp.any Timespec.badNsec then some ⟨.code .einval, c, m, none⟩
  else if cancelled then some ⟨.code .eintr, c, m, none⟩
  else
    let c := c.couple A
    match pthreadMutexUnlock A.self A.attr m with
    | (.ok, m) =>
        let k? := match tsp with
          | none => w.wait
          | some tsp =>
              some (w.abstimedWait A.ptr c.lo tsp (c.flags &&& GSYNC_SHARED) CLOCK_REALTIME)
        k?.bind fun k =>
          let (ret, c) := afterWait k.1 (w.cond k.2 { c with hi := c.hi + 1 })
          let ret := if w.cancel k.2 then .code .eintr else ret
          if ret = .code .eintr then some ⟨ret, c, w.mutex k.2 m, timedOutAt k⟩
          else (pthreadMutexCondLock A naps (w.mutex k.2 m)).map fun r =>
            ⟨.code r.1, c, r.2, timedOutAt k⟩
    | (e, m) => some ⟨.code e, c, m, none⟩

/-- `pthread_hurd_cond_wait_np` -/
def pthreadHurdCondWaitNp (cancelled : Bool) : Cond → Mutex → Option Done :=
  ptHurdCondWait A w naps cancelled none

/-- `pthread_hurd_cond_timedwait_np` -/
def pthreadHurdCondTimedwaitNp (cancelled : Bool) (tsp : Timespec) :
    Cond → Mutex → Option Done :=
  ptHurdCondWait A w naps cancelled (some tsp)

end Hlpt.CondCall
