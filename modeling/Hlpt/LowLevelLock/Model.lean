import Hlpt.Base
import Hlpt.Lib.Sleepers
import Hlpt.Lib.Threads

/-!
# `Hlpt.LowLevelLock.Model`: `lll_lock`, `lll_trylock`, `__lll_abstimed_lock`, `lll_unlock`

Any number of threads run the four functions of `lowlevellock.c` on one word.
Every atomic access and every `gsync` call is one step of `exec`; the control
points `Pc` stand between them.

`gsync_wait` compares and sleeps in one step. A sleeping thread stays at
`asleep` and is a member of `sleepers`; a wake takes it out of the set, and its
next step is the return from the call with `KERN_SUCCESS`. The kernel may also
end a sleep by itself, with `KERN_TIMEDOUT` for a timed wait only.

`holds` is a ghost: it is set when a thread moves the word from 0, and cleared
when it swaps 0 back in. It also guards `lll_unlock`, which is called only while
holding.
-/

set_option autoImplicit false

namespace Hlpt.LowLevelLock

open Hlpt.Lib

universe u

/-- The deadline of a lock call: `none` for `lll_lock`. -/
abbrev Deadline := Option Timespec

/-- The functions that a thread may call. -/
inductive Call where
  | lllLock
  | lllAbstimedLock (tsp : Timespec)
  | lllTrylock
  | lllUnlock
  deriving DecidableEq, Repr

/-- The control points, each before one access. -/
inductive Pc where
  | idle
  /-- `*iptr == 0` -/
  | lockTest (d : Deadline)
  /-- `atomic_cas_bool (iptr, 0, 1)` -/
  | lockCas (d : Deadline)
  /-- `atomic_swap (iptr, 2)` -/
  | lockSwap (d : Deadline)
  /-- `compute_reltime (tsp, clk)` -/
  | lockClock (tsp : Timespec)
  /-- `lll_wait (iptr, 2, flags)` or `lll_timed_wait (iptr, 2, mlsec, flags)` -/
  | lockWait (d : Deadline)
  /-- Inside `gsync_wait`. -/
  | asleep (d : Deadline)
  /-- `*iptr == 0` in `lll_trylock` -/
  | tryTest
  /-- `atomic_cas_bool (iptr, 0, 1)` in `lll_trylock` -/
  | tryCas
  /-- `atomic_swap ((int *)ptr, 0)` -/
  | unlockSwap
  /-- `lll_wake (ptr, flags)` -/
  | unlockWake
  /-- The call returns the code. -/
  | ret (r : Code)
  deriving DecidableEq, Repr

/-- A thread: its control point and whether it holds the lock. -/
structure Local where
  pc : Pc
  holds : Bool
  deriving DecidableEq, Repr

/-- The lock word and the threads asleep on it. -/
structure Mem (T : Type u) where
  word : BitVec 32
  sleepers : Finset T

/-- What the environment chooses in a step: the function an idle thread calls, the
reading of the clock, the sleeper that a wake takes, and whether the kernel ends
the sleep of the thread itself. -/
structure Choice (T : Type u) where
  call : Call := .lllLock
  now : Timespec := default
  pick : Option T := none
  ends : Option WaitEnd := none

variable {T : Type u} [DecidableEq T]

/-- The entry of a function. -/
def enter (l : Local) : Call → Option Local
  | .lllLock => some { l with pc := .lockTest none }
  | .lllAbstimedLock tsp => some { l with pc := .lockTest (some tsp) }
  | .lllTrylock => some { l with pc := .tryTest }
  | .lllUnlock => if l.holds then some { l with pc := .unlockSwap } else none

/-- Where a lock call goes when its swap found the word taken. Only the timed
version looks at its deadline. -/
def afterSwap : Deadline → Pc
  | none => .lockWait none
  | some tsp => if tsp.badNsec then .ret .einval else .lockClock tsp

/-- The next access of the thread `t`. -/
def exec : Exec T (Choice T) (Mem T) Local := fun t c m l =>
  match l.pc with
  | .idle => (enter l c.call).map (m, ·)
  -- `lll_lock` and `__lll_abstimed_lock`
  | .lockTest d => some (m, { l with pc := if m.word = 0 then .lockCas d else .lockSwap d })
  | .lockCas d =>
      if m.word = 0 then some ({ m with word := 1 }, ⟨.ret .ok, true⟩)
      else some (m, { l with pc := .lockSwap d })
  -- From here on the thread takes the lock with 2, as if others were asleep.
  | .lockSwap d =>
      if m.word = 0 then some ({ m with word := 2 }, ⟨.ret .ok, true⟩)
      else some ({ m with word := 2 }, { l with pc := afterSwap d })
  | .lockClock tsp =>
      some (m, { l with
        pc := if expired tsp c.now then .ret .etimedout else .lockWait (some tsp) })
  | .lockWait d =>
      if m.word = 2 then
        some ({ m with sleepers := insert t m.sleepers }, { l with pc := .asleep d })
      else some (m, { l with pc := .lockSwap d })
  | .asleep d =>
      if t ∈ m.sleepers then
        match c.ends, d with
        | some .interrupted, d =>
            some ({ m with sleepers := m.sleepers.erase t }, { l with pc := .lockSwap d })
        | some .timedout, some _ =>
            some ({ m with sleepers := m.sleepers.erase t }, { l with pc := .ret .etimedout })
        | _, _ => none
      else some (m, { l with pc := .lockSwap d })
  -- `lll_trylock`
  | .tryTest => some (m, { l with pc := if m.word = 0 then .tryCas else .ret .ebusy })
  | .tryCas =>
      if m.word = 0 then some ({ m with word := 1 }, ⟨.ret .ok, true⟩)
      else some (m, { l with pc := .ret .ebusy })
  -- `lll_unlock`
  | .unlockSwap =>
      some ({ m with word := 0 }, ⟨if m.word = 1 then .ret .ok else .unlockWake, false⟩)
  | .unlockWake =>
      (wakeOne m.sleepers c.pick).map fun q => ({ m with sleepers := q }, { l with pc := .ret .ok })
  | .ret _ => some (m, { l with pc := .idle })

/-- The word starts at 0, and no thread is inside a call. -/
def IsInit (s : Global T (Mem T) Local) : Prop :=
  s.mem = ⟨0, ∅⟩ ∧ ∀ t, s.loc t = ⟨.idle, false⟩

/-- The threads that share one low-level lock. -/
def machine : Machine (Global T (Mem T) Local) (T × Choice T) := exec.machine IsInit

end Hlpt.LowLevelLock
