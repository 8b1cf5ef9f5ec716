import Hlpt.Lib.Sleepers
import Hlpt.Robust.Model

/-!
# `Hlpt.RobustLock.Model`: the functions `lll_robust_*` on one word

The threads of any number of processes run `lll_robust_lock`, `__lll_robust_abstimed_lock`,
`lll_robust_trylock` and `lll_robust_unlock` of `lowlevellock.c` on one word. Every access to
the word, every query of `valid_pid` and every `gsync` call is one step of `exec`.

A process may die before any step of one of its threads. They do not move any more, and
`valid_pid` no longer finds the process. The polling interval is how long a sleep may last,
and the kernel may end a sleep at any time.

`holds` says that a thread took the word and did not release it, which is also when it may
call `lll_robust_unlock`. `holder` and `log` are ghosts: the thread that took the word last,
until it is released, and all takes with the value that was replaced, the latest first.
-/

set_option autoImplicit false

namespace Hlpt.RobustLock

open Hlpt.Lib
open Hlpt.Robust (LLL_OWNER_MASK LLL_WAITERS)

universe u

/-- The process of each thread, as `getpid` returns it. -/
structure Env (T : Type u) where
  pid : T → BitVec 32
  pid_ne : ∀ t, pid t ≠ 0
  pid_masked : ∀ t, pid t &&& LLL_OWNER_MASK = pid t

/-- The deadline of a lock call: `none` for `lll_robust_lock`. -/
abbrev Deadline := Option Timespec

/-- The functions that a thread may call. -/
inductive Call where
  | lllRobustLock
  | lllRobustAbstimedLock (tsp : Timespec)
  | lllRobustTrylock
  | lllRobustUnlock
  deriving DecidableEq, Repr

/-- The control points, each before one access. -/
inductive Pc where
  | idle
  /-- `val = *iptr` in the first loop -/
  | spinLoad (d : Deadline)
  /-- `atomic_cas_bool (iptr, 0, id)` in the first loop -/
  | spinCas (d : Deadline)
  /-- `atomic_cas_bool (iptr, val, val | LLL_WAITERS)` -/
  | spinMark (d : Deadline) (val : BitVec 32)
  /-- `val = *iptr` in the second loop -/
  | waitLoad (d : Deadline)
  /-- `atomic_cas_bool (iptr, 0, id)` in the second loop -/
  | waitCas (d : Deadline)
  /-- `valid_pid (val & LLL_OWNER_MASK)` -/
  | waitValid (d : Deadline) (val : BitVec 32)
  /-- `atomic_cas_bool (iptr, val, id)` for a dead owner -/
  | waitSteal (d : Deadline) (val : BitVec 32)
  /-- `compute_reltime (tsp, clk)` -/
  | waitClock (tsp : Timespec) (val : BitVec 32)
  /-- `lll_timed_wait (iptr, val, mlsec, flags)` -/
  | waitSleep (d : Deadline) (val : BitVec 32)
  /-- Inside `gsync_wait`. -/
  | asleep (d : Deadline)
  /-- `val = *iptr` in `lll_robust_trylock` -/
  | tryLoad
  /-- `atomic_cas_bool (iptr, val, id)` in `lll_robust_trylock`, for a free word -/
  | tryCas
  /-- `valid_pid (val & LLL_OWNER_MASK)` in `lll_robust_trylock` -/
  | tryValid (val : BitVec 32)
  /-- `atomic_cas_bool (iptr, val, id)` in `lll_robust_trylock`, for a dead owner -/
  | trySteal (val : BitVec 32)
  /-- `val = *(unsigned int *)ptr` in `lll_robust_unlock` -/
  | unLoad
  /-- `lll_set_wake (ptr, 0, flags)` -/
  | unSetWake
  /-- `atomic_cas_bool ((int *)ptr, val, 0)` -/
  | unCas (val : BitVec 32)
  /-- The call returns the code. -/
  | ret (r : Code)
  deriving DecidableEq, Repr

/-- A thread: its control point and whether it holds the word. -/
structure Local where
  pc : Pc
  holds : Bool
  deriving DecidableEq, Repr

/-- A thread replaced the value `old` by its own process id. -/
structure Take (T : Type u) where
  thread : T
  old : BitVec 32
  deriving DecidableEq

/-- The word, the threads asleep on it, the processes that died, and the ghosts. -/
structure Mem (T : Type u) where
  word : BitVec 32
  sleepers : Finset T
  dead : BitVec 32 → Bool
  holder : Option T
  log : List (Take T)

/-- What the environment chooses in a step: whether the thread's process dies, the function
an idle thread calls, the reading of the clock, the sleeper that a wake takes, and whether
the kernel ends the sleep of the thread itself. -/
structure Choice (T : Type u) where
  dies : Bool := false
  call : Call := .lllRobustLock
  now : Timespec := default
  pick : Option T := none
  ends : Option WaitEnd := none

variable {T : Type u}

/-- The entry of a function. -/
def enter (l : Local) : Call → Option Local
  | .lllRobustLock => some { l with pc := .spinLoad none }
  | .lllRobustAbstimedLock tsp => some { l with pc := .spinLoad (some tsp) }
  | .lllRobustTrylock => some { l with pc := .tryLoad }
  | .lllRobustUnlock => if l.holds then some { l with pc := .unLoad } else none

/-- Where a lock call goes to sleep. Only the timed version looks at its deadline. -/
def beforeSleep (val : BitVec 32) : Deadline → Pc
  | none => .waitSleep none val
  | some tsp => .waitClock tsp val

/-- Where a lock call goes when its sleep ended, with `KERN_TIMEDOUT` or without. -/
def afterSleep (timedout : Bool) : Deadline → Pc
  | none => .waitLoad none
  | some tsp => if timedout then .ret .etimedout else .waitLoad (some tsp)

/-- The thread `t` takes the word with the value `new`. -/
def Mem.take (m : Mem T) (t : T) (new : BitVec 32) : Mem T :=
  { m with word := new, holder := some t, log := ⟨t, m.word⟩ :: m.log }

/-- The word is released. -/
def Mem.release (m : Mem T) (sleepers : Finset T) : Mem T :=
  { m with word := 0, sleepers := sleepers, holder := none }

variable [DecidableEq T]

/-- The next access of the thread `t`, when its process goes on. -/
def act (E : Env T) (t : T) (c : Choice T) (m : Mem T) (l : Local) : Option (Mem T × Local) :=
  match l.pc with
  | .idle => (enter l c.call).map (m, ·)
  -- The two robust locks take a free word, or mark one that is held.
  | .spinLoad d =>
      some (m, { l with pc := if m.word = 0 then .spinCas d else .spinMark d m.word })
  | .spinCas d =>
      if m.word = 0 then some (m.take t (E.pid t), ⟨.ret .ok, true⟩)
      else some (m, { l with pc := .spinLoad d })
  | .spinMark d val =>
      if m.word = val then
        some ({ m with word := val ||| LLL_WAITERS }, { l with pc := .waitLoad d })
      else some (m, { l with pc := .spinLoad d })
  -- Then they poll: the word may become free, and its process may die.
  | .waitLoad d =>
      some (m, { l with pc := if m.word = 0 then .waitCas d else .waitValid d m.word })
  | .waitCas d =>
      if m.word = 0 then some (m.take t (E.pid t ||| LLL_WAITERS), ⟨.ret .ok, true⟩)
      else some (m, { l with pc := beforeSleep 0 d })
  | .waitValid d val =>
      some (m, { l with
        pc := if m.dead (val &&& LLL_OWNER_MASK) then .waitSteal d val else beforeSleep val d })
  | .waitSteal d val =>
      if m.word = val then some (m.take t (E.pid t ||| LLL_WAITERS), ⟨.ret .eownerdead, true⟩)
      else some (m, { l with pc := .waitLoad d })
  | .waitClock tsp val =>
      some (m, { l with
        pc := if expired tsp c.now then .ret .etimedout else .waitSleep (some tsp) val })
  | .waitSleep d val =>
      if m.word = val then
        some ({ m with sleepers := insert t m.sleepers }, { l with pc := .asleep d })
      else some (m, { l with pc := .waitLoad d })
  | .asleep d =>
      (wakeUp (t ∈ m.sleepers) true c.ends).map fun timedout =>
        ({ m with sleepers := m.sleepers.erase t }, { l with pc := afterSleep timedout d })
  -- `lll_robust_trylock`
  | .tryLoad => some (m, { l with pc := if m.word = 0 then .tryCas else .tryValid m.word })
  | .tryCas =>
      if m.word = 0 then some (m.take t (E.pid t), ⟨.ret .ok, true⟩)
      else some (m, { l with pc := .ret .ebusy })
  | .tryValid val =>
      some (m, { l with
        pc := if m.dead (val &&& LLL_OWNER_MASK) then .trySteal val else .ret .ebusy })
  | .trySteal val =>
      if m.word = val then some (m.take t (E.pid t), ⟨.ret .eownerdead, true⟩)
      else some (m, { l with pc := .ret .ebusy })
  -- `lll_robust_unlock`
  | .unLoad =>
      some (m, { l with pc := if m.word &&& LLL_WAITERS ≠ 0 then .unSetWake else .unCas m.word })
  | .unSetWake =>
      (wakeOne m.sleepers c.pick).map fun q => (m.release q, ⟨.ret .ok, false⟩)
  | .unCas val =>
      if m.word = val then some (m.release m.sleepers, ⟨.ret .ok, false⟩)
      else some (m, { l with pc := .unLoad })
  | .ret _ => some (m, { l with pc := .idle })

/-- The process of the thread `t` dies, and its threads leave the queue. -/
def Mem.die (E : Env T) (m : Mem T) (t : T) : Mem T :=
  { m with
    dead := Function.update m.dead (E.pid t) true
    sleepers := m.sleepers.filter fun u => E.pid u ≠ E.pid t }

/-- The next step of the thread `t`: an access, or the death of its process. -/
def exec (E : Env T) : Exec T (Choice T) (Mem T) Local := fun t c m l =>
  if m.dead (E.pid t) then none
  else if c.dies then some (m.die E t, l)
  else act E t c m l

/-- The word is free, and no thread is in a call. Some processes may have died before. -/
def IsInit (s : Global T (Mem T) Local) : Prop :=
  (∃ dead, s.mem = ⟨0, ∅, dead, none, []⟩) ∧ ∀ t, s.loc t = ⟨.idle, false⟩

/-- The threads that share the word. -/
def machine (E : Env T) : Machine (Global T (Mem T) Local) (T × Choice T) :=
  (exec E).machine IsInit

/-- The process of the thread lives. -/
def Alive (E : Env T) (m : Mem T) (t : T) : Prop := m.dead (E.pid t) = false

end Hlpt.RobustLock
