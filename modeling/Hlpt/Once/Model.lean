import Hlpt.Base
import Hlpt.Lib.Threads
import Mathlib.Data.BitVec
import Mathlib.Data.Finset.Card

/-!
# `Hlpt.Once.Model`: `pthread_once` of `once.c`

A once-control word, and the threads of one process that call `pthread_once` on it.
Every access to the word and every `gsync` call is one step of `exec`.

The word is `ONCE_INIT`, `ONCE_DONE` or the token of a process, which says that a thread
of that process runs the routine. A child of `fork` may inherit a token of its parent.
The routine does not touch the word; it returns, or a cancellation of the thread ends it
and runs `cleanup`.

`completed` is a ghost: whether the routine has returned once.
-/

set_option autoImplicit false

namespace Hlpt.Once

open Hlpt.Lib

universe u

/-- `ONCE_INIT` -/
def ONCE_INIT : BitVec 32 := 0

/-- `ONCE_WIP` -/
def ONCE_WIP : BitVec 32 := 1

/-- `ONCE_DONE` -/
def ONCE_DONE : BitVec 32 := 2

/-- `ONCE_SHIFT` -/
def ONCE_SHIFT : ℕ := 2

/-- A process id. Shifted by `ONCE_SHIFT` it is still an `int`. -/
@[ext]
structure Pid where
  val : BitVec 32
  small : val.toNat < 2 ^ 29
  deriving DecidableEq

/-- `(getpid () << ONCE_SHIFT) | ONCE_WIP`: the token of a process. -/
def Pid.token (pid : Pid) : BitVec 32 := pid.val <<< ONCE_SHIFT ||| ONCE_WIP

/-- The control points, each before one access. A value that the code keeps in a local
variable is an argument. -/
inductive Pc where
  | idle
  /-- `int val = atomic_load (ctp)`, before the loop -/
  | first
  /-- `val = atomic_load (ctp)` -/
  | load
  /-- `lll_wait (ctp, val, 0)` -/
  | wait
  /-- Inside `gsync_wait`. -/
  | asleep
  /-- `atomic_cas_bool (ctp, val, nv)` -/
  | cas (val : BitVec 32)
  /-- `fct ()` -/
  | routine
  /-- `lll_set_wake (ctp, ONCE_DONE, GSYNC_BROADCAST)` -/
  | setWake
  /-- `*(unsigned int *)argp = ONCE_INIT` in `cleanup` -/
  | cleanStore
  /-- `lll_wake (argp, GSYNC_BROADCAST)` in `cleanup` -/
  | cleanWake
  /-- The call returns 0. -/
  | ret
  /-- The thread was cancelled. -/
  | gone
  deriving DecidableEq, Repr

/-- The word and the threads asleep on it. -/
structure Mem (T : Type u) where
  word : BitVec 32
  sleepers : Finset T
  completed : Bool

/-- What the environment chooses in a step: whether a cancellation ends the routine, and
whether the kernel ends the sleep of the thread. -/
structure Choice where
  cancel : Bool := false
  interrupt : Bool := false

variable {T : Type u} [DecidableEq T]

/-- The next access of the thread `t`, in the process `pid`. -/
def exec (pid : Pid) : Exec T Choice (Mem T) Pc := fun t c m pc =>
  match pc with
  | .idle => some (m, .first)
  | .first => some (m, if m.word = ONCE_DONE then .ret else .load)
  | .load =>
      some (m, if m.word = ONCE_DONE then .ret
        else if m.word = pid.token then .wait else .cas m.word)
  | .wait =>
      if m.word = pid.token then
        some ({ m with sleepers := insert t m.sleepers }, .asleep)
      else some (m, .load)
  | .asleep =>
      if t ∈ m.sleepers then
        if c.interrupt then some ({ m with sleepers := m.sleepers.erase t }, .load) else none
      else some (m, .load)
  | .cas val =>
      if m.word = val then some ({ m with word := pid.token }, .routine) else some (m, .load)
  | .routine =>
      if c.cancel then some (m, .cleanStore)
      else some ({ m with completed := true }, .setWake)
  | .setWake => some ({ m with word := ONCE_DONE, sleepers := ∅ }, .ret)
  | .cleanStore => some ({ m with word := ONCE_INIT }, .cleanWake)
  | .cleanWake => some ({ m with sleepers := ∅ }, .gone)
  | .ret => some (m, .idle)
  | .gone => none

/-- The word starts at `ONCE_INIT`, or at the token of another process. -/
def IsInit (pid : Pid) (s : Global T (Mem T) Pc) : Prop :=
  (s.mem.word = ONCE_INIT ∨ ∃ parent : Pid, parent ≠ pid ∧ s.mem.word = parent.token) ∧
  s.mem.sleepers = ∅ ∧ s.mem.completed = false ∧ ∀ t, s.loc t = .idle

/-- The threads of one process that share a once-control word. -/
def machine (pid : Pid) : Machine (Global T (Mem T) Pc) (T × Choice) :=
  (exec pid).machine (IsInit pid)

end Hlpt.Once
