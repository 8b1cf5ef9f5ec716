import Hlpt.Base
import Hlpt.Lib.Linear

/-!
# `Hlpt.Spin.Model`: the spin locks of `spinlock.c`

Any number of threads run `pthread_spin_lock`, `pthread_spin_trylock`,
`pthread_spin_unlock` and `pthread_spin_destroy` on one word. Every access to the word is
one step of `exec`. Nothing checks who releases the lock, or that it is held then.
-/

set_option autoImplicit false

namespace Hlpt.Spin

open Hlpt.Lib

universe u

/-- `SPIN_UNLOCKED`, the value `PTHREAD_SPINLOCK_INITIALIZER`. -/
def SPIN_UNLOCKED : BitVec 32 := 0

/-- `SPIN_LOCKED` -/
def SPIN_LOCKED : BitVec 32 := SPIN_UNLOCKED ^^^ 1

/-- `NSPINS` -/
def NSPINS : Nat := 1000

/-- `PTHREAD_PROCESS_PRIVATE` -/
def PTHREAD_PROCESS_PRIVATE : BitVec 32 := 0

/-- `PTHREAD_PROCESS_SHARED` -/
def PTHREAD_PROCESS_SHARED : BitVec 32 := 1

/-- `pthread_spin_init` -/
def pthreadSpinInit (pshared : BitVec 32) : Except Code (BitVec 32) :=
  if pshared ≠ PTHREAD_PROCESS_SHARED ∧ pshared ≠ PTHREAD_PROCESS_PRIVATE then .error .einval
  else .ok SPIN_UNLOCKED

/-- The functions that a thread may call. -/
inductive Call where
  | lock
  | trylock
  | unlock
  | destroy
  deriving DecidableEq, Repr

/-- The control points, each before one access. -/
inductive Pc where
  | idle
  /-- `atomic_swap (lockp, SPIN_LOCKED) == SPIN_UNLOCKED` in `pthread_spin_lock` -/
  | lockSwap
  /-- `*lockp == SPIN_LOCKED && --nspins != 0` -/
  | lockSpin (nspins : Nat)
  /-- `*lockp != SPIN_UNLOCKED` in `pthread_spin_trylock` -/
  | tryTest
  /-- `atomic_swap (lockp, SPIN_LOCKED) != SPIN_UNLOCKED` -/
  | trySwap
  /-- `atomic_store (lockp, SPIN_UNLOCKED)` -/
  | unlockStore
  /-- `(void)lockp` in `pthread_spin_destroy` -/
  | destroy
  /-- The call returns the code. -/
  | ret (r : Code)
  deriving DecidableEq, Repr

/-- The entry of a function. -/
def enter : Call → Pc
  | .lock => .lockSwap
  | .trylock => .tryTest
  | .unlock => .unlockStore
  | .destroy => .destroy

variable {T : Type u}

/-- The next access of a thread. An idle one calls the function `c`. -/
def exec : Exec T Call (BitVec 32) Pc := fun _ c word pc =>
  match pc with
  | .idle => some (word, enter c)
  -- `pthread_spin_lock`
  | .lockSwap =>
      some (SPIN_LOCKED, if word = SPIN_UNLOCKED then .ret .ok else .lockSpin NSPINS)
  | .lockSpin nspins =>
      some (word, if word = SPIN_LOCKED ∧ nspins - 1 ≠ 0 then .lockSpin (nspins - 1)
        else .lockSwap)
  -- `pthread_spin_trylock`
  | .tryTest => some (word, if word ≠ SPIN_UNLOCKED then .ret .ebusy else .trySwap)
  | .trySwap => some (SPIN_LOCKED, if word ≠ SPIN_UNLOCKED then .ret .ebusy else .ret .ok)
  -- `pthread_spin_unlock` and `pthread_spin_destroy`
  | .unlockStore => some (SPIN_UNLOCKED, .ret .ok)
  | .destroy => some (word, .ret .ok)
  | .ret _ => some (word, .idle)

/-- The lock was initialised by `pthread_spin_init`, and no thread is inside a call. -/
def IsInit (s : Global T (BitVec 32) Pc) : Prop :=
  (∃ pshared, pthreadSpinInit pshared = .ok s.mem) ∧ ∀ t, s.loc t = .idle

/-- The event of a step: an idle thread calls `c`, or its call returns. -/
def label (c : Call) : Pc → Option (Event Call Code)
  | .idle => some (.inv c)
  | .ret r => some (.res r)
  | _ => none

end Hlpt.Spin
