import Hlpt.Requeue.Count

/-!
# `Hlpt.Coupling.Model`: a condition variable and any number of mutexes

`Hlpt.Requeue` knows the mutex of a condition variable. Here every wait is given its own
one, and the condition variable remembers the address of one of them in `__mutex`. A step
of a thread is the one of `Hlpt.Requeue`, for the mutex that the step is about: the one of
its call, or the one that `__mutex` names when a broadcast requeues, or the one to which a
broadcast has moved the thread.

The ghosts are the mutex of the first wait that looked at `__mutex`, where a broadcast moved
a thread, and how many waits left without being uncounted.
-/

set_option autoImplicit false

namespace Hlpt.Coupling

open Hlpt.Lib

universe u v

/-- A thread: its control point, the mutex of its call and the mutexes it holds. -/
structure Local (T : Type u) (M : Type v) where
  pc : Requeue.Pc T
  mtxp : M
  holds : M → Bool

/-- The lock words of the mutexes, the word of the condition variable, its `__mutex`, the
threads asleep on the sequence, and the fields of the threads' `struct hurd_sigstate`. Then
the ghosts. -/
structure Mem (T : Type u) (M : Type v) where
  lock : M → LowLevelLock.Mem T
  lo : BitVec 32
  hi : BitVec 32
  mutex : Option M
  queue : Finset T
  spin : T → Bool
  cancel : T → Bool
  hook : T → Bool
  first : Option M
  moved : T → Option M
  leaked : ℕ

/-- What the environment chooses in a step: the mutex of a new call, and what it chooses in
`Hlpt.Requeue`. -/
structure Choice (T : Type u) (M : Type v) where
  mtxp : M
  base : Requeue.Choice T := {}

variable {T : Type u} {M : Type v}

/-- What `Hlpt.Requeue` sees of the memory, for one mutex. -/
def Mem.view (m : Mem T M) (x : M) : Requeue.Mem T :=
  ⟨m.lock x, m.lo, m.hi, m.mutex.isSome, m.queue, m.spin, m.cancel, m.hook⟩

/-- What it sees of a thread. -/
def Local.view (l : Local T M) (x : M) : Requeue.Local T := ⟨l.pc, l.holds x⟩

/-- The mutex of the call of the thread, once it has taken the step. -/
def Local.next (l : Local T M) (c : Choice T M) : M :=
  match l.pc with
  | .idle => c.mtxp
  | _ => l.mtxp

/-- The mutex that the next step is about. -/
def site (t : T) (c : Choice T M) (m : Mem T M) (l : Local T M) : M :=
  match l.pc with
  | .asleep _ _ => (m.moved t).getD l.mtxp
  | .bcRequeue => m.mutex.getD l.mtxp
  | _ => l.next c

variable [DecidableEq T] [DecidableEq M]

/-- The memory after a step about the mutex `x`, when `Hlpt.Requeue` gives `v` and the
control point `pc'`. -/
def Mem.after (m : Mem T M) (l : Local T M) (x : M) (v : Requeue.Mem T) (pc' : Requeue.Pc T) :
    Mem T M where
  lock := Function.update m.lock x v.lock
  lo := v.lo
  hi := v.hi
  mutex :=
    match l.pc with
    | .storeMutex _ => some l.mtxp
    | _ => m.mutex
  queue := v.queue
  spin := v.spin
  cancel := v.cancel
  hook := v.hook
  first :=
    match l.pc with
    | .checkMutex _ => m.first.or (some l.mtxp)
    | _ => m.first
  moved :=
    match l.pc with
    | .bcRequeue => fun u => if u ∈ m.queue ∧ u ∈ v.lock.sleepers then some x else m.moved u
    | _ => m.moved
  leaked := if Requeue.leaks l.pc pc' then m.leaked + 1 else m.leaked

/-- The next step of the thread `t`. -/
def exec : Exec T (Choice T M) (Mem T M) (Local T M) := fun t c m l =>
  (Requeue.exec t c.base (m.view (site t c m l)) (l.view (site t c m l))).map fun r =>
    (m.after l (site t c m l) r.1 r.2.pc,
      ⟨r.2.pc, l.next c, Function.update l.holds (site t c m l) r.2.holds⟩)

/-- `pthread_cond_init` and `pthread_mutex_init`: the words are 0, no mutex is remembered,
nobody is being cancelled, and no thread is inside a call. -/
def IsInit (s : Global T (Mem T M) (Local T M)) : Prop :=
  s.mem = ⟨fun _ => ⟨0, ∅⟩, 0, 0, none, ∅, fun _ => false, fun _ => false, fun _ => false,
      none, fun _ => none, 0⟩ ∧
    ∀ t, (s.loc t).pc = .idle ∧ ∀ x, (s.loc t).holds x = false

/-- The threads that share one condition variable and the mutexes. -/
def machine : Machine (Global T (Mem T M) (Local T M)) (T × Choice T M) := exec.machine IsInit

end Hlpt.Coupling
