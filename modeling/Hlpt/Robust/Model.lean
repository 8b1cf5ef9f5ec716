import Hlpt.Base
import Hlpt.Lib.Bits
import Hlpt.Lib.Threads
import Mathlib.Data.BitVec

/-!
# `Hlpt.Robust.Model`: a robust mutex, shared between processes

The threads of several processes lock and unlock one robust mutex, with the functions of
`mutex.c` (`ROBUST_LOCK` and the robust case of `pthread_mutex_unlock`) and the locks
`lll_robust_*` of `lowlevellock.c`. Every access to the mutex is one step of `exec`, and a
`++` or a `--` is a load and a store.

A process may die before any step. Its threads do not move any more, and `valid_pid` no
longer finds it. Process ids are not reused. The wait of a queued thread polls, so a
thread in it may go on at any time.

`depth` is how many of a thread's lock calls returned 0 or `EOWNERDEAD` and are not yet
matched by an unlock. `taker` is a ghost: the thread that took the lock word last, until
it stores 0 there.
-/

set_option autoImplicit false

namespace Hlpt.Robust

open Hlpt.Lib

universe u

/-- `LLL_WAITERS`: somebody waits for the lock. -/
def LLL_WAITERS : BitVec 32 := 1 <<< 31

/-- `LLL_DEAD_OWNER`: the state that the lock protects is inconsistent. -/
def LLL_DEAD_OWNER : BitVec 32 := 1 <<< 30

/-- `LLL_OWNER_MASK`: the process id in the lock word. -/
def LLL_OWNER_MASK : BitVec 32 := ~~~(LLL_WAITERS ||| LLL_DEAD_OWNER)

/-- The mask does not see `LLL_WAITERS`. -/
theorem waiters_masked (v : BitVec 32) :
    (v ||| LLL_WAITERS) &&& LLL_OWNER_MASK = v &&& LLL_OWNER_MASK :=
  or_and_of_disjoint (by decide)

/-- The mask does not see `LLL_DEAD_OWNER`. -/
theorem deadOwner_masked (v : BitVec 32) :
    (v ||| LLL_DEAD_OWNER) &&& LLL_OWNER_MASK = v &&& LLL_OWNER_MASK :=
  or_and_of_disjoint (by decide)

/-- A word with `LLL_WAITERS` is not 0. -/
theorem waiters_ne_zero (v : BitVec 32) : v ||| LLL_WAITERS ≠ 0 := by
  intro h
  exact absurd (BitVec.or_eq_zero_iff.mp h).2 (by decide)

/-- `NOTRECOVERABLE_ID`: the owner of a mutex that is not recoverable. -/
def NOTRECOVERABLE_ID : BitVec 32 := 1 <<< 31

/-- The type of the mutex. -/
inductive Kind where
  | normal
  | recursive
  | errorcheck
  deriving DecidableEq, Repr

/-- The mutex type and the threads that use the mutex: the process and the id of each.
Ids are unique within a process. -/
structure Env (T : Type u) where
  kind : Kind
  pid : T → BitVec 32
  id : T → BitVec 32
  pid_ne : ∀ t, pid t ≠ 0
  pid_masked : ∀ t, pid t &&& LLL_OWNER_MASK = pid t
  id_ne : ∀ t, id t ≠ 0
  id_masked : ∀ t, id t &&& PTHREAD_ID_MASK = id t
  unique : ∀ t u, pid t = pid u → id t = id u → t = u

/-- The lock operations. -/
inductive LockCall where
  | lock
  | trylock
  | timedlock (tsp : Timespec)
  deriving DecidableEq, Repr

/-- The functions that a thread may call. -/
inductive Call where
  | lock (k : LockCall)
  | unlock
  deriving DecidableEq, Repr

/-- The control points, each before one access. -/
inductive Pc where
  | idle
  /-- `mtxp->__owner_id == NOTRECOVERABLE_ID` at the start of `ROBUST_LOCK` -/
  | checkUnrecoverable (k : LockCall)
  /-- `mtxp->__owner_id == self->id` -/
  | checkOwner (k : LockCall)
  /-- `getpid () == (int)(mtxp->__lock & LLL_OWNER_MASK)` -/
  | checkPid (k : LockCall)
  /-- `mtxp->__cnt + 1 == 0` -/
  | relockTest
  /-- The load of `++mtxp->__cnt`. -/
  | relockLoad
  /-- The store of `++mtxp->__cnt`. -/
  | relockStore (v : BitVec 32)
  /-- `val = *iptr` in the first loop -/
  | spinLoad (k : LockCall)
  /-- `atomic_cas_bool (iptr, 0, id)` in the first loop -/
  | spinCas (k : LockCall)
  /-- `atomic_cas_bool (iptr, val, val | LLL_WAITERS)` -/
  | spinMark (k : LockCall) (val : BitVec 32)
  /-- `val = *iptr` in the second loop -/
  | waitLoad (k : LockCall)
  /-- `atomic_cas_bool (iptr, 0, id)` in the second loop -/
  | waitCas (k : LockCall)
  /-- `valid_pid (val & LLL_OWNER_MASK)` -/
  | waitValid (k : LockCall) (val : BitVec 32)
  /-- `atomic_cas_bool (iptr, val, id)` for a dead owner -/
  | waitSteal (k : LockCall) (val : BitVec 32)
  /-- `lll_timed_wait (iptr, val, wait_time, flags)` -/
  | waitSleep (k : LockCall) (val : BitVec 32)
  /-- Inside `gsync_wait`. -/
  | asleep (k : LockCall)
  /-- `val = *iptr` in `lll_robust_trylock` -/
  | tryLoad
  /-- `atomic_cas_bool (iptr, val, id)` in `lll_robust_trylock`, for a free lock -/
  | tryCas
  /-- `valid_pid (val & LLL_OWNER_MASK)` in `lll_robust_trylock` -/
  | tryValid (val : BitVec 32)
  /-- `atomic_cas_bool (iptr, val, id)` in `lll_robust_trylock`, for a dead owner -/
  | trySteal (val : BitVec 32)
  /-- `mtxp->__owner_id == NOTRECOVERABLE_ID` after the lock was taken -/
  | taken (ownerDead : Bool)
  /-- `mtxp->__owner_id = self->id` -/
  | setOwner (ownerDead : Bool)
  /-- `mtxp->__cnt = 1` -/
  | setCnt (ownerDead : Bool)
  /-- The load of `mtxp->__lock | LLL_DEAD_OWNER`. -/
  | deadLoad
  /-- `atomic_store (&mtxp->__lock, ...)` -/
  | deadStore (v : BitVec 32)
  /-- A lock operation returns the code. -/
  | lockRet (r : Code)
  /-- `mtxp->__owner_id == NOTRECOVERABLE_ID` in `pthread_mutex_unlock` -/
  | unUnrecoverable
  /-- `mtxp->__owner_id != self->id` -/
  | unOwner
  /-- `(int)(mtxp->__lock & LLL_OWNER_MASK) != getpid ()` -/
  | unPid
  /-- The load of `--mtxp->__cnt`. -/
  | unLoad
  /-- The store of `--mtxp->__cnt`, and its test. -/
  | unStore (v : BitVec 32)
  /-- `mtxp->__lock & LLL_DEAD_OWNER` -/
  | unDead
  /-- `mtxp->__owner_id = ...` -/
  | unSetOwner (v : BitVec 32)
  /-- `val = *(unsigned int *)ptr` in `lll_robust_unlock` -/
  | unWord
  /-- `lll_set_wake (ptr, 0, flags)` -/
  | unSetWake
  /-- `atomic_cas_bool ((int *)ptr, val, 0)` -/
  | unCas (val : BitVec 32)
  /-- `pthread_mutex_unlock` returns the code. -/
  | unRet (r : Code)
  deriving DecidableEq, Repr

/-- A thread: its control point and its holds. -/
structure Local where
  pc : Pc
  depth : ℕ
  deriving DecidableEq, Repr

/-- The fields of the mutex, the processes that died, and the ghost. -/
structure Mem (T : Type u) where
  lock : BitVec 32
  ownerId : BitVec 32
  cnt : BitVec 32
  dead : BitVec 32 → Bool
  taker : Option T

/-- What the environment chooses in a step: whether the thread's process dies, the call
of an idle thread, the reading of the clock, and how a sleep ends. -/
structure Choice where
  dies : Bool := false
  call : Call := .lock .lock
  now : Timespec := default
  ends : Option WaitEnd := none

namespace LockCall

/-- `cb (&mtxp->__lock, ...)` -/
def acquire : LockCall → Pc
  | trylock => .tryLoad
  | lock => .spinLoad .lock
  | timedlock tsp => .spinLoad (.timedlock tsp)

/-- Whether the deadline is past before the wait starts. -/
def expired (now : Timespec) : LockCall → Bool
  | timedlock tsp => Hlpt.expired tsp now
  | lock | trylock => false

/-- Where a wait goes that ended with `KERN_TIMEDOUT`. -/
def afterTimeout : LockCall → Pc
  | timedlock _ => .lockRet .etimedout
  | lock => .waitLoad .lock
  | trylock => .waitLoad .trylock

end LockCall

variable {T : Type u} [DecidableEq T]

/-- The next access of the thread `t`, when its process goes on. -/
def act (E : Env T) (t : T) (c : Choice) (m : Mem T) (l : Local) : Option (Mem T × Local) :=
  match l.pc with
  | .idle =>
      match c.call with
      | .lock k => some (m, { l with pc := .checkUnrecoverable k })
      | .unlock =>
          if 0 < l.depth then some (m, ⟨.unUnrecoverable, l.depth - 1⟩) else none
  -- `ROBUST_LOCK`, up to the acquisition of the lock word.
  | .checkUnrecoverable k =>
      some (m, { l with
        pc := if m.ownerId = NOTRECOVERABLE_ID then .lockRet .enotrecoverable
          else .checkOwner k })
  | .checkOwner k =>
      some (m, { l with pc := if m.ownerId = E.id t then .checkPid k else k.acquire })
  | .checkPid k =>
      some (m, { l with
        pc := if m.lock &&& LLL_OWNER_MASK = E.pid t then
            match E.kind with
            | .recursive => .relockTest
            | .errorcheck => .lockRet .edeadlk
            | .normal => k.acquire
          else k.acquire })
  -- A recursive mutex that the thread holds already.
  | .relockTest =>
      some (m, { l with pc := if m.cnt + 1 = 0 then .lockRet .eagain else .relockLoad })
  | .relockLoad => some (m, { l with pc := .relockStore m.cnt })
  | .relockStore v => some ({ m with cnt := v + 1 }, { l with pc := .lockRet .ok })
  -- The two robust locks take a free word, or mark one that is held.
  | .spinLoad k =>
      some (m, { l with pc := if m.lock = 0 then .spinCas k else .spinMark k m.lock })
  | .spinCas k =>
      if m.lock = 0 then
        some ({ m with lock := E.pid t, taker := some t }, { l with pc := .taken false })
      else some (m, { l with pc := .spinLoad k })
  | .spinMark k val =>
      if m.lock = val then
        some ({ m with lock := val ||| LLL_WAITERS }, { l with pc := .waitLoad k })
      else some (m, { l with pc := .spinLoad k })
  -- Then they poll: the word may become free, and its process may die.
  | .waitLoad k =>
      some (m, { l with pc := if m.lock = 0 then .waitCas k else .waitValid k m.lock })
  | .waitCas k =>
      if m.lock = 0 then
        some ({ m with lock := E.pid t ||| LLL_WAITERS, taker := some t },
          { l with pc := .taken false })
      else some (m, { l with pc := .waitSleep k 0 })
  | .waitValid k val =>
      some (m, { l with
        pc := if m.dead (val &&& LLL_OWNER_MASK) then .waitSteal k val else .waitSleep k val })
  | .waitSteal k val =>
      if m.lock = val then
        some ({ m with lock := E.pid t ||| LLL_WAITERS, taker := some t },
          { l with pc := .taken true })
      else some (m, { l with pc := .waitLoad k })
  | .waitSleep k val =>
      some (m, { l with
        pc := if k.expired c.now then .lockRet .etimedout
          else if m.lock = val then .asleep k else .waitLoad k })
  | .asleep k =>
      some (m, { l with
        pc := match c.ends with
          | some .timedout => k.afterTimeout
          | some .interrupted | none => .waitLoad k })
  -- `lll_robust_trylock`
  | .tryLoad =>
      some (m, { l with pc := if m.lock = 0 then .tryCas else .tryValid m.lock })
  | .tryCas =>
      if m.lock = 0 then
        some ({ m with lock := E.pid t, taker := some t }, { l with pc := .taken false })
      else some (m, { l with pc := .lockRet .ebusy })
  | .tryValid val =>
      some (m, { l with
        pc := if m.dead (val &&& LLL_OWNER_MASK) then .trySteal val else .lockRet .ebusy })
  | .trySteal val =>
      if m.lock = val then
        some ({ m with lock := E.pid t, taker := some t }, { l with pc := .taken true })
      else some (m, { l with pc := .lockRet .ebusy })
  -- `ROBUST_LOCK`, after the acquisition.
  | .taken ownerDead =>
      some (m, { l with
        pc := if m.ownerId = NOTRECOVERABLE_ID then .lockRet .enotrecoverable
          else .setOwner ownerDead })
  | .setOwner ownerDead => some ({ m with ownerId := E.id t }, { l with pc := .setCnt ownerDead })
  | .setCnt ownerDead =>
      some ({ m with cnt := 1 }, { l with pc := if ownerDead then .deadLoad else .lockRet .ok })
  | .deadLoad => some (m, { l with pc := .deadStore (m.lock ||| LLL_DEAD_OWNER) })
  | .deadStore v => some ({ m with lock := v }, { l with pc := .lockRet .eownerdead })
  | .lockRet r =>
      some (m, ⟨.idle, if r = .ok ∨ r = .eownerdead then l.depth + 1 else l.depth⟩)
  -- `pthread_mutex_unlock` of a robust mutex.
  | .unUnrecoverable =>
      some (m, { l with
        pc := if m.ownerId = NOTRECOVERABLE_ID then .unRet .ok else .unOwner })
  | .unOwner =>
      some (m, { l with pc := if m.ownerId ≠ E.id t then .unRet .eperm else .unPid })
  | .unPid =>
      some (m, { l with
        pc := if m.lock &&& LLL_OWNER_MASK ≠ E.pid t then .unRet .eperm else .unLoad })
  | .unLoad => some (m, { l with pc := .unStore m.cnt })
  | .unStore v =>
      some ({ m with cnt := v - 1 }, { l with pc := if v - 1 = 0 then .unDead else .unRet .ok })
  | .unDead =>
      some (m, { l with
        pc := .unSetOwner (if m.lock &&& LLL_DEAD_OWNER ≠ 0 then NOTRECOVERABLE_ID else 0) })
  | .unSetOwner v => some ({ m with ownerId := v }, { l with pc := .unWord })
  -- `lll_robust_unlock`
  | .unWord =>
      some (m, { l with
        pc := if m.lock &&& LLL_WAITERS ≠ 0 then .unSetWake else .unCas m.lock })
  | .unSetWake => some ({ m with lock := 0, taker := none }, { l with pc := .unRet .ok })
  | .unCas val =>
      if m.lock = val then
        some ({ m with lock := 0, taker := none }, { l with pc := .unRet .ok })
      else some (m, { l with pc := .unWord })
  | .unRet r => some (m, ⟨.idle, if r = .eperm then l.depth + 1 else l.depth⟩)

/-- The next step of the thread `t`: an access, or the death of its process. -/
def exec (E : Env T) : Exec T Choice (Mem T) Local := fun t c m l =>
  if m.dead (E.pid t) then none
  else if c.dies then some ({ m with dead := Function.update m.dead (E.pid t) true }, l)
  else act E t c m l

/-- `pthread_mutex_init`: all fields are 0, and every process lives. -/
def IsInit (s : Global T (Mem T) Local) : Prop :=
  s.mem = ⟨0, 0, 0, fun _ => false, none⟩ ∧ ∀ t, s.loc t = ⟨.idle, 0⟩

/-- The threads that share one robust mutex. -/
def machine (E : Env T) : Machine (Global T (Mem T) Local) (T × Choice) :=
  (exec E).machine IsInit

end Hlpt.Robust
