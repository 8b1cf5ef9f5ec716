import Hlpt.LowLevelLock.Model

/-!
# `Hlpt.Mutex.Model`: the mutexes of `mutex.c` that know their owner

A mutex of type recursive or errorcheck that is not robust, and any number of threads
that run `pthread_mutex_lock`, `trylock`, `timedlock`, `unlock` and `transfer_np` on it.
Every access to one of its fields is one step of `exec`; the accesses to the lock word
are the steps of `Hlpt.LowLevelLock`.

The owner is recorded in two fields, the id of the thread and, for a process-shared
mutex, the id of its process. Thread ids are unique in a process only.

`owners` and `levels` are ghosts: the threads that own the mutex, from the acquisition of
the word to its release or to a transfer, and the acquisitions that no unlock has matched
yet. An unlock counts from the access on that makes it happen: the store of the counter,
and for errorcheck the first store to the owner.
-/

set_option autoImplicit false

namespace Hlpt.Mutex

open Hlpt.Lib

universe u

/-- The threads of several processes, with their ids. -/
structure Threads (T : Type u) where
  id : T → BitVec 32
  pid : T → BitVec 32
  id_ne : ∀ t, id t ≠ 0
  pid_ne : ∀ t, pid t ≠ 0
  inj : ∀ t u, pid t = pid u → id t = id u → t = u

/-- `PTHREAD_MUTEX_RECURSIVE` or `PTHREAD_MUTEX_ERRORCHECK` -/
inductive Kind where
  | recursive
  | errorcheck
  deriving DecidableEq, Repr

/-- The attributes of a mutex: its type, and whether `GSYNC_SHARED` is set. -/
structure Attr where
  kind : Kind
  shared : Bool
  deriving DecidableEq, Repr

/-- The three lock calls. -/
inductive LockCall where
  | lock
  | trylock
  | timedlock (tsp : Timespec)
  deriving DecidableEq, Repr

/-- The operations that test the owner first. -/
inductive Op (T : Type u) where
  | lock (k : LockCall)
  | unlock
  | transfer (th : T)
  deriving DecidableEq, Repr

/-- The calls of a thread. A handle that `INVALID_P` refuses is `none`. -/
inductive Call (T : Type u) where
  | lock (k : LockCall)
  | unlock
  | transfer (th : Option T)
  deriving DecidableEq, Repr

/-- The control points, each before one access. A value that the code keeps in a local
variable is an argument. -/
inductive Pc (T : Type u) where
  | idle
  /-- `(mtx)->__owner_id == (pt)->id` -/
  | testOwner (k : Op T)
  /-- `(mtx)->__shpid == getpid ()` of `mtx_owned_p` -/
  | testPid (k : Op T)
  /-- `mtxp->__cnt + 1 == 0` -/
  | cntTest
  /-- The load of `++mtxp->__cnt`. -/
  | incLoad
  /-- Its store. -/
  | incStore (cnt : BitVec 32)
  /-- Inside `lll_lock`, `lll_trylock` or `lll_abstimed_lock`. -/
  | lockWord (p : LowLevelLock.Pc)
  /-- `(mtx)->__owner_id = (pt)->id` after the word was acquired -/
  | setOwner
  /-- `(mtx)->__shpid = getpid ()` -/
  | setPid
  /-- `mtxp->__cnt = 1` -/
  | setCnt
  /-- The load of `--mtxp->__cnt`. -/
  | decLoad
  /-- Its store. -/
  | decStore (cnt : BitVec 32)
  /-- `mtxp->__shpid = 0` -/
  | clearPid
  /-- `mtxp->__owner_id = 0` -/
  | clearOwner
  /-- Inside `lll_unlock`. -/
  | unlockWord (p : LowLevelLock.Pc)
  /-- `(mtx)->__owner_id = (pt)->id` in `pthread_mutex_transfer_np` -/
  | giveOwner (th : T)
  /-- `(mtx)->__shpid = getpid ()` in `pthread_mutex_transfer_np` -/
  | givePid
  /-- The call returns the code. -/
  | ret (r : Code)
  deriving DecidableEq, Repr

/-- The fields of the mutex, and the ghosts. -/
structure Mem (T : Type u) where
  lock : LowLevelLock.Mem T
  ownerId : BitVec 32
  shpid : BitVec 32
  cnt : BitVec 32
  owners : Finset T
  levels : ℕ

/-- What the environment chooses in a step: the call of an idle thread, the reading of the
clock, the sleeper that a wake takes, and whether the kernel ends the sleep of the thread
itself. -/
structure Choice (T : Type u) where
  call : Call T := .lock .lock
  now : Timespec := default
  pick : Option T := none
  ends : Option WaitEnd := none

/-- The choice for an access to the lock word. -/
def Choice.word {T : Type u} (c : Choice T) : LowLevelLock.Choice T :=
  { now := c.now, pick := c.pick, ends := c.ends }

/-- The first access to the word of a lock call. -/
def LockCall.start : LockCall → LowLevelLock.Pc
  | lock => .lockTest none
  | trylock => .tryTest
  | timedlock tsp => .lockTest (some tsp)

/-- Where an operation goes when `mtx_owned_p` holds. -/
def Attr.owned {T : Type u} (K : Attr) : Op T → Pc T
  | .lock _ =>
      match K.kind with
      | .recursive => .cntTest
      | .errorcheck => .ret .edeadlk
  | .unlock =>
      match K.kind with
      | .recursive => .decLoad
      | .errorcheck => .clearPid
  | .transfer th => .giveOwner th

/-- Where an operation goes when `mtx_owned_p` does not hold. -/
def unowned {T : Type u} : Op T → Pc T
  | .lock k => .lockWord k.start
  | .unlock => .ret .eperm
  | .transfer _ => .ret .eperm

/-- Whether the operation tests the process as well. `pthread_mutex_timedlock` does not
for the type errorcheck: it compares `__owner_id` only. -/
def Attr.testsPid {T : Type u} (K : Attr) : Op T → Bool
  | .lock (.timedlock _) => K.shared && K.kind == .recursive
  | .lock .lock => K.shared
  | .lock .trylock => K.shared
  | .unlock => K.shared
  | .transfer _ => K.shared

/-- Where a lock call goes after the owner was recorded. -/
def Attr.counted {T : Type u} (K : Attr) : Pc T :=
  match K.kind with
  | .recursive => .setCnt
  | .errorcheck => .ret .ok

/-- Where a lock call goes after an access to the word. -/
def afterLock {T : Type u} : LowLevelLock.Pc → Pc T
  | .ret r => if r = .ok then .setOwner else .ret r
  | p => .lockWord p

/-- Where `pthread_mutex_unlock` goes after an access to the word. -/
def afterUnlock {T : Type u} : LowLevelLock.Pc → Pc T
  | .ret r => .ret r
  | p => .unlockWord p

variable {T : Type u} [DecidableEq T]

/-- The entry of a call. A handle of a thread is a pointer in its process. -/
def enter (I : Threads T) (t : T) : Call T → Option (Pc T)
  | .lock k => some (.testOwner (.lock k))
  | .unlock => some (.testOwner .unlock)
  | .transfer none => some (.ret .esrch)
  | .transfer (some u) =>
      if u = t then some (.ret .ok)
      else if I.pid u = I.pid t then some (.testOwner (.transfer u)) else none

/-- The memory after an access to the word that left the thread `t` with or without the
lock. -/
def Mem.onWord (m : Mem T) (t : T) (lock : LowLevelLock.Mem T) (holds : Bool) : Mem T :=
  { m with
    lock := lock
    owners := if holds then insert t m.owners else m.owners.erase t
    levels := if holds ∧ t ∉ m.owners then m.levels + 1 else m.levels }

/-- The next access of the thread `t`. -/
def exec (I : Threads T) (K : Attr) : Exec T (Choice T) (Mem T) (Pc T) := fun t c m pc =>
  match pc with
  | .idle => (enter I t c.call).map (m, ·)
  -- `mtx_owned_p`
  | .testOwner k =>
      some (m, if m.ownerId = I.id t then if K.testsPid k then .testPid k else K.owned k
        else unowned k)
  | .testPid k => some (m, if m.shpid = I.pid t then K.owned k else unowned k)
  -- The owner of a recursive mutex locks it again.
  | .cntTest => some (m, if m.cnt + 1 = 0 then .ret .eagain else .incLoad)
  | .incLoad => some (m, .incStore m.cnt)
  | .incStore cnt => some ({ m with cnt := cnt + 1, levels := m.levels + 1 }, .ret .ok)
  -- The low-level lock, and `mtx_set_owner` after it.
  | .lockWord p =>
      (LowLevelLock.exec t c.word m.lock ⟨p, decide (t ∈ m.owners)⟩).map fun r =>
        (m.onWord t r.1 r.2.holds, afterLock r.2.pc)
  | .setOwner =>
      some ({ m with ownerId := I.id t }, if K.shared then .setPid else K.counted)
  | .setPid => some ({ m with shpid := I.pid t }, K.counted)
  | .setCnt => some ({ m with cnt := 1 }, .ret .ok)
  -- `pthread_mutex_unlock`, which clears the owner before the word.
  | .decLoad => some (m, .decStore m.cnt)
  | .decStore cnt =>
      some ({ m with cnt := cnt - 1, levels := m.levels - 1 },
        if cnt - 1 = 0 then .clearPid else .ret .ok)
  | .clearPid =>
      some ({ m with
        shpid := 0
        levels := match K.kind with
          | .recursive => m.levels
          | .errorcheck => m.levels - 1 }, .clearOwner)
  | .clearOwner => some ({ m with ownerId := 0 }, .unlockWord .unlockSwap)
  | .unlockWord p =>
      (LowLevelLock.exec t c.word m.lock ⟨p, decide (t ∈ m.owners)⟩).map fun r =>
        (m.onWord t r.1 r.2.holds, afterUnlock r.2.pc)
  -- `pthread_mutex_transfer_np`
  | .giveOwner u =>
      some ({ m with ownerId := I.id u, owners := insert u (m.owners.erase t) },
        if K.shared then .givePid else .ret .ok)
  | .givePid => some ({ m with shpid := I.pid t }, .ret .ok)
  | .ret _ => some (m, .idle)

/-- `pthread_mutex_init`: all fields are 0, and no thread is inside a call. -/
def IsInit (s : Global T (Mem T) (Pc T)) : Prop :=
  s.mem = ⟨⟨0, ∅⟩, 0, 0, 0, ∅, 0⟩ ∧ ∀ t, s.loc t = .idle

/-- The threads that share one mutex with the attributes `K`. -/
def machine (I : Threads T) (K : Attr) : Machine (Global T (Mem T) (Pc T)) (T × Choice T) :=
  (exec I K).machine IsInit

end Hlpt.Mutex
