import Hlpt.Base
import Hlpt.Lib.Sleepers
import Hlpt.Lib.Threads

/-!
# `Hlpt.Rwlock.Model`: the read-write lock of `rwlock.c`

A process-private read-write lock, and any number of threads that run its seven
operations. Every atomic access and every `gsync` call is one step of `exec`.

The lock is three 32-bit words: `oid` (`rwl_oid`), `nrd` (`rwl_nrd`) and `nwr`
(`rwl_qwr`). The pair `oid`, `nrd` is also read and compared as one 64-bit word.
Readers sleep on the address of `oid`, writers on the 64-bit word that starts at
`nwr` and extends to `oid`; these are two separate kernel queues. The fourth word,
`rwl_spid`, is read for process-shared locks only and is left out.

`reads` and `writes` are ghosts: the read holds of a thread, and whether it has the
write hold. They also guard `pthread_rwlock_unlock`, which is called only while
holding.
-/

set_option autoImplicit false

namespace Hlpt.Rwlock

open Hlpt.Lib

universe u

/-- `RWLOCK_UNOWNED` -/
def RWLOCK_UNOWNED : BitVec 32 := 0

/-- `RWLOCK_RO`: the lock is owned by readers. -/
def RWLOCK_RO : BitVec 32 := 0x80000000

/-- The ids of the threads: distinct, and nonzero in the bits of the mask. -/
structure Ids (T : Type u) where
  id : T → BitVec 32
  inj : ∀ t u, id t = id u → t = u
  masked : ∀ t, id t &&& PTHREAD_ID_MASK ≠ 0

/-- The three read locks. -/
inductive RdCall where
  | rdlock
  | tryrdlock
  | timedrdlock (abstime : Timespec)
  deriving DecidableEq, Repr

/-- The two write locks that may sleep. -/
inductive WrCall where
  | wrlock
  | timedwrlock (abstime : Timespec)
  deriving DecidableEq, Repr

/-- The operations of a read-write lock. -/
inductive Call where
  | rd (k : RdCall)
  | wr (k : WrCall)
  | trywrlock
  | unlock
  deriving DecidableEq, Repr

/-- The control points, each before one access. A value that the code keeps in a local
variable is an argument. -/
inductive Pc where
  | idle
  /-- `rwl_owned_p` of the three read locks -/
  | rdOwned (k : RdCall)
  /-- `tmp = atomic_loadx (&rwp->__oid_nrd.qv)` -/
  | rdLoad (k : RdCall)
  /-- `catomic_casx_bool`, from `oid`, `nrd` to `RWLOCK_RO`, `nrd + 1` -/
  | rdCas (k : RdCall) (oid nrd : BitVec 32)
  /-- `lll_wake` of the queued readers after an unowned lock was grabbed -/
  | rdWake
  /-- `atomic_add (&rwl_nrd (...), +1)` -/
  | rdAdd (k : RdCall) (oid : BitVec 32)
  /-- `compute_reltime` of `lll_abstimed_wait` -/
  | rdClock (abstime : Timespec) (oid : BitVec 32)
  /-- `lll_wait` or the timed wait on `oid` -/
  | rdWait (k : RdCall) (oid : BitVec 32)
  /-- Inside `gsync_wait`, on the queue of the readers. -/
  | rdAsleep (k : RdCall)
  /-- `atomic_add (&rwl_nrd (...), -1)`; `out` if the wait gave `KERN_TIMEDOUT` -/
  | rdDec (k : RdCall) (out : Bool)
  /-- `rwl_owned_p` of `wrlock` and `timedwrlock` -/
  | wrOwned (k : WrCall)
  /-- `owner = atomic_load (&rwl_oid (...))` -/
  | wrLoad (k : WrCall)
  /-- `atomic_cas_bool (&rwl_oid (...), owner, self_id)` -/
  | wrCas (k : WrCall)
  /-- `nw = atomic_add (ptr, +1)` -/
  | wrAdd (k : WrCall) (owner : BitVec 32)
  /-- `compute_reltime` of `lll_abstimed_xwait` -/
  | wrClock (abstime : Timespec) (owner nw : BitVec 32)
  /-- `lll_xwait (ptr, nw + 1, owner, flags)` or the timed version -/
  | wrWait (k : WrCall) (owner nw : BitVec 32)
  /-- Inside `gsync_wait`, on the queue of the writers. -/
  | wrAsleep (k : WrCall)
  /-- `atomic_add (ptr, -1)`; `out` if the wait gave `KERN_TIMEDOUT` -/
  | wrDec (k : WrCall) (out : Bool)
  /-- `tmp = atomic_loadx (&rwp->__oid_nrd.qv)` of a timed-out writer -/
  | wrCheck (nw : BitVec 32)
  /-- `lll_wake` of the readers by a timed-out writer -/
  | wrWake
  /-- `owner = atomic_load (&rwl_oid (...))` in `trywrlock` -/
  | tryLoad
  /-- `rwl_owned_p` in `trywrlock` -/
  | tryOwned (owner : BitVec 32)
  /-- `atomic_cas_bool` in `trywrlock` -/
  | tryCas
  /-- `owner = atomic_load (&rwl_oid (...))` in `unlock` -/
  | unLoad
  /-- `rwl_owned_p` in `unlock` -/
  | unOwned
  /-- `atomic_store (&rwl_oid (...), RWLOCK_UNOWNED)` -/
  | unStore
  /-- `rwl_qwr (...) > 0` after a write hold was released -/
  | unTestWr
  /-- `rwl_nrd (...) > 0` after a write hold was released -/
  | unTestRd
  /-- `lll_wake (&rwl_oid (...), flags | GSYNC_BROADCAST)` -/
  | unWakeRd
  /-- `rwl_nrd (...) == 0` in `unlock` -/
  | unCount
  /-- `tmp.qv = atomic_loadx (...)` in `unlock` -/
  | unLoadx
  /-- `catomic_casx_bool` in `unlock` -/
  | unCas (oid nrd : BitVec 32)
  /-- `rwl_qwr (...) > 0` after the last read hold was released -/
  | unTestQwr
  /-- `lll_wake (&rwl_qwr (...), flags)` -/
  | unWakeWr
  /-- A lock operation returns the code. -/
  | ret (r : Code)
  /-- `pthread_rwlock_unlock` returns the code. -/
  | unRet (r : Code)
  deriving DecidableEq, Repr

/-- A thread: its control point, its read holds and its write hold. -/
structure Local where
  pc : Pc
  reads : ℕ
  writes : Bool
  deriving DecidableEq, Repr

/-- The words of the lock and its two queues. -/
structure Mem (T : Type u) where
  oid : BitVec 32
  nrd : BitVec 32
  nwr : BitVec 32
  rdSleepers : Finset T
  wrSleepers : Finset T

/-- What the environment chooses in a step: the operation an idle thread calls, the
reading of the clock, the sleeper that a wake takes, and whether the kernel ends
the sleep of the thread itself. -/
structure Choice (T : Type u) where
  call : Call := .unlock
  now : Timespec := default
  pick : Option T := none
  ends : Option WaitEnd := none

namespace RdCall

/-- Where a read lock goes when a writer holds the lock: `tryrdlock` gives up, and
`timedrdlock` first checks its deadline. -/
def blocked (oid : BitVec 32) : RdCall → Pc
  | rdlock => .rdAdd .rdlock oid
  | tryrdlock => .ret .ebusy
  | timedrdlock abstime =>
      if abstime.badNsec then .ret .einval else .rdAdd (.timedrdlock abstime) oid

/-- The wait of a queued reader: `timedrdlock` reads the clock first. -/
def wait (oid : BitVec 32) : RdCall → Pc
  | timedrdlock abstime => .rdClock abstime oid
  | k => .rdWait k oid

/-- Whether the wait has a timeout. -/
def timed : RdCall → Bool
  | timedrdlock _ => true
  | _ => false

end RdCall

namespace WrCall

/-- Where a write lock goes when the lock is owned: `timedwrlock` first checks its
deadline. -/
def blocked (owner : BitVec 32) : WrCall → Pc
  | wrlock => .wrAdd .wrlock owner
  | timedwrlock abstime =>
      if abstime.badNsec then .ret .einval else .wrAdd (.timedwrlock abstime) owner

/-- The wait of a queued writer: `timedwrlock` reads the clock first. -/
def wait (owner nw : BitVec 32) : WrCall → Pc
  | wrlock => .wrWait .wrlock owner nw
  | timedwrlock abstime => .wrClock abstime owner nw

/-- Whether the wait has a timeout. -/
def timed : WrCall → Bool
  | wrlock => false
  | timedwrlock _ => true

end WrCall

/-- The entry of an operation. -/
def enter (l : Local) : Call → Option Local
  | .rd k => some { l with pc := .rdOwned k }
  | .wr k => some { l with pc := .wrOwned k }
  | .trywrlock => some { l with pc := .tryLoad }
  | .unlock => if l.writes ∨ 0 < l.reads then some { l with pc := .unLoad } else none

variable {T : Type u} [DecidableEq T]

/-- The next access of the thread `t`. -/
def exec (I : Ids T) : Exec T (Choice T) (Mem T) Local := fun t c m l =>
  match l.pc with
  | .idle => (enter l c.call).map (m, ·)
  -- The three read locks.
  | .rdOwned k =>
      some (m, { l with pc := if m.oid = I.id t then .ret .edeadlk else .rdLoad k })
  | .rdLoad k =>
      some (m, { l with
        pc := if m.oid &&& PTHREAD_ID_MASK = 0 then .rdCas k m.oid m.nrd
          else k.blocked m.oid })
  | .rdCas k oid nrd =>
      if m.oid = oid ∧ m.nrd = nrd then
        some ({ m with oid := RWLOCK_RO, nrd := nrd + 1 },
          { l with
            pc := if oid = RWLOCK_UNOWNED ∧ nrd ≠ 0 then .rdWake else .ret .ok
            reads := l.reads + 1 })
      else some (m, { l with pc := .rdLoad k })
  | .rdWake => some ({ m with rdSleepers := ∅ }, { l with pc := .ret .ok })
  -- A writer holds the lock. The reader counts itself and sleeps on the owner word.
  | .rdAdd k oid => some ({ m with nrd := m.nrd + 1 }, { l with pc := k.wait oid })
  | .rdClock abstime oid =>
      some (m, { l with
        pc := if expired abstime c.now then .rdDec (.timedrdlock abstime) true
          else .rdWait (.timedrdlock abstime) oid })
  | .rdWait k oid =>
      if m.oid = oid then
        some ({ m with rdSleepers := insert t m.rdSleepers }, { l with pc := .rdAsleep k })
      else some (m, { l with pc := .rdDec k false })
  | .rdAsleep k =>
      (wakeUp (t ∈ m.rdSleepers) k.timed c.ends).map fun out =>
        ({ m with rdSleepers := m.rdSleepers.erase t }, { l with pc := .rdDec k out })
  | .rdDec k out =>
      some ({ m with nrd := m.nrd - 1 },
        { l with pc := if out then .ret .etimedout else .rdLoad k })
  -- `pthread_rwlock_wrlock` and `pthread_rwlock_timedwrlock`
  | .wrOwned k =>
      some (m, { l with pc := if m.oid = I.id t then .ret .edeadlk else .wrLoad k })
  | .wrLoad k =>
      some (m, { l with
        pc := if m.oid = RWLOCK_UNOWNED then .wrCas k else k.blocked m.oid })
  | .wrCas k =>
      if m.oid = RWLOCK_UNOWNED then
        some ({ m with oid := I.id t }, { l with pc := .ret .ok, writes := true })
      else some (m, { l with pc := .wrLoad k })
  -- A queued writer sleeps on the count of the writers and the owner word at once.
  | .wrAdd k owner =>
      some ({ m with nwr := m.nwr + 1 }, { l with pc := k.wait owner m.nwr })
  | .wrClock abstime owner nw =>
      some (m, { l with
        pc := if expired abstime c.now then .wrDec (.timedwrlock abstime) true
          else .wrWait (.timedwrlock abstime) owner nw })
  | .wrWait k owner nw =>
      if m.nwr = nw + 1 ∧ m.oid = owner then
        some ({ m with wrSleepers := insert t m.wrSleepers }, { l with pc := .wrAsleep k })
      else some (m, { l with pc := .wrDec k false })
  | .wrAsleep k =>
      (wakeUp (t ∈ m.wrSleepers) k.timed c.ends).map fun out =>
        ({ m with wrSleepers := m.wrSleepers.erase t }, { l with pc := .wrDec k out })
  | .wrDec k out =>
      some ({ m with nwr := m.nwr - 1 },
        { l with pc := if out then .wrCheck m.nwr else .wrLoad k })
  -- A writer that gives up as the last one wakes the readers of an unowned lock.
  | .wrCheck nw =>
      some (m, { l with
        pc := if nw = 1 ∧ m.nrd ≠ 0 ∧ m.oid = RWLOCK_UNOWNED then .wrWake
          else .ret .etimedout })
  | .wrWake => some ({ m with rdSleepers := ∅ }, { l with pc := .ret .etimedout })
  -- `pthread_rwlock_trywrlock`
  | .tryLoad => some (m, { l with pc := .tryOwned m.oid })
  | .tryOwned owner =>
      some (m, { l with
        pc := if m.oid = I.id t then .ret .edeadlk
          else if owner = RWLOCK_UNOWNED then .tryCas else .ret .ebusy })
  | .tryCas =>
      if m.oid = RWLOCK_UNOWNED then
        some ({ m with oid := I.id t }, { l with pc := .ret .ok, writes := true })
      else some (m, { l with pc := .ret .ebusy })
  -- `pthread_rwlock_unlock`, up to the test of whose hold it is.
  | .unLoad =>
      some (m, { l with
        pc := if m.oid &&& PTHREAD_ID_MASK ≠ 0 then .unOwned else .unCount })
  | .unOwned =>
      some (m, { l with pc := if m.oid = I.id t then .unStore else .unRet .eperm })
  -- The writer leaves, and prefers to wake another writer.
  | .unStore =>
      some ({ m with oid := RWLOCK_UNOWNED }, { l with pc := .unTestWr, writes := false })
  | .unTestWr => some (m, { l with pc := if m.nwr ≠ 0 then .unWakeWr else .unTestRd })
  | .unTestRd => some (m, { l with pc := if m.nrd ≠ 0 then .unWakeRd else .unRet .ok })
  | .unWakeRd => some ({ m with rdSleepers := ∅ }, { l with pc := .unRet .ok })
  -- A reader leaves, and the last one takes `RWLOCK_RO` away with its count.
  | .unCount => some (m, { l with pc := if m.nrd = 0 then .unRet .eperm else .unLoadx })
  | .unLoadx => some (m, { l with pc := .unCas m.oid m.nrd })
  | .unCas oid nrd =>
      if m.oid = oid ∧ m.nrd = nrd then
        some ({ m with oid := if nrd = 1 then RWLOCK_UNOWNED else oid, nrd := nrd - 1 },
          { l with
            pc := if nrd = 1 then .unTestQwr else .unRet .ok
            reads := l.reads - 1 })
      else some (m, { l with pc := .unLoadx })
  | .unTestQwr => some (m, { l with pc := if m.nwr ≠ 0 then .unWakeWr else .unRet .ok })
  | .unWakeWr =>
      (wakeOne m.wrSleepers c.pick).map fun q =>
        ({ m with wrSleepers := q }, { l with pc := .unRet .ok })
  | .ret _ => some (m, { l with pc := .idle })
  | .unRet _ => some (m, { l with pc := .idle })

/-- `pthread_rwlock_init`: all words are 0, and no thread is inside a call. -/
def IsInit (s : Global T (Mem T) Local) : Prop :=
  s.mem = ⟨0, 0, 0, ∅, ∅⟩ ∧ ∀ t, s.loc t = ⟨.idle, 0, false⟩

/-- The threads that share one read-write lock. -/
def machine (I : Ids T) : Machine (Global T (Mem T) Local) (T × Choice T) :=
  (exec I).machine IsInit

end Hlpt.Rwlock
