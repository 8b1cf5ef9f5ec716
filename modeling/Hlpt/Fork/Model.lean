import Hlpt.Mutex.Model
import Hlpt.Rwlock.Model

/-!
# `Hlpt.Fork.Model`: the locks of a process across a fork

A process with any number of threads and any number of locks: mutexes of type recursive and
errorcheck and read-write locks, all of them private to the process. The steps on a lock are
those of `Hlpt.Mutex` and `Hlpt.Rwlock`.

A fork copies the memory. The child has one thread, the copy of the one that called `fork`,
and `pt_atfork_child` sets its id to 1. The copies of the locks are as they were, and nobody
sleeps on them. What the thread is to a lock is told by the first steps of its next call.
-/

set_option autoImplicit false

namespace Hlpt.Fork

open Hlpt.Lib

universe u v

/-- The threads of a process, with their ids, and its own id. -/
structure Process (T : Type u) where
  id : T → BitVec 32
  pid : BitVec 32
  inj : ∀ t u, id t = id u → t = u
  masked : ∀ t, id t &&& PTHREAD_ID_MASK ≠ 0
  pid_ne : pid ≠ 0

namespace Process

variable {T : Type u} (P : Process T)

/-- The threads as a mutex tells them apart. -/
def threads : Mutex.Threads T where
  id := P.id
  pid _ := P.pid
  id_ne t h := P.masked t (by rw [h]; decide)
  pid_ne _ := P.pid_ne
  inj t u _ h := P.inj t u h

/-- The threads as a read-write lock tells them apart. -/
def ids : Rwlock.Ids T := ⟨P.id, P.inj, P.masked⟩

end Process

/-- `self->id = __pthread_id_counter = 1` in `pt_atfork_child`: the one thread of a child. -/
def child (pid : BitVec 32) (h : pid ≠ 0) : Process Unit where
  id _ := 1
  pid := pid
  inj _ _ _ := rfl
  masked _ := by decide
  pid_ne := h

/-- A lock, and where the threads are in the calls on it. -/
inductive Lock (T : Type u) where
  | mutex (k : Mutex.Kind) (s : Global T (Mutex.Mem T) (Mutex.Pc T))
  | rwlock (s : Global T (Rwlock.Mem T) Rwlock.Local)

/-- What the environment chooses in a step on a lock. -/
inductive Choice (T : Type u) where
  | mutex (c : Mutex.Choice T)
  | rwlock (c : Rwlock.Choice T)

namespace Lock

variable {T : Type u}

/-- The attributes of a private mutex. -/
def attr (k : Mutex.Kind) : Mutex.Attr := ⟨k, false⟩

/-- The id that the lock stores: `__owner_id` or OID. -/
def storedId : Lock T → BitVec 32
  | mutex _ s => s.mem.ownerId
  | rwlock s => s.mem.oid

/-- The thread owns the lock: it has acquired the mutex and not released it, or the lock is
write-locked by it. -/
def Owns (P : Process T) (f : T) : Lock T → Prop
  | mutex _ s => f ∈ s.mem.owners
  | rwlock s => s.mem.oid = P.id f

/-- The thread is in no call on the lock. -/
def Idle (f : T) : Lock T → Prop
  | mutex _ s => s.loc f = .idle
  | rwlock s => (s.loc f).pc = .idle

/-- A lock before its first use. -/
def IsInit : Lock T → Prop
  | mutex _ s => Mutex.IsInit s
  | rwlock s => Rwlock.IsInit s

variable [DecidableEq T]

/-- One step of a thread in a call on the lock. -/
def step (P : Process T) (t : T) : Choice T → Lock T → Option (Lock T)
  | .mutex c, mutex k s =>
      ((Mutex.machine P.threads (attr k)).step s (t, c)).map (mutex k)
  | .rwlock c, rwlock s => ((Rwlock.machine P.ids).step s (t, c)).map rwlock
  | _, _ => none

/-- The copy of a mutex in the child of the thread `f`. -/
def copyMutex (f : T) (m : Mutex.Mem T) : Mutex.Mem Unit :=
  ⟨⟨m.lock.word, ∅⟩, m.ownerId, m.shpid, m.cnt, if f ∈ m.owners then {()} else ∅, m.levels⟩

omit [DecidableEq T] in
/-- The copy of a read-write lock. -/
def copyRwlock (m : Rwlock.Mem T) : Rwlock.Mem Unit := ⟨m.oid, m.nrd, m.nwr, ∅, ∅⟩

/-- The copy of the lock, with the one thread in no call. -/
def fork (f : T) : Lock T → Lock Unit
  | mutex k s => mutex k ⟨copyMutex f s.mem, fun _ => .idle⟩
  | rwlock s => rwlock ⟨copyRwlock s.mem, fun _ => { s.loc f with pc := .idle }⟩

end Lock

/-- The steps of the threads on the locks. -/
def machine {T : Type u} {L : Type v} [DecidableEq T] [DecidableEq L] (P : Process T) :
    Machine (L → Lock T) (L × T × Choice T) where
  init s := ∀ i, (s i).IsInit
  step s a := ((s a.1).step P a.2.1 a.2.2).map (Function.update s a.1)

/-! ### What a thread is to a lock -/

namespace Lock

/-- An unlock by the thread finds it to be the owner: its first two steps lead to the
release, and not to `EPERM` or to the release of a read hold. -/
def UnlockSees (P : Process Unit) : Lock Unit → Prop
  | mutex k s =>
      (Mutex.exec P.threads (attr k)).alone () [{ call := .unlock }, {}] (s.mem, .idle) =
        some (s.mem, (attr k).owned .unlock)
  | rwlock s =>
      (Rwlock.exec P.ids).alone () [{}, {}] (s.mem, { s.loc () with pc := .unLoad }) =
        some (s.mem, { s.loc () with pc := .unStore })

/-- The calls that lock again and may wait. -/
def RelockCall : Lock Unit → Type
  | mutex .. => Mutex.LockCall
  | rwlock _ => Rwlock.WrCall

/-- Locking again with the call finds it to be the owner: a lock call of a mutex goes on to the
counter or to `EDEADLK` and not to the word, and a write lock gives `EDEADLK`. -/
def RelockSees (P : Process Unit) : (x : Lock Unit) → x.RelockCall → Prop
  | mutex k s, call =>
      (Mutex.exec P.threads (attr k)).alone () [{ call := .lock call }, {}] (s.mem, .idle) =
        some (s.mem, (attr k).owned (.lock call))
  | rwlock s, call =>
      (Rwlock.exec P.ids).alone () [{ call := .wr call }, {}] (s.mem, s.loc ()) =
        some (s.mem, { s.loc () with pc := .ret .edeadlk })

/-- In the child the survivor is taken for the owner of the lock by each of its calls if the
thread that forked was the owner, and by none of them otherwise. -/
def Survives {T : Type u} [DecidableEq T] (P : Process T) (P' : Process Unit) (f : T)
    (x : Lock T) : Prop :=
  (x.Owns P f → (x.fork f).UnlockSees P' ∧ ∀ call, (x.fork f).RelockSees P' call) ∧
    (¬ x.Owns P f → ¬ (x.fork f).UnlockSees P' ∧ ∀ call, ¬ (x.fork f).RelockSees P' call)

end Lock

end Hlpt.Fork
