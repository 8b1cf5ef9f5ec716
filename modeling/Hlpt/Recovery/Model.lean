import Hlpt.Robust.Model

/-!
# `Hlpt.Recovery.Model`: the recovery of a robust mutex

`Hlpt.Robust` has the lock and unlock functions of a robust mutex. Here a thread that
holds it may also call `pthread_mutex_transfer_np` and `pthread_mutex_consistent`. Every
access of the two is one step, and the other steps are those of `Hlpt.Robust`.

`holds` is the depth of `Hlpt.Robust`, kept beside the mutex because a transfer moves it
from one thread to another.

The other ghosts follow what a robust mutex has to remember. `lost` is set when a process
dies whose thread has the lock word, and cleared when `pthread_mutex_consistent` returns 0.
`wrecked` is set when an unlock releases the word while `lost` is set. A thread keeps which
lock call it made last, and whether `wrecked` was set when that call began.
-/

set_option autoImplicit false

namespace Hlpt.Recovery

open Hlpt.Lib Hlpt.Robust

universe u

/-- The calls of a holder beside `pthread_mutex_unlock`. A handle that `INVALID_P` refuses
is `none`. -/
inductive HolderCall (T : Type u) where
  | transfer (th : Option T)
  | consistent
  deriving DecidableEq, Repr

/-- The control points, each before one access. -/
inductive Pc (T : Type u) where
  /-- Outside of the two functions. -/
  | lib (p : Robust.Pc)
  /-- `mtxp->__owner_id != self->id` in `pthread_mutex_transfer_np` -/
  | giveTestOwner (th : T)
  /-- `(int)(mtxp->__lock & LLL_OWNER_MASK) != getpid ()` -/
  | giveTestPid (th : T)
  /-- `mtxp->__owner_id = pt->id` -/
  | giveOwner (th : T)
  /-- `pthread_mutex_transfer_np` returns the code. -/
  | giveRet (r : Code)
  /-- `val = mtxp->__lock` in `pthread_mutex_consistent`, and the test of `val` -/
  | conLoad
  /-- `atomic_cas_bool (&mtxp->__lock, val, getpid () | LLL_WAITERS)` -/
  | conCas (val : BitVec 32)
  /-- `mtxp->__owner_id = PTHREAD_SELF->id` -/
  | conOwner
  /-- `mtxp->__cnt = 1` -/
  | conCnt
  /-- `pthread_mutex_consistent` returns the code. -/
  | conRet (r : Code)
  deriving DecidableEq, Repr

/-- A thread: its control point, its last lock call, and whether that call began on a
wrecked mutex. -/
structure Local (T : Type u) where
  pc : Pc T
  call : LockCall
  late : Bool
  deriving DecidableEq, Repr

/-- The mutex, and the ghosts. -/
structure Mem (T : Type u) where
  mutex : Robust.Mem T
  holds : T → ℕ
  lost : Bool
  wrecked : Bool

/-- What the environment chooses in a step. An idle thread makes the holder's call, if
there is one, and the call of `Hlpt.Robust` otherwise. -/
structure Choice (T : Type u) where
  lib : Robust.Choice := {}
  holderCall : Option (HolderCall T) := none

/-- The lock call that begins at a control point. -/
def begins : Robust.Pc → Option LockCall
  | .checkUnrecoverable k => some k
  | _ => none

variable {T : Type u} [DecidableEq T]

/-- The entry of a holder's call. A handle of a thread is a pointer in its process. -/
def HolderCall.start (E : Env T) (t : T) : HolderCall T → Option (Pc T)
  | .consistent => some .conLoad
  | .transfer none => some (.giveRet .esrch)
  | .transfer (some u) =>
      if u = t then some (.giveRet .ok)
      else if E.pid u = E.pid t then some (.giveTestOwner u) else none

omit [DecidableEq T] in
/-- The thread after a step of `Hlpt.Robust`. -/
def Local.after (l : Local T) (wrecked : Bool) (p : Robust.Pc) : Local T :=
  match begins p with
  | some k => ⟨.lib p, k, wrecked⟩
  | none => { l with pc := .lib p }

/-- The memory after a step of `Hlpt.Robust`. Only an unlock stores 0 in the word. -/
def Mem.after (m : Mem T) (t : T) (mutex : Robust.Mem T) (depth : ℕ) : Mem T where
  mutex := mutex
  holds := Function.update m.holds t depth
  lost := m.lost
  wrecked := m.wrecked || (m.lost && decide (m.mutex.lock ≠ 0 ∧ mutex.lock = 0))

/-- The memory after the process of the thread `t` died. -/
def Mem.afterDeath (m : Mem T) (E : Env T) (t : T) : Mem T :=
  { m with
    mutex := { m.mutex with dead := Function.update m.mutex.dead (E.pid t) true }
    lost := m.lost || m.mutex.taker.any fun u => E.pid u == E.pid t }

/-- The store that passes the mutex on to another thread. -/
def Mem.give (m : Mem T) (E : Env T) (t u : T) : Mem T :=
  { m with
    mutex := { m.mutex with ownerId := E.id u, taker := some u }
    holds := Function.update (Function.update m.holds t 0) u (m.holds t) }

/-- The next access of the thread `t`, when its process goes on. -/
def act (E : Env T) (t : T) (c : Choice T) (m : Mem T) (l : Local T) :
    Option (Mem T × Local T) :=
  match l.pc with
  | .lib p =>
      match c.holderCall with
      | none =>
          (Robust.act E t c.lib m.mutex ⟨p, m.holds t⟩).map fun r =>
            (m.after t r.1 r.2.depth, l.after m.wrecked r.2.pc)
      | some k =>
          if p = .idle ∧ 0 < m.holds t then
            (k.start E t).map fun p => (m, { l with pc := p })
          else none
  | .giveTestOwner u =>
      some (m, { l with
        pc := if m.mutex.ownerId ≠ E.id t then .giveRet .eperm else .giveTestPid u })
  | .giveTestPid u =>
      some (m, { l with
        pc := if m.mutex.lock &&& LLL_OWNER_MASK ≠ E.pid t then .giveRet .eperm
          else .giveOwner u })
  | .giveOwner u => some (m.give E t u, { l with pc := .giveRet .ok })
  | .giveRet _ => some (m, { l with pc := .lib .idle })
  | .conLoad =>
      some (m, { l with
        pc := if m.mutex.lock &&& LLL_DEAD_OWNER ≠ 0 then .conCas m.mutex.lock
          else .conRet .einval })
  | .conCas val =>
      if m.mutex.lock = val then
        some ({ m with mutex := { m.mutex with lock := E.pid t ||| LLL_WAITERS } },
          { l with pc := .conOwner })
      else some (m, { l with pc := .conRet .einval })
  | .conOwner =>
      some ({ m with mutex := { m.mutex with ownerId := E.id t } }, { l with pc := .conCnt })
  | .conCnt => some ({ m with mutex := { m.mutex with cnt := 1 } }, { l with pc := .conRet .ok })
  | .conRet r =>
      some ({ m with lost := if r = .ok then false else m.lost }, { l with pc := .lib .idle })

/-- The next step of the thread `t`: an access, or the death of its process. -/
def exec (E : Env T) : Exec T (Choice T) (Mem T) (Local T) := fun t c m l =>
  if m.mutex.dead (E.pid t) then none
  else if c.lib.dies then some (m.afterDeath E t, l)
  else act E t c m l

/-- `pthread_mutex_init`: all fields are 0, and every process lives. -/
def IsInit (s : Global T (Mem T) (Local T)) : Prop :=
  s.mem = ⟨⟨0, 0, 0, fun _ => false, none⟩, fun _ => 0, false, false⟩ ∧
    ∀ t, s.loc t = ⟨.lib .idle, .lock, false⟩

/-- The threads that share one robust mutex. -/
def machine (E : Env T) : Machine (Global T (Mem T) (Local T)) (T × Choice T) :=
  (exec E).machine IsInit

end Hlpt.Recovery
