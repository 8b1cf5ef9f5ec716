import Hlpt.Base
import Hlpt.Flags
import Hlpt.Lib.Threads

/-!
# `Hlpt.Cancel.Model`: cancellation, from `cancel.c`

One thread, the target, calls `pthread_setcancelstate`, `pthread_setcanceltype`,
`pthread_testcancel` and `pthread_exit`, and runs cancellation points. Any number of
threads call `pthread_cancel` on it, the target among them. Every access to the target's
flags and every kernel call is one step of `exec`.

`thread_suspend` may stop the target before any of its steps. What `in_cancelpoint_p`
finds in the stopped target depends on where inside the trap it stands, which the model
does not have, so its answer is a choice. A kernel call may fail. A target whose PC was
set to `exit_thread` goes there in its next step.

`acknowledged` is a ghost: some `pthread_cancel` returned 0.
-/

set_option autoImplicit false

namespace Hlpt.Cancel

open Hlpt.Lib

universe u

def PTHREAD_CANCEL_DISABLE : BitVec 32 := 0
def PTHREAD_CANCEL_ENABLE : BitVec 32 := 1
def PTHREAD_CANCEL_DEFERRED : BitVec 32 := 2
def PTHREAD_CANCEL_ASYNCHRONOUS : BitVec 32 := 3

/-- The two functions that change the mode of a thread. -/
inductive Setter where
  | setcancelstate
  | setcanceltype
  deriving DecidableEq, Repr

namespace Setter

/-- The flag that the function sets or clears. -/
def flag : Setter → BitVec 32
  | setcancelstate => PT_FLG_CANCEL_DISABLE
  | setcanceltype => PT_FLG_CANCEL_ASYNC

/-- The argument that sets the flag. -/
def on : Setter → BitVec 32
  | setcancelstate => PTHREAD_CANCEL_DISABLE
  | setcanceltype => PTHREAD_CANCEL_ASYNCHRONOUS

/-- The argument that clears the flag. -/
def off : Setter → BitVec 32
  | setcancelstate => PTHREAD_CANCEL_ENABLE
  | setcanceltype => PTHREAD_CANCEL_DEFERRED

/-- `newval`, for a valid argument. -/
def newval (f : Setter) (arg oldval : BitVec 32) : BitVec 32 :=
  if arg = f.on then oldval ||| f.flag else oldval &&& ~~~f.flag

/-- `*prevp` -/
def prev (f : Setter) (oldval : BitVec 32) : BitVec 32 :=
  if oldval &&& f.flag ≠ 0 then f.on else f.off

end Setter

/-- The functions that a thread may call. -/
inductive Call where
  | set (f : Setter) (arg : BitVec 32)
  | testcancel
  | cancelpoint
  | exit
  | cancel
  deriving DecidableEq, Repr

/-- The control points, each before one access. The ones from `cancelInvalid` on are
inside `pthread_cancel`. -/
inductive Pc where
  | idle
  /-- `oldval = self->flags` in a setter -/
  | setLoad (f : Setter) (arg : BitVec 32)
  /-- `atomic_cas_bool (&self->flags, oldval, newval)` in a setter -/
  | setCas (f : Setter) (arg oldval : BitVec 32)
  /-- A setter returns the code. -/
  | setRet (r : Code)
  /-- `CANCELLED_ENABLED_P (PTHREAD_SELF->flags)` -/
  | test
  /-- `oldval & (PT_FLG_CANCEL_ASYNC | PT_FLG_CANCEL_DISABLE)` -/
  | beginTest
  /-- `oldval = self->flags` in `__pthread_cancelpoint_begin` -/
  | beginLoad
  /-- `atomic_cas_bool` in `__pthread_cancelpoint_begin` -/
  | beginCas (oldval : BitVec 32)
  /-- The blocking call between the two functions. -/
  | blocked (prev : Bool)
  /-- `__pthread_cancelpoint_end (prev)` -/
  | finish (prev : Bool)
  /-- `atomic_or (&PTHREAD_SELF->flags, PT_FLG_CANCELLED)` in `exit_thread` -/
  | exitThread
  /-- `atomic_or (&self->flags, PT_FLG_EXITING)` in `pthread_exit` -/
  | exit
  /-- The unwinding and `__pthread_cleanup`. -/
  | exiting
  | dead
  /-- `INVALID_P (pt)` -/
  | cancelInvalid
  /-- `oldval = pt->flags` -/
  | cancelLoad
  /-- The compare-and-swap of `pt->flags`. -/
  | cancelCas (oldval : BitVec 32)
  /-- `thread_suspend (ktid)` -/
  | suspend (oldval : BitVec 32)
  /-- `thread_abort (ktid)` -/
  | abort (oldval : BitVec 32)
  /-- `machine_state_get (ktid, &state)`; `err` is `ret != 0`. -/
  | getState (oldval : BitVec 32) (err : Bool)
  /-- `(oldval & PT_FLG_CANCEL_TRANS) == 0 || in_cancelpoint_p (&state, pt)` -/
  | inspect (oldval : BitVec 32) (err : Bool)
  /-- `machine_state_set (ktid, &state)` -/
  | setState (err : Bool)
  /-- `thread_resume (ktid)` -/
  | resume (err : Bool)
  /-- `atomic_store (&__pthread_mtflag, 1)` -/
  | storeMtflag
  /-- `pthread_cancel` returns the code. -/
  | cancelRet (r : Code)
  deriving DecidableEq, Repr

/-- A thread: its control point and what a setter stored at `prevp`. -/
structure Local where
  pc : Pc
  prev : BitVec 32
  deriving DecidableEq, Repr

/-- The target's flags and id, the count of its suspensions, whether its PC was set to
`exit_thread`, `__pthread_mtflag`, and the ghost. -/
structure Mem where
  flags : BitVec 32
  id : BitVec 32
  suspended : ℕ
  redirected : Bool
  mtflag : Bool
  acknowledged : Bool
  deriving DecidableEq, Repr

/-- What the environment chooses in a step: the call of an idle thread, whether a kernel
call fails, and the answer of `in_cancelpoint_p`. -/
structure Choice where
  call : Call := .cancel
  fails : Bool := false
  inPoint : Bool := false

variable {T : Type u} [DecidableEq T]

/-- The entry of a function. Only the target calls the ones that are about itself. -/
def enter (self : Bool) : Call → Option Pc
  | .cancel => some .cancelInvalid
  | .set f arg =>
      if self then some (if arg = f.on ∨ arg = f.off then .setLoad f arg else .setRet .einval)
      else none
  | .testcancel => if self then some .test else none
  | .cancelpoint => if self then some .beginTest else none
  | .exit => if self then some .exit else none

/-- The next access of a thread that runs; `self` says that it is the target. -/
def act (self : Bool) (c : Choice) (m : Mem) (l : Local) : Option (Mem × Local) :=
  match l.pc with
  | .idle => (enter self c.call).map fun pc => (m, { l with pc := pc })
  -- `pthread_setcancelstate` and `pthread_setcanceltype`
  | .setLoad f arg =>
      some (m, ⟨if m.flags = f.newval arg m.flags then .setRet .ok else .setCas f arg m.flags,
        f.prev m.flags⟩)
  | .setCas f arg oldval =>
      if m.flags = oldval then
        some ({ m with flags := f.newval arg oldval },
          { l with
            pc := if CANCELLED_ENABLED_ASYNC_P (f.newval arg oldval) then .exit
              else .setRet .ok })
      else some (m, { l with pc := .setLoad f arg })
  | .setRet _ => some (m, { l with pc := .idle })
  -- `pthread_testcancel`
  | .test =>
      some (m, { l with pc := if CANCELLED_ENABLED_P m.flags then .exit else .idle })
  -- A cancellation point: its begin, the blocking call and its end.
  | .beginTest =>
      some (m, { l with
        pc := if m.flags &&& (PT_FLG_CANCEL_ASYNC ||| PT_FLG_CANCEL_DISABLE) ≠ 0
          then .blocked false else .beginLoad })
  | .beginLoad =>
      some (m, { l with
        pc := if m.flags = m.flags ||| PT_FLG_CANCEL_ASYNC ||| PT_FLG_CANCEL_TRANS
          then .blocked true else .beginCas m.flags })
  | .beginCas oldval =>
      if m.flags = oldval then
        some ({ m with flags := oldval ||| PT_FLG_CANCEL_ASYNC ||| PT_FLG_CANCEL_TRANS },
          { l with
            pc := if CANCELLED_ENABLED_ASYNC_P
                (oldval ||| PT_FLG_CANCEL_ASYNC ||| PT_FLG_CANCEL_TRANS) then .exit
              else .blocked true })
      else some (m, { l with pc := .beginLoad })
  | .blocked prev => some (m, { l with pc := .finish prev })
  | .finish prev =>
      if prev then
        some ({ m with flags := m.flags &&& ~~~(PT_FLG_CANCEL_ASYNC ||| PT_FLG_CANCEL_TRANS) },
          { l with pc := .idle })
      else some (m, { l with pc := .idle })
  -- `exit_thread` and `pthread_exit`
  | .exitThread => some ({ m with flags := m.flags ||| PT_FLG_CANCELLED }, { l with pc := .exit })
  | .exit => some ({ m with flags := m.flags ||| PT_FLG_EXITING }, { l with pc := .exiting })
  | .exiting => some ({ m with id := 0 }, { l with pc := .dead })
  | .dead => none
  -- `pthread_cancel`, up to the swap of the flags.
  | .cancelInvalid =>
      some (m, { l with pc := if m.id = 0 then .cancelRet .esrch else .cancelLoad })
  | .cancelLoad =>
      some (m, { l with
        pc := if m.flags = m.flags ||| PT_FLG_CANCELLING ||| PT_FLG_CANCELLED
          then .storeMtflag else .cancelCas m.flags })
  | .cancelCas oldval =>
      if m.flags = oldval then
        if CANCELLED_ENABLED_ASYNC_P (oldval ||| PT_FLG_CANCELLING ||| PT_FLG_CANCELLED) then
          some ({ m with flags := oldval ||| PT_FLG_CANCELLING },
            { l with pc := if self then .exit else .suspend oldval })
        else
          some ({ m with flags := oldval ||| PT_FLG_CANCELLING ||| PT_FLG_CANCELLED },
            { l with pc := .storeMtflag })
      else some (m, { l with pc := .cancelLoad })
  -- A target that accepts the request at once is stopped and redirected.
  | .suspend oldval =>
      if c.fails then some (m, { l with pc := .cancelRet .esrch })
      else some ({ m with suspended := m.suspended + 1 }, { l with pc := .abort oldval })
  | .abort oldval => some (m, { l with pc := .getState oldval c.fails })
  | .getState oldval err => some (m, { l with pc := .inspect oldval (err || c.fails) })
  | .inspect oldval err =>
      some (m, { l with
        pc := if oldval &&& PT_FLG_CANCEL_TRANS = 0 ∨ c.inPoint then .setState err
          else .resume err })
  | .setState err =>
      if c.fails then some (m, { l with pc := .resume true })
      else some ({ m with redirected := true }, { l with pc := .resume err })
  | .resume err =>
      if c.fails then some (m, { l with pc := .cancelRet .esrch })
      else
        some ({ m with suspended := m.suspended - 1 },
          { l with pc := if err then .cancelRet .esrch else .storeMtflag })
  | .storeMtflag => some ({ m with mtflag := true }, { l with pc := .cancelRet .ok })
  | .cancelRet r =>
      some ({ m with acknowledged := m.acknowledged || r = .ok }, { l with pc := .idle })

/-- The next step of the thread `t`, for the target `th`. A suspended target does not
move, and a redirected one goes to `exit_thread`. -/
def exec (th : T) : Exec T Choice Mem Local := fun t c m l =>
  if t = th ∧ m.suspended ≠ 0 then none
  else if t = th ∧ m.redirected ∧ l.pc ≠ .dead then
    some ({ m with redirected := false }, { l with pc := .exitThread })
  else act (t = th) c m l

/-- A live target with any flags that do not cancel it already, and no call yet. -/
def IsInit (s : Global T Mem Local) : Prop :=
  (∃ flags id, CANCELLED_ENABLED_ASYNC_P flags = false ∧ id ≠ 0 ∧
    s.mem = ⟨flags, id, 0, false, false, false⟩) ∧
  ∀ t, s.loc t = ⟨.idle, 0⟩

/-- The target and the threads that cancel it. -/
def machine (th : T) : Machine (Global T Mem Local) (T × Choice) :=
  (exec th).machine IsInit

end Hlpt.Cancel
