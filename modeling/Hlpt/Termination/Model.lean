import Hlpt.Base
import Hlpt.Flags
import Hlpt.Lib.Sleepers
import Hlpt.Lib.Threads

/-!
# `Hlpt.Termination.Model`: the end of a thread, and the calls that wait for it

One thread with a library-allocated stack, the target, runs `thread_entry`, its start
routine and `__pthread_cleanup`. Any number of other threads call `pthread_join`,
`pthread_timedjoin_np`, `pthread_tryjoin_np` and `pthread_detach` on it. Every access to
the target's descriptor is one step of `exec`, and so is each of the two things that the
kernel does in `thread_terminate_release2`.

The descriptor lies on the target's stack. `releases` lists the ranges that were given to
`vm_deallocate`; after a release the model goes on with the old contents.

The target is not the last thread of its process, since the others are still running. A
call of the target on itself fails at `pt == self` and is left out. A caller may be
cancelled inside its cancellation point, and nowhere else.
-/

set_option autoImplicit false

namespace Hlpt.Termination

open Hlpt.Lib

universe u

/-- `PTHREAD_INVALID_ID`: the id of a thread before `thread_entry`. -/
def PTHREAD_INVALID_ID : BitVec 32 := ~~~0

/-- The target: which thread it is, the id that `thread_entry` gives to it, and its
stack. -/
structure Target (T : Type u) where
  th : T
  id : BitVec 32
  stack : BitVec 32
  stacksize : BitVec 32
  guardsize : BitVec 32
  id_ne : id ≠ 0
  size_ne : stacksize + guardsize ≠ 0

namespace Target

variable {T : Type u} (tgt : Target T)

/-- The address and the size of the stack with its guard. -/
def range : BitVec 32 × BitVec 32 := (tgt.stack - tgt.guardsize, tgt.stacksize + tgt.guardsize)

end Target

/-- The three functions that join. -/
inductive JoinCall where
  | join
  | timedjoin (tsp : Timespec)
  | tryjoin
  deriving DecidableEq, Repr

/-- The functions that a caller may call; a join is told whether `retpp` is `NULL`. -/
inductive Call where
  | join (k : JoinCall) (retpp : Bool)
  | detach
  deriving DecidableEq, Repr

/-- Which kind of call a thread is in. -/
inductive Who where
  | joiner
  | detacher
  deriving DecidableEq, Repr

/-- The control points, each before one access. The first group belongs to the target
and the others to the callers. -/
inductive Pc where
  /-- `pt->id = ++__pthread_id_counter & PTHREAD_ID_MASK` -/
  | entry
  /-- The start routine. -/
  | run
  /-- `atomic_or (&self->flags, PT_FLG_EXITING)` in `pthread_exit` -/
  | exit
  /-- `detached_p = DETACHED_P (pt)`; after `pthread_exit` the cleanup handlers run
  first. -/
  | sample
  /-- `atomic_or (&pt->flags, PT_FLG_EXITING)` in `__pthread_cleanup` -/
  | mark (detachedP : Bool)
  /-- `pt->flags & PT_FLG_USR_STACK` and the arguments of the kernel call -/
  | cleanup (detachedP : Bool)
  /-- The kernel frees the given range. -/
  | kernelFree (detachedP : Bool) (stack size : BitVec 32)
  /-- The kernel stores 0 at the death event and wakes. -/
  | kernelEvent
  | dead (detachedP : Bool)
  /-- A caller outside of the four functions. -/
  | idle
  /-- A caller that was cancelled. -/
  | gone
  /-- `DETACHED_P (pt)` of a join -/
  | joinDetached (k : JoinCall)
  /-- `self->joinpt == pt` -/
  | joinSelf (k : JoinCall)
  /-- `pt->id != 0` in `pthread_tryjoin_np` -/
  | joinBusy
  /-- `pt->joinpt != NULL` -/
  | joinLook (k : JoinCall)
  /-- `atomic_cas_bool (&pt->joinpt, NULL, self)` -/
  | joinCas (k : JoinCall)
  /-- `__pthread_cancelpoint_begin ()` -/
  | joinBegin (k : JoinCall)
  /-- `(id = pt->id) != 0` -/
  | joinLoad (k : JoinCall)
  /-- `lll_wait` or `lll_abstimed_wait` on `pt->id` -/
  | joinWait (k : JoinCall) (id : BitVec 32)
  /-- Inside `gsync_wait`, for a joiner. -/
  | joinAsleep (k : JoinCall)
  /-- `__pthread_cancelpoint_end (prev)` -/
  | joinEnd (timedout : Bool)
  /-- `cleanup` of a cancelled joiner -/
  | joinCancel
  /-- `cleanup` after a timeout -/
  | joinUndo
  /-- `*retpp = pt->retval` -/
  | joinRetval
  /-- `INVALID_P (pt)` -/
  | detachInvalid
  /-- `DETACHED_P (pt)` of `pthread_detach` -/
  | detachDetached
  /-- `atomic_cas_bool (&pt->joinpt, NULL, pt)` -/
  | detachCas
  /-- `(pt->flags & PT_FLG_EXITING) != 0` -/
  | detachFlags
  /-- `(id = pt->id) != 0` in `pthread_detach` -/
  | detachLoad
  /-- `lll_wait (&pt->id, id, 0)` in `pthread_detach` -/
  | detachWait (id : BitVec 32)
  /-- Inside `gsync_wait`, for a detacher. -/
  | detachAsleep
  /-- `atomic_or (&pt->flags, PT_FLG_TERMINATED)` in `__pthread_deallocate` -/
  | deallocate (w : Who)
  /-- The reads of `free_stack`. -/
  | freeStack (w : Who)
  /-- `vm_deallocate` in `free_stack` -/
  | vmDeallocate (w : Who) (addr size : BitVec 32)
  /-- A call returns the code. -/
  | ret (w : Who) (r : Code)
  deriving DecidableEq, Repr

/-- A thread: its control point, whether it passed a `retpp`, and what was stored
there. -/
structure Local where
  pc : Pc
  retpp : Bool
  out : Option (BitVec 32)
  deriving DecidableEq, Repr

/-- The target's descriptor and the queue on its id. `joinpt` points to a thread. The
other fields are ghosts: the ranges released so far, whether a join and whether a detach
returned 0, and whether a detach lost its compare-and-swap to a joiner. -/
structure Mem (T : Type u) where
  joinpt : Option T
  flags : BitVec 32
  id : BitVec 32
  retval : BitVec 32
  sleepers : Finset T
  releases : List (BitVec 32 × BitVec 32)
  joined : Bool
  detached : Bool
  lost : Bool

/-- What the environment chooses in a step: the call of an idle thread, whether the
target joins the caller, whether the caller is cancelled, the reading of the clock, the
end of a sleep, the sleeper that a wake takes, and how the start routine ends. -/
structure Choice (T : Type u) where
  call : Call := .detach
  joinsMe : Bool := false
  cancel : Bool := false
  now : Timespec := default
  ends : Option WaitEnd := none
  pick : Option T := none
  exits : Bool := false
  retval : BitVec 32 := 0

namespace JoinCall

/-- The test after `self->joinpt == pt`: `pthread_tryjoin_np` looks at the id first. -/
def afterSelf : JoinCall → Pc
  | tryjoin => .joinBusy
  | join => .joinLook .join
  | timedjoin tsp => .joinLook (.timedjoin tsp)

/-- Where a joiner goes that has set itself: `pthread_tryjoin_np` does not wait. -/
def afterCas (retpp : Bool) : JoinCall → Pc
  | tryjoin => if retpp then .joinRetval else .deallocate .joiner
  | join => .joinBegin .join
  | timedjoin tsp => .joinBegin (.timedjoin tsp)

/-- Whether the deadline of the wait is past before it starts. -/
def expired (now : Timespec) : JoinCall → Bool
  | timedjoin tsp => Hlpt.expired tsp now
  | join | tryjoin => false

/-- Whether the wait has a timeout. -/
def timed : JoinCall → Bool
  | timedjoin _ => true
  | join | tryjoin => false

/-- Where a wait goes that ended by itself: `pthread_join` looks at the id again, and
`pthread_timedjoin_np` does so only after an interrupt. -/
def afterWait : JoinCall → Pc
  | timedjoin _ => .joinEnd false
  | join => .joinLoad .join
  | tryjoin => .joinLoad .tryjoin

end JoinCall

variable {T : Type u} [DecidableEq T]

/-- `DETACHED_P`: the joiner of the thread is the thread itself. -/
def Mem.detachedP (m : Mem T) (tgt : Target T) : Bool := m.joinpt = some tgt.th

/-- The next access of the thread `t`. -/
def exec (tgt : Target T) : Exec T (Choice T) (Mem T) Local := fun t c m l =>
  match l.pc with
  -- The target: `thread_entry`, its start routine and `pthread_exit`.
  | .entry => some ({ m with id := tgt.id }, { l with pc := .run })
  | .run =>
      some ({ m with retval := c.retval }, { l with pc := if c.exits then .exit else .sample })
  | .exit => some ({ m with flags := m.flags ||| PT_FLG_EXITING }, { l with pc := .sample })
  -- `__pthread_cleanup`, and the kernel in `thread_terminate_release2`.
  | .sample => some (m, { l with pc := .mark (m.detachedP tgt) })
  | .mark d => some ({ m with flags := m.flags ||| PT_FLG_EXITING }, { l with pc := .cleanup d })
  | .cleanup d =>
      some (m, { l with
        pc := if d ∧ m.flags &&& PT_FLG_USR_STACK = 0 then .kernelFree d tgt.range.1 tgt.range.2
          else .kernelFree d 0 0 })
  | .kernelFree d stack size =>
      some ({ m with
          releases := if stack ≠ 0 ∨ size ≠ 0 then (stack, size) :: m.releases else m.releases },
        { l with pc := if d then .dead d else .kernelEvent })
  | .kernelEvent =>
      (wakeOne m.sleepers c.pick).map fun q =>
        ({ m with id := 0, sleepers := q }, { l with pc := .dead false })
  | .dead _ => none
  | .gone => none
  -- The callers.
  | .idle =>
      match c.call with
      | .join k retpp => some (m, ⟨.joinDetached k, retpp, none⟩)
      | .detach => some (m, { l with pc := .detachInvalid })
  -- The three joins, up to the compare-and-swap of `joinpt`.
  | .joinDetached k =>
      some (m, { l with pc := if m.detachedP tgt then .ret .joiner .einval else .joinSelf k })
  | .joinSelf k =>
      some (m, { l with pc := if c.joinsMe then .ret .joiner .edeadlk else k.afterSelf })
  | .joinBusy =>
      some (m, { l with pc := if m.id ≠ 0 then .ret .joiner .ebusy else .joinLook .tryjoin })
  | .joinLook k =>
      some (m, { l with pc := if m.joinpt ≠ none then .ret .joiner .einval else .joinCas k })
  | .joinCas k =>
      if m.joinpt = none then
        some ({ m with joinpt := some t }, { l with pc := k.afterCas l.retpp })
      else some (m, { l with pc := .ret .joiner .einval })
  -- The wait for the death event, inside a cancellation point.
  | .joinBegin k => some (m, { l with pc := if c.cancel then .joinCancel else .joinLoad k })
  | .joinLoad k =>
      some (m, { l with
        pc := if c.cancel then .joinCancel
          else if m.id ≠ 0 then .joinWait k m.id else .joinEnd false })
  | .joinWait k id =>
      if c.cancel then some (m, { l with pc := .joinCancel })
      else if k.expired c.now then some (m, { l with pc := .joinEnd true })
      else if m.id = id then
        some ({ m with sleepers := insert t m.sleepers }, { l with pc := .joinAsleep k })
      else some (m, { l with pc := k.afterWait })
  | .joinAsleep k =>
      if c.cancel then
        some ({ m with sleepers := m.sleepers.erase t }, { l with pc := .joinCancel })
      else
        (wakeUp (t ∈ m.sleepers) k.timed c.ends).map fun out =>
          ({ m with sleepers := m.sleepers.erase t },
            { l with
              pc := if out then .joinEnd true
                else if t ∈ m.sleepers then .joinLoad k else k.afterWait })
  | .joinEnd timedout =>
      some (m, { l with
        pc := if c.cancel then .joinCancel
          else if timedout then .joinUndo
          else if l.retpp then .joinRetval else .deallocate .joiner })
  -- `cleanup`, when the joiner is cancelled and when its wait times out.
  | .joinCancel =>
      some ({ m with joinpt := if m.joinpt = some t then none else m.joinpt },
        { l with pc := .gone })
  | .joinUndo =>
      some ({ m with joinpt := if m.joinpt = some t then none else m.joinpt },
        { l with pc := .ret .joiner .etimedout })
  | .joinRetval => some (m, { l with pc := .deallocate .joiner, out := some m.retval })
  -- `pthread_detach`, which waits only for a target that is exiting.
  | .detachInvalid =>
      some (m, { l with pc := if m.id = 0 then .ret .detacher .esrch else .detachDetached })
  | .detachDetached =>
      some (m, { l with pc := if m.detachedP tgt then .ret .detacher .einval else .detachCas })
  | .detachCas =>
      if m.joinpt = none then
        some ({ m with joinpt := some tgt.th }, { l with pc := .detachFlags })
      else
        some ({ m with lost := m.lost || !m.detachedP tgt }, { l with pc := .ret .detacher .ok })
  | .detachFlags =>
      some (m, { l with
        pc := if m.flags &&& PT_FLG_EXITING ≠ 0 then .detachLoad else .ret .detacher .ok })
  | .detachLoad =>
      some (m, { l with pc := if m.id ≠ 0 then .detachWait m.id else .deallocate .detacher })
  | .detachWait id =>
      if m.id = id then
        some ({ m with sleepers := insert t m.sleepers }, { l with pc := .detachAsleep })
      else some (m, { l with pc := .detachLoad })
  | .detachAsleep =>
      (wakeUp (t ∈ m.sleepers) false c.ends).map fun _ =>
        ({ m with sleepers := m.sleepers.erase t }, { l with pc := .detachLoad })
  -- `__pthread_deallocate` and `free_stack`
  | .deallocate w =>
      some ({ m with flags := m.flags ||| PT_FLG_TERMINATED },
        { l with
          pc := if m.flags &&& PT_FLG_TERMINATED = 0 then .freeStack w else .ret w .ok })
  | .freeStack w =>
      some (m, { l with
        pc := if m.flags &&& PT_FLG_USR_STACK ≠ 0 then .ret w .ok
          else .vmDeallocate w tgt.range.1 tgt.range.2 })
  | .vmDeallocate w addr size =>
      some ({ m with releases := (addr, size) :: m.releases }, { l with pc := .ret w .ok })
  | .ret w r =>
      some ({ m with
          joined := m.joined || (w = .joiner ∧ r = .ok)
          detached := m.detached || (w = .detacher ∧ r = .ok) },
        { l with pc := .idle })

/-- The target before `thread_entry`, created joinable or detached, with no call on it
yet. -/
def IsInit (tgt : Target T) (s : Global T (Mem T) Local) : Prop :=
  (∃ j, (j = none ∨ j = some tgt.th) ∧
    s.mem = ⟨j, 0, PTHREAD_INVALID_ID, 0, ∅, [], false, false, false⟩) ∧
  ∀ t, s.loc t = ⟨if t = tgt.th then .entry else .idle, false, none⟩

/-- The target and its callers. -/
def machine (tgt : Target T) : Machine (Global T (Mem T) Local) (T × Choice T) :=
  (exec tgt).machine (IsInit tgt)

end Hlpt.Termination
