import Hlpt.Base
import Hlpt.Lib.Threads
import Mathlib.Data.BitVec

/-!
# `Hlpt.Registry.Model`: the list and the number of the running threads

`pthread_create`, `thread_entry` and `__pthread_cleanup` of `create.c`, the fork handlers
of `fork.c`, and the circular list of `hurd/list.h` that the threads register in. The
threads of the model are the descriptors, which are used again once their memory is free.

The memory of a descriptor may be gone: its thread has ended and the stack with the
descriptor was unmapped. An access then faults, and the thread ends in `crashed`. The list
is only accessed with `__running_threads_lock`, so an operation on it is one step.

In the child of a fork only the thread that called it goes on, but the memory is copied as
it is, with the descriptors of the others. A run that forks is followed into the parent or
into the child.
-/

set_option autoImplicit false

namespace Hlpt.Registry

open Hlpt.Lib

universe u

/-- `PTHREAD_INVALID_ID`: the id of a thread before `thread_entry`. -/
def PTHREAD_INVALID_ID : BitVec 32 := ~~~0

/-- The places that the links point to: `__running_threads`, and the link in the
descriptor of a thread. -/
inductive Addr (T : Type u) where
  | head
  | link (t : T)
  deriving DecidableEq, Repr

/-- `struct hurd_list`. NULL is `none`. -/
structure HurdList (T : Type u) where
  prev : Option (Addr T)
  next : Option (Addr T)
  deriving DecidableEq, Repr

/-- The fields of `struct pthread`: its link, its id and `PT_FLG_USR_STACK`. -/
structure Desc (T : Type u) where
  link : HurdList T
  id : BitVec 32
  usrStack : Bool
  deriving DecidableEq, Repr

/-- The memory of the process. `desc t` is `none` when there is no descriptor at `t`. The
lock is the thread that holds it. The last two are ghosts: how many threads have started,
and which start the last thread of a descriptor was. -/
structure Mem (T : Type u) where
  runningThreads : HurdList T
  desc : T → Option (Desc T)
  lock : Option T
  idCounter : BitVec 32
  total : BitVec 32
  starts : ℕ
  serial : T → ℕ

/-- Where a thread is. In the program code and the calls from it, `late` says that the
thread is in its destructors. A call of `pthread_create` has the descriptor `c` of the new
thread. -/
inductive Pc (T : Type u) where
  /-- No thread has this descriptor. -/
  | absent
  /-- A descriptor whose thread has not been resumed. -/
  | unborn
  /-- `lll_lock` of `thread_entry` -/
  | entry
  /-- `hurd_list_add_tail (&__running_threads, &pt->link)` and the new id -/
  | enter
  /-- `lll_unlock` of `thread_entry` -/
  | entered
  /-- The start routine, or a destructor. -/
  | run (late : Bool)
  /-- `pt_allocate`, after the stack was mapped. -/
  | allocate (late : Bool) (c : T)
  /-- `atomic_add (&__pthread_total, 1)` -/
  | create (late : Bool) (c : T)
  /-- `__pthread_set_machine_state (pt, thread_entry)` -/
  | machineState (late : Bool) (c : T)
  /-- `free_stack (pt)` of a creation that failed -/
  | free (late : Bool) (c : T)
  /-- `atomic_add (&__pthread_total, -1)` of a creation that failed -/
  | undo (late : Bool)
  /-- `thread_resume (__pthread_kport (pt))` -/
  | resume (late : Bool) (c : T)
  /-- `lll_lock` of `__pthread_cleanup` -/
  | cleanup
  /-- `hurd_list_del (&pt->link)` -/
  | leave
  /-- `lll_unlock` of `__pthread_cleanup` -/
  | left
  /-- Inside `fork`, with the lock. -/
  | fork (late : Bool)
  /-- `thread_terminate_release2` -/
  | terminate
  /-- Terminated, and the descriptor is still there. -/
  | dead
  /-- `exit (0)` -/
  | exit
  /-- The thread accessed memory that is not there. -/
  | crashed
  deriving DecidableEq, Repr

/-- What the environment chooses in a step. -/
inductive Choice (T : Type u) where
  /-- The next access, or the success of a call. -/
  | go
  /-- The failure of a call. -/
  | fail
  /-- The program calls `pthread_create`, which gets memory for the descriptor `c` or uses
  a stack of the program. -/
  | create (c : T) (usrStack : Bool)
  /-- The start routine or the last destructor returns. -/
  | finish
  /-- The program calls `fork`. -/
  | fork
  /-- The run goes on in the child. -/
  | child
  deriving DecidableEq, Repr

abbrev State (T : Type u) := Global T (Mem T) (Pc T)

variable {T : Type u}

/-! ### The list -/

/-- The list node at an address. -/
def Mem.node (m : Mem T) : Addr T → Option (HurdList T)
  | .head => some m.runningThreads
  | .link t => (m.desc t).map Desc.link

/-- `a->next` -/
def Mem.next (m : Mem T) (a : Addr T) : Option (Addr T) := (m.node a).bind HurdList.next

/-- `a->prev` -/
def Mem.prev (m : Mem T) (a : Addr T) : Option (Addr T) := (m.node a).bind HurdList.prev

variable [DecidableEq T]

/-- Write a list node. -/
def Mem.setNode (m : Mem T) (n : HurdList T) : Addr T → Option (Mem T)
  | .head => some { m with runningThreads := n }
  | .link t => (m.desc t).map fun d =>
      { m with desc := Function.update m.desc t (some { d with link := n }) }

/-- `a->next = v` -/
def Mem.setNext (m : Mem T) (a v : Addr T) : Option (Mem T) :=
  (m.node a).bind fun n => m.setNode { n with next := some v } a

/-- `a->prev = v` -/
def Mem.setPrev (m : Mem T) (a v : Addr T) : Option (Mem T) :=
  (m.node a).bind fun n => m.setNode { n with prev := some v } a

/-- `hurd_list_init` -/
def hurdListInit (m : Mem T) : Mem T := { m with runningThreads := ⟨some .head, some .head⟩ }

/-- `hurd_list_add` -/
def hurdListAdd (prev next node : Addr T) (m : Mem T) : Option (Mem T) :=
  (m.setPrev next node).bind fun m =>
  (m.setNext node next).bind fun m =>
  (m.setNext prev node).bind fun m =>
  m.setPrev node prev

/-- `hurd_list_add_head` -/
def hurdListAddHead (node : Addr T) (m : Mem T) : Option (Mem T) :=
  (m.next .head).bind fun next => hurdListAdd .head next node m

/-- `hurd_list_add_tail` -/
def hurdListAddTail (node : Addr T) (m : Mem T) : Option (Mem T) :=
  (m.prev .head).bind fun prev => hurdListAdd prev .head node m

/-- `hurd_list_del` -/
def hurdListDel (node : Addr T) (m : Mem T) : Option (Mem T) :=
  (m.prev node).bind fun prev =>
  (m.next node).bind fun next =>
  (m.setNext prev next).bind fun m =>
  (m.next node).bind fun next =>
  (m.prev node).bind fun prev =>
  m.setPrev next prev

/-! ### The descriptors -/

/-- A descriptor from `pt_allocate`. -/
def ptAllocate (c : T) (usrStack : Bool) (m : Mem T) : Mem T :=
  { m with desc := Function.update m.desc c (some ⟨⟨none, none⟩, PTHREAD_INVALID_ID, usrStack⟩) }

/-- `free_stack`: the descriptor goes with the stack, unless that is the program's. -/
def freeStack (t : T) (m : Mem T) : Mem T :=
  if (m.desc t).any Desc.usrStack then m
  else { m with desc := Function.update m.desc t none }

/-- `pt->id = id` -/
def setId (t : T) (id : BitVec 32) (m : Mem T) : Mem T :=
  { m with desc := Function.update m.desc t ((m.desc t).map fun d => { d with id := id }) }

/-- `pt->id` -/
def Mem.id (m : Mem T) (t : T) : BitVec 32 := ((m.desc t).map Desc.id).getD 0

/-- What `thread_entry` does with the lock. -/
def register (t : T) (m : Mem T) : Option (Mem T) :=
  (hurdListAddTail (.link t) m).map fun m =>
    let idCounter := m.idCounter + 1
    let m := setId t (idCounter &&& PTHREAD_ID_MASK) m
    { m with
      idCounter := idCounter
      starts := m.starts + 1
      serial := Function.update m.serial t (m.starts + 1) }

/-! ### The fork -/

/-- The loop of `__pthread_free_stacks`, from the node `runp` on, in at most the given
number of turns. The result is the memory, and whether the loop has ended: it does not when
a node is gone that it reads. -/
def freeStacks (self : T) : ℕ → Addr T → Mem T → Mem T × Bool
  | 0, _, m => (m, false)
  | _ + 1, .head, m => (m, true)
  | n + 1, .link pt, m =>
      let m := if pt = self then m else freeStack pt m
      match m.next (.link pt) with
      | some runp => freeStacks self n runp m
      | none => (m, false)

/-- The beginning of `pt_atfork_child`: the lock, the number of threads and the id. -/
def childStart (self : T) (m : Mem T) : Mem T :=
  { setId self 1 m with
    lock := none
    total := 1
    idCounter := 1
    starts := 1
    serial := Function.update m.serial self 1 }

/-- `pt_atfork_child`, without the keys and the handlers: the memory, and whether it went
well. -/
def ptAtforkChild [Fintype T] (self : T) (m : Mem T) : Mem T × Bool :=
  let m := childStart self m
  match m.next .head with
  | none => (m, false)
  | some runp =>
      match freeStacks self (Fintype.card T + 1) runp m with
      | (m, false) => (m, false)
      | (m, true) =>
          match hurdListAddTail (.link self) (hurdListInit m) with
          | some m => (m, true)
          | none => (m, false)

/-! ### The machine -/

/-- `lll_lock (&__running_threads_lock, 0)`, which waits until the lock is free. -/
def lock (t : T) (m : Mem T) : Option (Mem T) :=
  if m.lock = none then some { m with lock := some t } else none

/-- `lll_unlock (&__running_threads_lock, 0)` -/
def unlock (m : Mem T) : Mem T := { m with lock := none }

/-- The state when the thread `t` moves on to `p`. -/
def go (s : State T) (t : T) (p : Pc T) (m : Mem T) : State T := ⟨m, Function.update s.loc t p⟩

/-- The same, when another thread moves, too. -/
def go₂ (s : State T) (t : T) (p : Pc T) (c : T) (q : Pc T) (m : Mem T) : State T :=
  ⟨m, Function.update (Function.update s.loc c q) t p⟩

/-- The state of a process with one thread. -/
def alone (t : T) (p : Pc T) (m : Mem T) : State T := ⟨m, fun u => if u = t then p else .absent⟩

/-- One step of the thread `t`. -/
def step [Fintype T] (s : State T) (t : T) (ch : Choice T) : Option (State T) :=
  let m := s.mem
  match s.loc t, ch with
  | .entry, .go => (lock t m).map (go s t .enter)
  | .enter, .go =>
      match register t m with
      | some m => some (go s t .entered m)
      | none => some (go s t .crashed m)
  | .entered, .go => some (go s t (.run false) (unlock m))
  | .run late, .create c usrStack =>
      if s.loc c = .absent ∧ (usrStack = true ∨ m.desc c = none) then
        some (go₂ s t (.allocate late c) c .unborn (ptAllocate c usrStack m))
      else none
  | .allocate late c, .go => some (go s t (.create late c) m)
  | .allocate late c, .fail => some (go₂ s t (.run late) c .absent (freeStack c m))
  | .create late c, .go => some (go s t (.machineState late c) { m with total := m.total + 1 })
  | .machineState late c, .go => some (go s t (.resume late c) m)
  | .machineState late c, .fail => some (go s t (.free late c) m)
  | .free late c, .go => some (go₂ s t (.undo late) c .absent (freeStack c m))
  | .undo late, .go => some (go s t (.run late) { m with total := m.total - 1 })
  | .resume late c, .go => some (go₂ s t (.run late) c .entry m)
  | .run false, .finish => some (go s t .cleanup m)
  | .cleanup, .go => (lock t m).map (go s t .leave)
  | .leave, .go =>
      match hurdListDel (.link t) m with
      | some m => some (go s t .left m)
      | none => some (go s t .crashed m)
  | .left, .go => some (go s t (.run true) (unlock m))
  | .run true, .finish =>
      some (go s t (if m.total = 1 then .exit else .terminate) { m with total := m.total - 1 })
  | .terminate, .go => some (go s t .dead (setId t 0 m))
  | .dead, .go => some (go s t .absent (freeStack t m))
  | .run late, .fork => (lock t m).map (go s t (.fork late))
  | .fork late, .go => some (go s t (.run late) (unlock m))
  | .fork late, .child =>
      let r := ptAtforkChild t m
      some (alone t (if r.2 then .run late else .crashed) r.1)
  | _, _ => none

/-- The memory of a process that starts, with the descriptor of the main thread. Its stack
counts as the program's. -/
def startMem (main : T) : Mem T where
  runningThreads := ⟨none, none⟩
  desc := Function.update (fun _ => none) main (some ⟨⟨none, none⟩, 0, true⟩)
  lock := none
  idCounter := 1
  total := 1
  starts := 1
  serial _ := 1

/-- `__pthread_initialize`: the main thread is registered with the id 1. -/
def pthreadInitialize (main : T) : Option (State T) :=
  (hurdListAddHead (.link main) (hurdListInit (startMem main))).map fun m =>
    alone main (.run false) (setId main 1 m)

/-- All runs of a process. -/
def machine [Fintype T] : Machine (State T) (T × Choice T) where
  init s := ∃ main, pthreadInitialize main = some s
  step s a := step s a.1 a.2

end Hlpt.Registry
