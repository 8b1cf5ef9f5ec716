import Hlpt.Base
import Hlpt.Lists.Refines
import Hlpt.LowLevelLock.Guarded

/-!
# `Hlpt.Running.Model`: the running threads, access by access

The code that `__running_threads_lock` guards: a thread that enters the list in
`thread_entry`, one that leaves it in `__pthread_cleanup`, `pthread_foreach_np`, and a fork
between `pt_atfork_prepare` and `pt_atfork_parent`. The lock calls around it are those of
`Hlpt.LowLevelLock.Guarded`.

The callback of `pthread_foreach_np` is the program's. It takes its time while its thread is
at `callback`, and returns what it likes. A thread may be cancelled, or exit, anywhere between
`__pthread_cancelpoint_begin` and `__pthread_cancelpoint_end`; its handler then frees the
lock, and the thread may go on to call what it likes from its other handlers.

A fork copies the memory. What the child finds there is what its traversal in
`__pthread_free_stacks` visits.
-/

set_option autoImplicit false

namespace Hlpt.Running

open Hlpt.Lib Hlpt.Lists

universe u

/-- The places of a link: `__running_threads`, and the one in a descriptor. -/
inductive Addr (T : Type u) where
  | head
  | link (t : T)
  deriving DecidableEq, Repr

/-- What the lock guards: the links, the ids in the descriptors, and
`__pthread_id_counter`. -/
structure Data (T : Type u) where
  heap : Heap (Addr T)
  id : T → BitVec 32
  counter : BitVec 32

/-- Where a thread is in its life: it has not entered the list, it is in the list, or it has
left the list. -/
inductive Life where
  | unborn
  | running
  | exiting
  deriving DecidableEq, Repr

/-- What a thread does with the list. -/
inductive Call where
  | threadEntry
  | cleanup
  | foreach
  | fork
  deriving DecidableEq, Repr

/-- What comes of it. `calls` are the threads whose callbacks returned, in their order, with
what each returned. -/
inductive Result (T : Type u) where
  /-- The thread entered the list with this id. -/
  | entered (id : BitVec 32)
  | left
  /-- `pthread_foreach_np` returned `ret`. -/
  | visited (calls : List (T × BitVec 32)) (ret : BitVec 32)
  /-- It was cancelled, in the callback for `last` or outside of one. -/
  | cancelled (calls : List (T × BitVec 32)) (last : Option T)
  /-- The fork, with the threads that the child finds in the list. -/
  | forked (threads : Option (List T))
  deriving DecidableEq, Repr

/-- The places in the code, each before one access. -/
inductive Body (T : Type u) where
  /-- `(&__running_threads)->prev`, the first argument of `hurd_list_add` -/
  | addTail
  /-- `__next->prev = __node` -/
  | addNextPrev (prev : Addr T)
  /-- `__node->next = __next` -/
  | addNodeNext (prev : Addr T)
  /-- `__prev->next = __node` -/
  | addPrevNext (prev : Addr T)
  /-- `__node->prev = __prev` -/
  | addNodePrev (prev : Addr T)
  /-- `++__pthread_id_counter` -/
  | count
  /-- `pt->id = … & PTHREAD_ID_MASK` -/
  | setId (counter : BitVec 32)
  /-- `__node->prev->next = __node->next` -/
  | delNext
  /-- `__node->next->prev = __node->prev` -/
  | delPrev
  /-- `runp = (&__running_threads)->next` -/
  | eachFirst
  /-- `runp != &__running_threads` -/
  | eachTest (runp : Addr T) (calls : List (T × BitVec 32))
  /-- Inside `fct ((pthread_t)pt, argp)` for the descriptor of `u`. -/
  | callback (u : T) (calls : List (T × BitVec 32))
  /-- `runp = runp->next` -/
  | eachNext (u : T) (calls : List (T × BitVec 32))
  | fork
  | done (r : Result T)
  deriving DecidableEq, Repr

/-- What the environment chooses: the value with which a callback returns, and whether the
thread is cancelled, or exits, before the access. -/
structure Env where
  ret : BitVec 32 := 0
  cancel : Bool := false

variable {T : Type u}

/-- The entry of the code, for a thread that may run it. -/
def start (_t : T) : Life → Call → Option (Body T)
  | .unborn, .threadEntry => some .addTail
  | .running, .cleanup => some .delNext
  | .running, .foreach | .exiting, .foreach => some .eachFirst
  | .running, .fork | .exiting, .fork => some .fork
  | _, _ => none

/-- The life of a thread after a call. -/
def after (life : Life) : Call → Life
  | .threadEntry => .running
  | .cleanup => .exiting
  | .foreach | .fork => life

/-- The value of `ret` when the loop is over. -/
def lastRet (calls : List (T × BitVec 32)) : BitVec 32 := (calls.getLast?.map Prod.snd).getD 0

variable [DecidableEq T]

/-- The thread at a link. -/
def Addr.thread : Addr T → Option T
  | head => none
  | link t => some t

variable [Fintype T]

/-- The list as a traversal of the copied links finds it. -/
def found (heap : Heap (Addr T)) : Option (List T) :=
  (hurdListEach heap .head (Fintype.card T + 1)).map (·.filterMap Addr.thread)

/-- The next access of the thread `t` in its code. -/
def access : Exec T Env (Data T) (Body T) := fun t c d p =>
  match p with
  -- `hurd_list_add_tail (&__running_threads, &pt->link)`
  | .addTail => some (d, .addNextPrev (d.heap .head).prev)
  | .addNextPrev prev =>
      some ({ d with heap := d.heap.setPrev .head (.link t) }, .addNodeNext prev)
  | .addNodeNext prev =>
      some ({ d with heap := d.heap.setNext (.link t) .head }, .addPrevNext prev)
  | .addPrevNext prev => some ({ d with heap := d.heap.setNext prev (.link t) }, .addNodePrev prev)
  | .addNodePrev prev => some ({ d with heap := d.heap.setPrev (.link t) prev }, .count)
  | .count => some ({ d with counter := d.counter + 1 }, .setId (d.counter + 1))
  | .setId counter =>
      some ({ d with id := Function.update d.id t (counter &&& PTHREAD_ID_MASK) },
        .done (.entered (counter &&& PTHREAD_ID_MASK)))
  -- `hurd_list_del (&pt->link)`
  | .delNext =>
      some ({ d with heap := d.heap.setNext (d.heap (.link t)).prev (d.heap (.link t)).next },
        .delPrev)
  | .delPrev =>
      some ({ d with heap := d.heap.setPrev (d.heap (.link t)).next (d.heap (.link t)).prev },
        .done .left)
  -- `pthread_foreach_np`
  | .eachFirst =>
      if c.cancel then some (d, .done (.cancelled [] none))
      else some (d, .eachTest (d.heap .head).next [])
  | .eachTest runp calls =>
      if c.cancel then some (d, .done (.cancelled calls none))
      else match runp with
        | .head => some (d, .done (.visited calls (lastRet calls)))
        | .link u => some (d, .callback u calls)
  | .callback u calls =>
      if c.cancel then some (d, .done (.cancelled calls (some u)))
      else some (d,
        if c.ret.slt 0 then .done (.visited (calls ++ [(u, c.ret)]) c.ret)
        else .eachNext u (calls ++ [(u, c.ret)]))
  | .eachNext u calls =>
      if c.cancel then some (d, .done (.cancelled calls none))
      else some (d, .eachTest (d.heap (.link u)).next calls)
  | .fork => some (d, .done (.forked (found d.heap)))
  | .done _ => none

/-- The result of a thread that is through with its code. -/
def result : Body T → Option (Result T)
  | .done r => some r
  | _ => none

/-- The code under `__running_threads_lock`. -/
def guarded : Section T Env (Data T) Life (Body T) Call (Result T) where
  start := start
  exec := access
  finish := result
  after := after

/-- The list and the ids as `__pthread_initialize` leaves them: the main thread is in the
list, with the id 1. -/
def pthreadInitialize (main : T) (d : Data T) : Data T where
  heap := hurdListAddHead (hurdListInit d.heap .head) .head (.link main)
  id := Function.update d.id main 1
  counter := 1

/-- Only the main thread runs. -/
def IsStart (d : Data T) (life : T → Life) : Prop :=
  ∃ main d₀, d = pthreadInitialize main d₀ ∧
    life = Function.update (fun _ => .unborn) main .running

end Hlpt.Running
