import Hlpt.Cancel.Model

/-!
# `Hlpt.Cancel.Unwind`: the cleanup handlers of a thread, from `exit.c`

The target of `Hlpt.Cancel.Model` with its list `self->cleanup`. Between two calls it
pushes and pops handlers. In `pthread_exit` the unwinding runs the handlers that are
left, innermost first: `unwind_cleanup` calls the head of the list, and takes it off when
it has returned. A handler may make any call but `pthread_exit`, and pushes and pops
handlers of its own. A target that is redirected to `exit_thread` leaves what it was doing,
and its list stays as it is.

A handler is named by the number of its push. `started` and `begun` are ghosts: the
handlers that were called so far, by the unwinding or by `pthread_cleanup_pop`, and how
often `pthread_exit` was entered.
-/

set_option autoImplicit false

namespace Hlpt.Cancel

open Hlpt.Lib

universe u

/-- The handlers of the target, innermost first, the number of the pushes so far, the
length that the list had when the unwinding called the handler that is running, and the
ghosts. -/
structure Frames where
  cleanup : List ℕ
  pushes : ℕ
  running : Option ℕ
  started : List ℕ
  begun : ℕ
  deriving DecidableEq, Repr

namespace Frames

/-- `pthread_cleanup_push` -/
def push (f : Frames) : Frames :=
  { f with cleanup := f.pushes :: f.cleanup, pushes := f.pushes + 1 }

/-- `pthread_cleanup_pop`, which calls the handler when `execute` is set. -/
def pop (execute : Bool) (f : Frames) : Frames :=
  { f with
    cleanup := f.cleanup.tail
    started := if execute then f.cleanup.head?.toList ++ f.started else f.started }

/-- `self->cleanup->__fct (self->cleanup->__argp)` -/
def start (f : Frames) : Frames :=
  { f with running := some f.cleanup.length, started := f.cleanup.head?.toList ++ f.started }

/-- `self->cleanup = self->cleanup->__next` -/
def finish (f : Frames) : Frames := { f with cleanup := f.cleanup.tail, running := none }

/-- The target goes to `exit_thread`. -/
def leave (f : Frames) : Frames := { f with running := none }

/-- The target goes to `pc`. -/
def enter (pc : Pc) (f : Frames) : Frames :=
  { f with begun := if pc = .exit then f.begun + 1 else f.begun }

end Frames

/-- What the target does between two calls. Pushes and pops are paired within one function,
so a handler pops only what it pushed, and has popped all of it when it returns. -/
inductive Op where
  | call
  | push
  | pop (execute : Bool)
  | handlerReturn
  deriving DecidableEq, Repr

/-- The next step of a target that is neither stopped nor redirected. -/
def unwind (c : Choice × Op) (m : Mem × Frames) (l : Local) : Option ((Mem × Frames) × Local) :=
  let access := (act true c.1 m.1 l).map fun r => ((r.1, m.2.enter r.2.pc), r.2)
  match l.pc with
  | .exiting =>
      if m.2.cleanup = [] then access else some ((m.1, m.2.start), { l with pc := .idle })
  | .idle =>
      match c.2 with
      | .push => some ((m.1, m.2.push), l)
      | .pop execute =>
          if m.2.running.getD 0 < m.2.cleanup.length then some ((m.1, m.2.pop execute), l)
          else none
      | .handlerReturn =>
          if m.2.running = some m.2.cleanup.length then
            some ((m.1, m.2.finish), { l with pc := .exiting })
          else none
      | .call => if m.2.running ≠ none ∧ c.1.call = .exit then none else access
  | _ => access

variable {T : Type u} [DecidableEq T]

/-- The next step of the thread `t`. -/
def execUnwind (th : T) : Exec T (Choice × Op) (Mem × Frames) Local := fun t c m l =>
  if t = th ∧ m.1.suspended = 0 ∧ m.1.redirected = false then unwind c m l
  else
    (exec th t c.1 m.1 l).map fun r => ((r.1, if t = th then m.2.leave else m.2), r.2)

/-- The state without the handlers. -/
def plain (s : Global T (Mem × Frames) Local) : Global T Mem Local := ⟨s.mem.1, s.loc⟩

/-- The target without handlers, and the threads that cancel it. -/
def unwinding (th : T) : Machine (Global T (Mem × Frames) Local) (T × (Choice × Op)) :=
  (execUnwind th).machine fun s => IsInit (plain s) ∧ s.mem.2 = ⟨[], 0, none, [], 0⟩

end Hlpt.Cancel
