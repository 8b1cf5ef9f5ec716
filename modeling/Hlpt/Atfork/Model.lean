import Hlpt.Base
import Mathlib.Data.BitVec
import Mathlib.Logic.Function.Basic

/-!
# `Hlpt.Atfork.Model`: the fork handlers of `fork.c`

`pthread_atfork` links a new node into a list that has a pointer to its first node,
`atfork_handlers`, and one to its last, `atfork_last`. The list is not circular. A fork runs
`pt_atfork_prepare` before it, and then `pt_atfork_parent` in the parent and
`pt_atfork_child` in the child, which also frees the nodes.

The three functions go along the list and call the callbacks. What they call is their
result here. `none` is a loop that has not ended after the given number of turns, or a node
that was read and is not there.

The other things that the handlers do are modelled where they matter: `Hlpt.Registry` has
the list of threads, and `Hlpt.Tsd` the keys.
-/

set_option autoImplicit false

namespace Hlpt.Atfork

/-- A pointer to a node or to a function. NULL is 0. -/
abbrev Ptr := BitVec 32

/-- The arguments of `pthread_atfork`. -/
structure Registration where
  prepare : Ptr
  parent : Ptr
  child : Ptr
  deriving DecidableEq, Repr

/-- `struct atfork` -/
structure Handler extends Registration where
  prev : Ptr
  next : Ptr
  deriving DecidableEq, Repr

/-- The allocated nodes, `atfork_handlers` and `atfork_last`. -/
structure State where
  heap : Ptr → Option Handler
  handlers : Ptr
  last : Ptr

/-- Before the first `pthread_atfork`. -/
def State.init : State := ⟨fun _ => none, 0, 0⟩

/-- A new node, and what `malloc` left in its `prev`. -/
structure Malloc where
  hp : Ptr
  prev : Ptr

/-- `pthread_atfork`. There is no such step if `malloc` cannot return this node. -/
def pthreadAtfork (r : Registration) (malloc : Option Malloc) (s : State) :
    Option (Code × State) :=
  match malloc with
  | none => some (.enomem, s)
  | some ⟨hp, prev⟩ =>
      if hp = 0 ∨ (s.heap hp).isSome then none
      else
        let heap := Function.update s.heap hp (some ⟨r, prev, s.handlers⟩)
        let heap := if s.handlers ≠ 0 then
            Function.update heap s.handlers
              ((heap s.handlers).map fun h => { h with prev := hp })
          else heap
        some (.ok, ⟨heap, hp, if s.last = 0 then hp else s.last⟩)

/-- A callback is called unless it is NULL. -/
def call (fn : Ptr) : List Ptr := if fn ≠ 0 then [fn] else []

/-- The loop of `pt_atfork_prepare` from `lastp` on, with at most so many turns. -/
def prepareLoop (s : State) (hp : Ptr) : ℕ → Ptr → Option (List Ptr)
  | 0, _ => none
  | n + 1, lastp =>
      match s.heap lastp with
      | none => none
      | some h =>
          if lastp = hp then some (call h.prepare)
          else (prepareLoop s hp n h.prev).map (call h.prepare ++ ·)

/-- `pt_atfork_prepare` -/
def ptAtforkPrepare (turns : ℕ) (s : State) : Option (List Ptr) :=
  if s.last ≠ 0 then prepareLoop s s.handlers turns s.last else some []

/-- The loop of `pt_atfork_parent` from `hp` on, with at most so many turns. -/
def parentLoop (s : State) : ℕ → Ptr → Option (List Ptr)
  | 0, hp => if hp = 0 then some [] else none
  | n + 1, hp =>
      if hp = 0 then some []
      else
        match s.heap hp with
        | none => none
        | some h => (parentLoop s n h.next).map (call h.parent ++ ·)

/-- `pt_atfork_parent` -/
def ptAtforkParent (turns : ℕ) (s : State) : Option (List Ptr) := parentLoop s turns s.handlers

/-- The loop of `pt_atfork_child` from `hp` on, which frees the nodes. -/
def childLoop : ℕ → Ptr → (Ptr → Option Handler) → Option (List Ptr × (Ptr → Option Handler))
  | 0, hp, heap => if hp = 0 then some ([], heap) else none
  | n + 1, hp, heap =>
      if hp = 0 then some ([], heap)
      else
        match heap hp with
        | none => none
        | some h =>
            (childLoop n h.next (Function.update heap hp none)).map fun r =>
              (call h.child ++ r.1, r.2)

/-- `pt_atfork_child`: the callbacks, and the list that is left. -/
def ptAtforkChild (turns : ℕ) (s : State) : Option (List Ptr × State) :=
  (childLoop turns s.handlers s.heap).map fun r => (r.1, ⟨r.2, 0, 0⟩)

/-- The state after these successful registrations, in this order. -/
inductive Registered : List Registration → State → Prop
  | init : Registered [] State.init
  | atfork {rs : List Registration} {s s' : State} {r : Registration} {hp : Malloc}
      (hs : Registered rs s) (h : pthreadAtfork r (some hp) s = some (.ok, s')) :
      Registered (rs ++ [r]) s'

end Hlpt.Atfork
