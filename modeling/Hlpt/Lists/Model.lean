import Mathlib.Data.List.Basic
import Mathlib.Logic.Function.Basic

/-!
# `Hlpt.Lists.Model`: the lists of `hurd/list.h`

A `struct hurd_list` is embedded in the nodes and in the head of a list. The heap maps every
address to the pair there. An operation is the writes of its macro in their order, and each
of them reads the pointers that the ones before it have left.
-/

set_option autoImplicit false

namespace Hlpt.Lists

universe u

/-- `struct hurd_list` -/
structure HurdList (α : Type u) where
  prev : α
  next : α
  deriving DecidableEq, Repr

/-- The pair at every address. -/
abbrev Heap (α : Type u) := α → HurdList α

variable {α : Type u} [DecidableEq α]

/-- `a->prev = b` -/
def Heap.setPrev (heap : Heap α) (a b : α) : Heap α :=
  Function.update heap a { heap a with prev := b }

/-- `a->next = b` -/
def Heap.setNext (heap : Heap α) (a b : α) : Heap α :=
  Function.update heap a { heap a with next := b }

section Writes

variable (heap : Heap α) (a b x : α)

@[simp] theorem setPrev_next : (heap.setPrev a b x).next = (heap x).next := by
  by_cases h : x = a
  · subst h
    simp [Heap.setPrev]
  · simp [Heap.setPrev, h]

@[simp] theorem setNext_prev : (heap.setNext a b x).prev = (heap x).prev := by
  by_cases h : x = a
  · subst h
    simp [Heap.setNext]
  · simp [Heap.setNext, h]

@[simp] theorem setPrev_prev :
    (heap.setPrev a b x).prev = if x = a then b else (heap x).prev := by
  by_cases h : x = a <;> simp [Heap.setPrev, h]

@[simp] theorem setNext_next :
    (heap.setNext a b x).next = if x = a then b else (heap x).next := by
  by_cases h : x = a <;> simp [Heap.setNext, h]

theorem setPrev_of_ne {heap : Heap α} {a b x : α} (h : x ≠ a) :
    heap.setPrev a b x = heap x := by
  simp [Heap.setPrev, h]

theorem setNext_of_ne {heap : Heap α} {a b x : α} (h : x ≠ a) :
    heap.setNext a b x = heap x := by
  simp [Heap.setNext, h]

end Writes

/-- `hurd_list_init (lp)`: first `prev`, then `next`. -/
def hurdListInit (heap : Heap α) (lp : α) : Heap α :=
  (heap.setPrev lp lp).setNext lp lp

/-- `hurd_list_add (prevp, nextp, nodep)`. The neighbours are computed before the writes. -/
def hurdListAdd (heap : Heap α) (prevp nextp node : α) : Heap α :=
  let heap := heap.setPrev nextp node
  let heap := heap.setNext node nextp
  let heap := heap.setNext prevp node
  heap.setPrev node prevp

/-- `hurd_list_add_head (listp, nodep)` -/
def hurdListAddHead (heap : Heap α) (listp node : α) : Heap α :=
  hurdListAdd heap listp (heap listp).next node

/-- `hurd_list_add_tail (listp, nodep)` -/
def hurdListAddTail (heap : Heap α) (listp node : α) : Heap α :=
  hurdListAdd heap (heap listp).prev listp node

/-- `hurd_list_del (nodep)`. The second write reads both pointers of the node again. -/
def hurdListDel (heap : Heap α) (node : α) : Heap α :=
  let heap := heap.setNext (heap node).prev (heap node).next
  heap.setPrev (heap node).next (heap node).prev

/-- The loop of `hurd_list_each` from `node` on, at most `fuel` times: the nodes that its
body runs for. It is `none` when the fuel did not lead to the head. -/
def hurdListEachFrom (heap : Heap α) (listp : α) : ℕ → α → Option (List α)
  | 0, _ => none
  | fuel + 1, node =>
      if node = listp then some []
      else (hurdListEachFrom heap listp fuel (heap node).next).map (node :: ·)

/-- `hurd_list_each (listp, nodep)` -/
def hurdListEach (heap : Heap α) (listp : α) (fuel : ℕ) : Option (List α) :=
  hurdListEachFrom heap listp fuel (heap listp).next

/-- What a program does to the list. -/
inductive Op (α : Type u) where
  /-- `hurd_list_add_head (listp, node)` -/
  | addHead (node : α)
  /-- `hurd_list_add_tail (listp, node)` -/
  | addTail (node : α)
  /-- `hurd_list_del (node)` -/
  | del (node : α)
  deriving DecidableEq, Repr

/-- The node that is added or removed. -/
def Op.node : Op α → α
  | .addHead x => x
  | .addTail x => x
  | .del x => x

/-- The operation on the heap, for the list with the head `listp`. -/
def Op.exec (listp : α) (heap : Heap α) : Op α → Heap α
  | .addHead x => hurdListAddHead heap listp x
  | .addTail x => hurdListAddTail heap listp x
  | .del x => hurdListDel heap x

/-- What a program does, one operation after the other. -/
def run (listp : α) (heap : Heap α) (ops : List (Op α)) : Heap α :=
  ops.foldl (Op.exec listp) heap

end Hlpt.Lists
