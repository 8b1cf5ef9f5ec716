import Hlpt.Lib.Ring
import Hlpt.Lib.Threads
import Hlpt.Lists.Model

/-!
# `Hlpt.Lists.Refines`: the embedded lists are sequences

`IsList heap a l` says that the list with the head `a` has the nodes `l`, in this order. The
two operations that add a node write the same four pointers, with the head in the place of
one of the neighbours. When the list is empty the head is both of them.

* `isList_init`: `hurd_list_init` makes an empty list.
* `isList_exec`: an operation on the heap does to the list what `Op.apply` does to its nodes.
* `exec_frame`: an operation leaves the nodes that are not in the list alone.
* `hurdListEach_eq`: a traversal visits the nodes in their order and ends at the head.
* `hurd_list_refines_sequence`: what holds after any number of operations.
-/

set_option autoImplicit false

namespace Hlpt.Lists

open Hlpt.Lib

universe u

variable {α : Type u} {heap : Heap α} {a x y : α} {l : List α}

/-- The pointers lead from the head `a` through the nodes `l` round to `a`, and back. -/
def IsList (heap : Heap α) (a : α) (l : List α) : Prop :=
  Ring (fun x => some (heap x).next) (fun x => some (heap x).prev) a l

namespace IsList

/-- The node behind a node or behind the head. -/
theorem next_mem (h : IsList heap a l) (hx : x ∈ a :: l) : (heap x).next ∈ a :: l := by
  obtain ⟨b, hb, hnext⟩ := Ring.exists_next h hx
  rw [Option.some.inj hnext]
  exact hb

/-- The node before a node or before the head. -/
theorem prev_mem (h : IsList heap a l) (hx : x ∈ a :: l) : (heap x).prev ∈ a :: l := by
  obtain ⟨b, hb, hprev⟩ := Ring.exists_prev h hx
  rw [Option.some.inj hprev]
  exact hb

theorem prev_next (h : IsList heap a l) (hx : x ∈ a :: l) : (heap (heap x).next).prev = x := by
  have hring : Ring (fun x => some (heap x).next) (fun x => some (heap x).prev) a l := h
  exact Option.some.inj (hring.prev_of_next hx rfl)

theorem next_prev (h : IsList heap a l) (hx : x ∈ a :: l) : (heap (heap x).prev).next = x := by
  have hring : Ring (fun x => some (heap x).next) (fun x => some (heap x).prev) a l := h
  have hx' : x ∈ a :: l.reverse := by simpa using hx
  exact Option.some.inj (hring.symm.prev_of_next hx' rfl)

/-- The nodes are those that the pointers `next` lead to. -/
theorem mem_iff_next (h : IsList heap a l) :
    x ∈ a :: l ↔ ∃ n, (fun y => (heap y).next)^[n] a = x :=
  Ring.mem_iff_iterate h

/-- The nodes are those that the pointers `prev` lead to. -/
theorem mem_iff_prev (h : IsList heap a l) :
    x ∈ a :: l ↔ ∃ n, (fun y => (heap y).prev)^[n] a = x := by
  have hmem : x ∈ a :: l ↔ x ∈ a :: l.reverse := by simp
  rw [hmem]
  exact Ring.mem_iff_iterate (Ring.symm h)

end IsList

variable [DecidableEq α]

/-- The traversal from a node on visits the rest of the nodes. -/
theorem hurdListEachFrom_eq {b : α} (h : Seg (fun x => some (heap x).next) b l a)
    (ha : a ∉ l) {fuel : ℕ} (hfuel : l.length < fuel) :
    hurdListEachFrom heap a fuel b = some l := by
  induction h generalizing fuel with
  | nil a =>
      obtain ⟨fuel, rfl⟩ := Nat.exists_eq_add_of_lt hfuel
      simp [hurdListEachFrom]
  | @cons b c d l hb hl ih =>
      obtain ⟨hne, ha⟩ : d ≠ b ∧ d ∉ l := by simpa using ha
      obtain ⟨fuel, rfl⟩ : ∃ n, fuel = n + 1 := ⟨fuel - 1, by omega⟩
      cases hb
      have hfuel' : l.length < fuel := by simpa using hfuel
      have hrest := ih ha hfuel'
      show (if b = d then some [] else _) = _
      rw [if_neg hne.symm, hrest]
      rfl

/-- The traversal ends at the head, after it has visited the nodes in their order. -/
theorem hurdListEach_eq (h : IsList heap a l) {fuel : ℕ} (hfuel : l.length < fuel) :
    hurdListEach heap a fuel = some l := by
  obtain ⟨-, b, hb, hl⟩ := Seg.cons_iff.mp h.next
  cases hb
  exact hurdListEachFrom_eq hl (List.nodup_cons.mp h.nodup).1 hfuel

/-- `hurd_list_init` makes an empty list of its head. -/
theorem isList_init (heap : Heap α) (a : α) : IsList (hurdListInit heap a) a [] := by
  apply Ring.nil
  · simp [hurdListInit]
  · simp [hurdListInit]

section Add

variable (heap : Heap α) (p n x y : α)

theorem hurdListAdd_next : (hurdListAdd heap p n x y).next =
    if y = p then x else if y = x then n else (heap y).next := by
  simp [hurdListAdd]

theorem hurdListAdd_prev : (hurdListAdd heap p n x y).prev =
    if y = x then p else if y = n then x else (heap y).prev := by
  simp [hurdListAdd]

end Add

/-- `hurd_list_add` writes to the neighbours and to the node itself. -/
theorem hurdListAdd_of_ne {p n : α} (hp : y ≠ p) (hn : y ≠ n) (hx : y ≠ x) :
    hurdListAdd heap p n x y = heap y := by
  rw [hurdListAdd, setPrev_of_ne hx, setNext_of_ne hp, setNext_of_ne hx, setPrev_of_ne hn]

/-- What `hurd_list_del` leaves, for a node that is not the one before itself. -/
theorem hurdListDel_eq (hx : x ≠ (heap x).prev) : hurdListDel heap x =
    (heap.setNext (heap x).prev (heap x).next).setPrev (heap x).next (heap x).prev := by
  show Heap.setPrev _ ((heap.setNext _ _) x).next ((heap.setNext _ _) x).prev = _
  rw [setNext_of_ne hx]

/-- `hurd_list_del` writes to the neighbours. -/
theorem hurdListDel_of_ne (hx : x ≠ (heap x).prev) (hp : y ≠ (heap x).prev)
    (hn : y ≠ (heap x).next) : hurdListDel heap x y = heap y := by
  rw [hurdListDel_eq hx, setPrev_of_ne hn, setNext_of_ne hp]

/-- What an operation does to the nodes of a list. -/
def Op.apply (l : List α) : Op α → List α
  | .addHead x => x :: l
  | .addTail x => l ++ [x]
  | .del x => l.erase x

/-- A node is added that is not in the list, and removed when it is. -/
def Op.Valid (a : α) (l : List α) : Op α → Prop
  | .addHead x => x ∉ a :: l
  | .addTail x => x ∉ a :: l
  | .del x => x ∈ l

/-- `hurd_list_add_head` puts the node before all others. -/
theorem isList_addHead (h : IsList heap a l) (hx : x ∉ a :: l) :
    IsList (hurdListAddHead heap a x) a (x :: l) := by
  have hxa : x ≠ a := by
    rintro rfl
    exact hx List.mem_cons_self
  have hxn : x ≠ (heap a).next := by
    rintro rfl
    exact hx (h.next_mem List.mem_cons_self)
  apply Ring.cons h hx (b := (heap a).next) rfl
  · simp [hurdListAddHead, hurdListAdd_next]
  · simp [hurdListAddHead, hurdListAdd_next, hxa]
  · intro y hya hyx
    simp [hurdListAddHead, hurdListAdd_next, hya, hyx]
  · simp [hurdListAddHead, hurdListAdd_prev, hxn.symm]
  · simp [hurdListAddHead, hurdListAdd_prev]
  · intro y hyn hyx
    simp [hurdListAddHead, hurdListAdd_prev, hyn, hyx]

/-- `hurd_list_add_tail` puts the node behind all others. -/
theorem isList_addTail (h : IsList heap a l) (hx : x ∉ a :: l) :
    IsList (hurdListAddTail heap a x) a (l ++ [x]) := by
  have hxa : x ≠ a := by
    rintro rfl
    exact hx List.mem_cons_self
  have hxp : x ≠ (heap a).prev := by
    rintro rfl
    exact hx (h.prev_mem List.mem_cons_self)
  apply Ring.concat h hx (b := (heap a).prev) rfl
  · simp [hurdListAddTail, hurdListAdd_next]
  · simp [hurdListAddTail, hurdListAdd_next, hxp]
  · intro y hyp hyx
    simp [hurdListAddTail, hurdListAdd_next, hyp, hyx]
  · simp [hurdListAddTail, hurdListAdd_prev, hxa.symm]
  · simp [hurdListAddTail, hurdListAdd_prev]
  · intro y hya hyx
    simp [hurdListAddTail, hurdListAdd_prev, hya, hyx]

/-- `hurd_list_del` takes the node out. Its own pointers stay as they are. -/
theorem isList_del (h : IsList heap a l) (hx : x ∈ l) :
    IsList (hurdListDel heap x) a (l.erase x) := by
  have hne : x ≠ (heap x).prev := Ring.ne_prev h hx rfl
  apply Ring.erase h hx (b := (heap x).next) (c := (heap x).prev) rfl rfl
  · simp [hurdListDel_eq hne]
  · intro y hy
    simp [hurdListDel_eq hne, hy]
  · simp [hurdListDel_eq hne]
  · intro y hy
    simp [hurdListDel_eq hne, hy]

/-- An operation does to the list what it does to the sequence of its nodes. -/
theorem isList_exec (h : IsList heap a l) {op : Op α} (hop : op.Valid a l) :
    IsList (op.exec a heap) a (op.apply l) := by
  cases op with
  | addHead x => exact isList_addHead h hop
  | addTail x => exact isList_addTail h hop
  | del x => exact isList_del h hop

/-- An operation changes no node but its own and those of the list. -/
theorem exec_frame (h : IsList heap a l) {op : Op α} (hop : op.Valid a l)
    (hy : y ∉ a :: l) (hne : y ≠ op.node) : op.exec a heap y = heap y := by
  have hout : ∀ z ∈ a :: l, y ≠ z := by
    rintro z hz rfl
    exact hy hz
  have hhead : a ∈ a :: l := List.mem_cons_self
  cases op with
  | addHead x => exact hurdListAdd_of_ne (hout a hhead) (hout _ (h.next_mem hhead)) hne
  | addTail x => exact hurdListAdd_of_ne (hout _ (h.prev_mem hhead)) (hout a hhead) hne
  | del x =>
      have hx : x ∈ a :: l := List.mem_cons_of_mem a hop
      have hself : x ≠ (heap x).prev := Ring.ne_prev h hop rfl
      exact hurdListDel_of_ne hself (hout _ (h.prev_mem hx)) (hout _ (h.next_mem hx))

/-- The nodes after a number of operations. -/
def nodes (l : List α) (ops : List (Op α)) : List α :=
  ops.foldl Op.apply l

/-- Each operation adds a node that is not in the list then, or removes one that is. -/
def ValidRun (a : α) : List α → List (Op α) → Prop
  | _, [] => True
  | l, op :: ops => op.Valid a l ∧ ValidRun a (op.apply l) ops

/-- The list after a run has the nodes that the operations give. -/
theorem isList_run (h : IsList heap a l) {ops : List (Op α)} (hops : ValidRun a l ops) :
    IsList (run a heap ops) a (nodes l ops) := by
  induction ops generalizing heap l with
  | nil => exact h
  | cons op ops ih => exact ih (isList_exec h hops.1) hops.2

/-- A run is valid when its beginning is, and the rest from there on. -/
theorem validRun_append {ops ops' : List (Op α)} :
    ValidRun a l (ops ++ ops') ↔ ValidRun a l ops ∧ ValidRun a (nodes l ops) ops' := by
  induction ops generalizing l with
  | nil => simp [ValidRun, nodes]
  | cons op ops ih => simp [ValidRun, nodes, ih, and_assoc]

/-- After every run, the list is well formed, a traversal yields the nodes that the operations
give and ends at the head, and every operation of the run has left all nodes alone that are
neither in the list nor its own. -/
theorem hurd_list_refines_sequence (heap : Heap α) (a : α) (l : List α)
    (h : IsList heap a l) (ops : List (Op α)) (hops : ValidRun a l ops) :
    IsList (run a heap ops) a (nodes l ops) ∧
      (∀ x ∈ a :: nodes l ops,
        (run a heap ops (run a heap ops x).next).prev = x ∧
          (run a heap ops (run a heap ops x).prev).next = x) ∧
      (∀ x, x ∈ a :: nodes l ops ↔ ∃ n, (fun y => (run a heap ops y).next)^[n] a = x) ∧
      (∀ x, x ∈ a :: nodes l ops ↔ ∃ n, (fun y => (run a heap ops y).prev)^[n] a = x) ∧
      (∀ fuel, (nodes l ops).length < fuel →
        hurdListEach (run a heap ops) a fuel = some (nodes l ops)) ∧
      ∀ ops₁ op ops₂, ops = ops₁ ++ op :: ops₂ → ∀ y, y ∉ a :: nodes l ops₁ → y ≠ op.node →
        run a heap (ops₁ ++ [op]) y = run a heap ops₁ y := by
  have hlist := isList_run h hops
  refine ⟨hlist, fun x hx => ⟨hlist.prev_next hx, hlist.next_prev hx⟩,
    fun x => hlist.mem_iff_next, fun x => hlist.mem_iff_prev,
    fun fuel hfuel => hurdListEach_eq hlist hfuel, ?_⟩
  rintro ops₁ op ops₂ rfl y hy hne
  obtain ⟨hbefore, hrest⟩ := validRun_append.mp hops
  rw [run, List.foldl_append]
  exact exec_frame (isList_run h hbefore) hrest.1 hy hne

/-- Two nodes come into an empty list, one at each end, and the first one leaves again. -/
theorem hurd_list_refines_three :
    hurdListEach (run 0 (hurdListInit (fun x : Fin 3 => ⟨x, x⟩) 0)
      [.addTail 1, .addHead 2, .del 1]) 0 2 = some [2] := by
  have hops : ValidRun (0 : Fin 3) [] [.addTail 1, .addHead 2, .del 1] := by
    simp [ValidRun, Op.Valid, Op.apply]
  have hinit : IsList (hurdListInit (fun x : Fin 3 => ⟨x, x⟩) 0) 0 [] := isList_init _ 0
  have h := hurd_list_refines_sequence _ 0 [] hinit _ hops
  exact h.2.2.2.2.1 2 (by decide)

end Hlpt.Lists
