import Hlpt.Lib.Threads
import Mathlib.Data.BitVec

/-!
# `Hlpt.TlsList.Model`: the free list of the TCBs, from `create.c`

A thread descriptor gets its TCB from `alloc_tls` and gives it back with `dealloc_tls`. The
TCBs that were given back are linked through their first word, and `tls_list` points to the
first of them. Both functions change `tls_list` with a compare-and-swap only.

The calls for one descriptor come one after the other, from its creator and then from the
thread itself. So each descriptor is one thread of the machine here, whoever runs it. Every
access to `tls_list` or to the first word of a TCB is one step of `exec`.

`_dl_allocate_tls` returns its argument, and a new block when that is NULL, or fails.
`SETUP_TCB` lets the first word of a TCB point to the TCB itself. Nothing else that happens
to a TCB in use is of interest here.
-/

set_option autoImplicit false

namespace Hlpt.TlsList

open Hlpt.Lib

universe u

/-- The address of a TCB. NULL is 0. -/
abbrev Addr := BitVec 32

/-- The control points of a descriptor, each before one access. `a` is `pt->tcb`. -/
inductive Pc where
  /-- The descriptor has no TCB. -/
  | unused
  /-- `(pt->tcb = tls_list) == NULL` -/
  | allocHead
  /-- `next = *(void **)pt->tcb` -/
  | allocNext (a : Addr)
  /-- `atomic_cas_bool (&tls_list, pt->tcb, next)` -/
  | allocCas (a next : Addr)
  /-- `pt->tcb = _dl_allocate_tls (pt->tcb)` -/
  | allocTls (a : Addr)
  /-- `SETUP_TCB (pt->tcb, pt, ktid)` -/
  | setup (a : Addr)
  /-- The descriptor has its TCB: `alloc_tls` has returned, and `dealloc_tls` was not
  called. -/
  | held (a : Addr)
  /-- `tmp = tls_list` in `dealloc_tls` -/
  | pushHead (a : Addr)
  /-- `*(void **)pt->tcb = tmp` -/
  | pushStore (a tmp : Addr)
  /-- `atomic_cas_bool (&tls_list, tmp, pt->tcb)` -/
  | pushCas (a tmp : Addr)
  deriving DecidableEq, Repr

/-- `tls_list`, the first word of each block, and the blocks that were allocated as TCBs. -/
structure Mem where
  tlsList : Addr
  word : Addr → Addr
  blocks : Finset Addr

/-- What `_dl_allocate_tls` returns for NULL, and what is in the first word there. -/
structure Choice where
  fresh : Addr := 0
  word : Addr := 0

variable {T : Type u} [DecidableEq T]

/-- The next access for a descriptor. -/
def exec : Exec T Choice Mem Pc := fun _ c m pc =>
  match pc with
  | .unused => some (m, .allocHead)
  | .allocHead => some (m, if m.tlsList = 0 then .allocTls 0 else .allocNext m.tlsList)
  | .allocNext a => some (m, .allocCas a (m.word a))
  | .allocCas a next =>
      if m.tlsList = a then some ({ m with tlsList := next }, .allocTls a)
      else some (m, .allocHead)
  | .allocTls a =>
      if a ≠ 0 then some (m, .setup a)
      else if c.fresh = 0 then some (m, .unused)
      else if c.fresh ∈ m.blocks then none
      else
        some ({ m with
          word := Function.update m.word c.fresh c.word
          blocks := insert c.fresh m.blocks }, .setup c.fresh)
  | .setup a => some ({ m with word := Function.update m.word a a }, .held a)
  | .held a => some (m, .pushHead a)
  | .pushHead a => some (m, .pushStore a m.tlsList)
  | .pushStore a tmp => some ({ m with word := Function.update m.word a tmp }, .pushCas a tmp)
  | .pushCas a tmp =>
      if m.tlsList = tmp then some ({ m with tlsList := a }, .unused)
      else some (m, .pushHead a)

/-- The main thread has the TCB that it was started with, and no other descriptor has one. -/
def IsInit (main : T) (s : Global T Mem Pc) : Prop :=
  ∃ a word, a ≠ 0 ∧ s.mem = ⟨0, word, {a}⟩ ∧
    ∀ t, s.loc t = if t = main then .held a else .unused

/-- The descriptors of a process. -/
def machine (main : T) : Machine (Global T Mem Pc) (T × Choice) := exec.machine (IsInit main)

end Hlpt.TlsList
