import Mathlib.Data.List.Basic

/-!
# `Hlpt.Lib.Links`: nodes that are linked by pointers

A linked list lies in memory as nodes, each with a pointer to the next one. `next a` is the
pointer in the node at `a`, and `none` when there is no node. `Seg next a l b` says that
the pointers lead from `a` through the nodes `l` to `b`: `b` is NULL for a list that ends,
and the first node for one that is circular.

* `Seg.congr`: a write outside of the segment leaves it.
* `Seg.append` and `Seg.split`: segments one after the other.
* `Seg.unique`: one place leads through one list to the end.
-/

set_option autoImplicit false

namespace Hlpt.Lib

universe u

variable {α : Type u} {next next' : α → Option α} {a b c x : α} {l l' : List α}

/-- The pointers lead from `a` through the nodes `l` to `b`. -/
inductive Seg (next : α → Option α) : α → List α → α → Prop
  | nil (a : α) : Seg next a [] a
  | cons {a b c : α} {l : List α} (h : next a = some b) (hl : Seg next b l c) :
      Seg next a (a :: l) c

namespace Seg

/-- An empty segment. -/
theorem nil_iff : Seg next a [] b ↔ a = b := by
  constructor
  · intro h
    cases h
    rfl
  · rintro rfl
    exact .nil a

/-- A segment with a first node. -/
theorem cons_iff : Seg next a (x :: l) c ↔ a = x ∧ ∃ b, next x = some b ∧ Seg next b l c := by
  constructor
  · intro h
    cases h with
    | cons h hl => exact ⟨rfl, _, h, hl⟩
  · rintro ⟨rfl, b, h, hl⟩
    exact .cons h hl

/-- A segment depends on the pointers in its nodes only. -/
theorem congr (h : Seg next a l b) (heq : ∀ x ∈ l, next' x = next x) : Seg next' a l b := by
  induction h with
  | nil a => exact .nil a
  | cons h hl ih =>
      refine .cons ((heq _ List.mem_cons_self).trans h) (ih fun x hx => ?_)
      exact heq x (List.mem_cons_of_mem _ hx)

/-- A segment and one that starts where it ends. -/
theorem append (h : Seg next a l b) (h' : Seg next b l' c) : Seg next a (l ++ l') c := by
  induction h with
  | nil a => exact h'
  | cons h hl ih => exact .cons h (ih h')

/-- A segment and one more node. -/
theorem concat (h : Seg next a l b) (hb : next b = some c) : Seg next a (l ++ [b]) c :=
  h.append (.cons hb (.nil c))

/-- A segment ends somewhere in between, too. -/
theorem split (h : Seg next a (l ++ l') c) : ∃ b, Seg next a l b ∧ Seg next b l' c := by
  induction l generalizing a with
  | nil => exact ⟨a, .nil a, h⟩
  | cons x l ih =>
      obtain ⟨rfl, b, hb, hl⟩ := cons_iff.mp h
      obtain ⟨d, hl, hl'⟩ := ih hl
      exact ⟨d, .cons hb hl, hl'⟩

/-- One place leads through one list to an end that is not among the nodes. -/
theorem unique (h : Seg next a l b) (h' : Seg next a l' b) (hb : b ∉ l) (hb' : b ∉ l') :
    l = l' := by
  induction h generalizing l' with
  | nil a =>
      cases h' with
      | nil => rfl
      | cons => exact absurd List.mem_cons_self hb'
  | @cons a d c l hd hl ih =>
      cases h' with
      | nil => exact absurd List.mem_cons_self hb
      | @cons _ d' _ l' hd' hl' =>
          obtain rfl := Option.some.inj (hd.symm.trans hd')
          have htail := ih hl' (fun hc => hb (List.mem_cons_of_mem _ hc))
            fun hc => hb' (List.mem_cons_of_mem _ hc)
          rw [htail]

/-- A place that points nowhere is no node of a segment. -/
theorem notMem_of_none (h : Seg next a l b) (hx : next x = none) : x ∉ l := by
  induction h with
  | nil => exact List.not_mem_nil
  | cons hd hl ih =>
      intro hmem
      rcases List.mem_cons.mp hmem with rfl | hmem
      · rw [hx] at hd
        cases hd
      · exact ih hmem

/-- A list that ends does not come back to its first node. -/
theorem head_notMem (h : Seg next a (a :: l) b) (hb : next b = none) : a ∉ l := by
  intro hmem
  obtain ⟨l₁, l₂, rfl⟩ := List.append_of_mem hmem
  obtain ⟨y, -, hy⟩ := h.split (l := a :: l₁)
  obtain ⟨rfl, -⟩ := cons_iff.mp hy
  have hlen := congrArg List.length (h.unique hy (h.notMem_of_none hb) (hy.notMem_of_none hb))
  simp at hlen
  omega

end Seg

end Hlpt.Lib
