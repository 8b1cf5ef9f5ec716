import Hlpt.Lib.Links
import Mathlib.Logic.Function.Iterate

/-!
# `Hlpt.Lib.Ring`: circular lists with links both ways

`Ring next prev a l` says that the pointers `next` lead from the node `a` through the
nodes `l` back to `a`, that the pointers `prev` lead the same way round backwards, and that
no node comes twice. `a` is the head, which is a node of the ring but no element.

* `Ring.nil`: a head that points to itself.
* `Ring.prev_of_next`: the pointers are inverse to each other.
* `Ring.concat` and `Ring.cons`: a node that is linked in at either end.
* `Ring.erase`: a node that is taken out.

The operations are told by what they leave in the pointers, so the order of the writes is
a matter of the caller.
-/

set_option autoImplicit false

namespace Hlpt.Lib

universe u

variable {α : Type u} {next next' prev prev' : α → Option α} {a b c x y : α} {l l' : List α}

namespace Seg

/-- A segment begins with the place that it leads from. -/
theorem head (h : Seg next a l b) : ∃ t, l ++ [b] = a :: t := by
  cases h with
  | nil => exact ⟨[], rfl⟩
  | cons h hl => exact ⟨_, rfl⟩

/-- A segment that ends in `a`, read backwards, ends with the place that it leads from. -/
theorem head_reverse (h : Seg next b l.reverse a) : ∃ init, a :: l = init ++ [b] := by
  obtain ⟨t, ht⟩ := h.head
  refine ⟨t.reverse, ?_⟩
  rw [← List.reverse_inj, List.reverse_append, List.reverse_reverse, List.reverse_cons, ht]
  rfl

/-- What follows a node of a segment. -/
theorem behind (h : Seg next a (l ++ x :: l') b) (hx : next x = some c) : Seg next c l' b := by
  obtain ⟨y, -, hy⟩ := h.split
  obtain ⟨-, d, hd, hl⟩ := cons_iff.mp hy
  obtain rfl := Option.some.inj (hx.symm.trans hd)
  exact hl

/-- Every node of a segment points to another one or to the end. -/
theorem link (h : Seg next a l b) (hx : x ∈ l) : ∃ c, next x = some c ∧ (c ∈ l ∨ c = b) := by
  induction h with
  | nil => cases hx
  | @cons a d b l hd hl ih =>
      rcases List.mem_cons.mp hx with rfl | hx
      · refine ⟨d, hd, ?_⟩
        cases hl with
        | nil => exact .inr rfl
        | cons => exact .inl (by simp)
      · obtain ⟨c, hc, hmem⟩ := ih hx
        exact ⟨c, hc, hmem.imp_left (List.mem_cons_of_mem a)⟩

/-- The last node of a segment points to its end. -/
theorem last (h : Seg next a (l ++ [x]) b) : Seg next a l x ∧ next x = some b := by
  obtain ⟨y, hl, hx⟩ := h.split
  obtain ⟨rfl, z, hz, hnil⟩ := cons_iff.mp hx
  obtain rfl := nil_iff.mp hnil
  exact ⟨hl, hz⟩

/-- A node of a segment points to the one that comes behind it. -/
theorem adjacent {l₁ l₂ : List α} (h : Seg next a l b) (heq : l ++ [b] = l₁ ++ x :: y :: l₂) :
    next x = some y := by
  induction h generalizing l₁ with
  | nil a => simp [List.singleton_eq_append_iff] at heq
  | @cons a d b l hd hl ih =>
      cases l₁ with
      | nil =>
          obtain ⟨rfl, htail⟩ := List.cons.inj heq
          obtain ⟨t, ht⟩ := hl.head
          obtain rfl : y = d := (List.cons.inj (htail.symm.trans ht)).1
          exact hd
      | cons z l₁ => exact ih (List.cons.inj heq).2

/-- Every node of a segment has a place behind it. -/
theorem exists_adjacent (h : Seg next a l b) (hx : x ∈ l) :
    ∃ y l₁ l₂, l ++ [b] = l₁ ++ x :: y :: l₂ ∧ next x = some y := by
  obtain ⟨l₁, l₂, rfl⟩ := List.append_of_mem hx
  have hcons : ∃ y t, l₂ ++ [b] = y :: t := by
    cases l₂ with
    | nil => exact ⟨b, [], rfl⟩
    | cons y t => exact ⟨y, t ++ [b], rfl⟩
  obtain ⟨y, t, ht⟩ := hcons
  have heq : l₁ ++ x :: l₂ ++ [b] = l₁ ++ x :: y :: t := by simp [ht]
  exact ⟨y, l₁, t, heq, h.adjacent heq⟩

/-- A walk along pointers that are never NULL comes to every node of a segment. -/
theorem exists_iterate {f : α → α} (h : Seg (fun x => some (f x)) a l b) (hx : x ∈ l) :
    ∃ n, f^[n] a = x := by
  induction h with
  | nil => cases hx
  | @cons a d b l hd hl ih =>
      rcases List.mem_cons.mp hx with rfl | hx
      · exact ⟨0, rfl⟩
      · obtain ⟨n, hn⟩ := ih hx
        cases hd
        exact ⟨n + 1, hn⟩

/-- The last node of a segment is made to point elsewhere. -/
theorem redirect (h : Seg next a (l ++ [x]) b) (hx : x ∉ l) (hnext : next' x = some c)
    (hrest : ∀ y, y ≠ x → next' y = next y) : Seg next' a (l ++ [x]) c := by
  refine Seg.concat (h.last.1.congr fun y hy => hrest y ?_) hnext
  rintro rfl
  exact hx hy

end Seg

/-- The nodes `l` form a ring with the head `a`. -/
structure Ring (next prev : α → Option α) (a : α) (l : List α) : Prop where
  next : Seg next a (a :: l) a
  prev : Seg prev a (a :: l.reverse) a
  nodup : (a :: l).Nodup

namespace Ring

/-- A head alone. -/
theorem nil (hn : next a = some a) (hp : prev a = some a) : Ring next prev a [] :=
  ⟨.cons hn (.nil a), .cons hp (.nil a), by simp⟩

/-- A ring depends on the pointers in its nodes only. -/
theorem congr (h : Ring next prev a l) (hn : ∀ x ∈ a :: l, next' x = next x)
    (hp : ∀ x ∈ a :: l, prev' x = prev x) : Ring next' prev' a l := by
  refine ⟨h.next.congr hn, h.prev.congr fun x hx => hp x ?_, h.nodup⟩
  simpa using hx

/-- The same ring walked the other way round. -/
theorem symm (h : Ring next prev a l) : Ring prev next a l.reverse := by
  refine ⟨h.prev, ?_, ?_⟩
  · rw [List.reverse_reverse]
    exact h.next
  · have hperm : (a :: l.reverse).Perm (a :: l) := l.reverse_perm.cons a
    exact hperm.nodup_iff.mpr h.nodup

/-- The node before the head is the last one. -/
theorem concat_of_prev (h : Ring next prev a l) (hp : prev a = some b) :
    ∃ init, a :: l = init ++ [b] := by
  obtain ⟨-, b', hb', hl⟩ := Seg.cons_iff.mp h.prev
  obtain rfl := Option.some.inj (hp.symm.trans hb')
  exact hl.head_reverse

/-- Every node points forwards to a node. -/
theorem exists_next (h : Ring next prev a l) (hx : x ∈ a :: l) :
    ∃ b ∈ a :: l, next x = some b := by
  obtain ⟨b, hb, hmem⟩ := h.next.link hx
  refine ⟨b, ?_, hb⟩
  rcases hmem with hmem | rfl
  · exact hmem
  · exact List.mem_cons_self

/-- Every node points backwards to a node. -/
theorem exists_prev (h : Ring next prev a l) (hx : x ∈ a :: l) :
    ∃ b ∈ a :: l, prev x = some b := by
  have hx' : x ∈ a :: l.reverse := by simpa using hx
  obtain ⟨b, hmem, hb⟩ := h.symm.exists_next hx'
  exact ⟨b, by simpa using hmem, hb⟩

/-- What a node points to points back to it. -/
theorem prev_of_next (h : Ring next prev a l) (hx : x ∈ a :: l) (hy : next x = some y) :
    prev y = some x := by
  obtain ⟨y', l₁, l₂, heq, hy'⟩ := h.next.exists_adjacent hx
  obtain rfl := Option.some.inj (hy.symm.trans hy')
  -- Read backwards, the two are neighbours the other way round.
  have hrev : a :: l.reverse ++ [a] = l₂.reverse ++ y :: x :: l₁.reverse := by
    have hcongr := congrArg List.reverse heq
    simpa using hcongr
  exact h.prev.adjacent hrev

/-- The nodes of a ring without NULL pointers are those that a walk from the head comes to. -/
theorem mem_iff_iterate {f : α → α} (h : Ring (fun x => some (f x)) prev a l) :
    x ∈ a :: l ↔ ∃ n, f^[n] a = x := by
  constructor
  · exact h.next.exists_iterate
  · rintro ⟨n, rfl⟩
    induction n with
    | zero => exact List.mem_cons_self
    | succ n ih =>
        obtain ⟨b, hb, hnext⟩ := h.exists_next ih
        cases hnext
        rw [Function.iterate_succ_apply']
        exact hb

/-- No element of a ring is its own neighbour. -/
theorem ne_next (h : Ring next prev a l) (hx : x ∈ l) (hb : next x = some b) : x ≠ b := by
  rintro rfl
  obtain ⟨l₁, l₂, rfl⟩ := List.append_of_mem hx
  obtain ⟨t, ht⟩ := (h.next.behind (l := a :: l₁) hb).head
  have hnodup := h.nodup
  cases l₂ with
  | nil =>
      obtain rfl : a = x := (List.cons.inj ht).1
      exact (List.nodup_cons.mp hnodup).1 hx
  | cons y l₂ =>
      obtain rfl : y = x := (List.cons.inj ht).1
      have hl := (List.nodup_append.mp (List.nodup_cons.mp hnodup).2).2.1
      exact (List.nodup_cons.mp hl).1 List.mem_cons_self

theorem ne_prev (h : Ring next prev a l) (hx : x ∈ l) (hb : prev x = some b) : x ≠ b :=
  h.symm.ne_next (List.mem_reverse.mpr hx) hb

/-- The new node `x` is linked in behind the last node `b`. -/
theorem concat (h : Ring next prev a l) (hx : x ∉ a :: l) (hb : prev a = some b)
    (hn : next' b = some x) (hnx : next' x = some a)
    (hnext : ∀ y, y ≠ b → y ≠ x → next' y = next y)
    (hp : prev' a = some x) (hpx : prev' x = some b)
    (hprev : ∀ y, y ≠ a → y ≠ x → prev' y = prev y) : Ring next' prev' a (l ++ [x]) := by
  obtain ⟨init, hinit⟩ := h.concat_of_prev hb
  have hnodup := h.nodup
  constructor
  · -- Forwards, the last node points to the new one now.
    have hseg := h.next
    rw [hinit] at hseg hnodup hx
    rw [← List.cons_append, hinit]
    refine Seg.concat (Seg.concat (hseg.last.1.congr fun y hy => hnext y ?_ ?_) hn) hnx
    · rintro rfl
      exact (List.nodup_append.mp hnodup).2.2 y hy y List.mem_cons_self rfl
    · rintro rfl
      exact hx (List.mem_append_left _ hy)
  · -- Backwards, the head and the new node are the first two.
    obtain ⟨-, b', hb', hl⟩ := Seg.cons_iff.mp h.prev
    obtain rfl := Option.some.inj (hb.symm.trans hb')
    rw [List.reverse_append]
    refine .cons hp (.cons hpx (hl.congr fun y hy => hprev y ?_ ?_))
    · rintro rfl
      exact (List.nodup_cons.mp hnodup).1 (List.mem_reverse.mp hy)
    · rintro rfl
      exact hx (List.mem_cons_of_mem _ (List.mem_reverse.mp hy))
  · rw [← List.cons_append]
    refine List.nodup_append.mpr ⟨hnodup, by simp, ?_⟩
    rintro y hy z hz rfl
    exact hx (List.mem_singleton.mp hz ▸ hy)

/-- The new node `x` is linked in before the first node `b`. -/
theorem cons (h : Ring next prev a l) (hx : x ∉ a :: l) (hb : next a = some b)
    (hn : next' a = some x) (hnx : next' x = some b)
    (hnext : ∀ y, y ≠ a → y ≠ x → next' y = next y)
    (hp : prev' b = some x) (hpx : prev' x = some a)
    (hprev : ∀ y, y ≠ b → y ≠ x → prev' y = prev y) : Ring next' prev' a (x :: l) := by
  have hx' : x ∉ a :: l.reverse := by simpa using hx
  -- Walked the other way round, the node comes behind the last one.
  have hring := (h.symm.concat hx' hb hp hpx hprev hn hnx hnext).symm
  rw [List.reverse_append, List.reverse_reverse] at hring
  exact hring

/-- The pointers of one direction, when the node `x` is skipped. -/
theorem skip (hseg : Seg next a (a :: (l ++ x :: l')) a) (hnodup : (a :: (l ++ x :: l')).Nodup)
    (hc : ∃ init, a :: l = init ++ [c]) (hb : next x = some b) (hn : next' c = some b)
    (hnext : ∀ y, y ≠ c → next' y = next y) : Seg next' a (a :: (l ++ l')) a := by
  obtain ⟨init, hinit⟩ := hc
  rw [← List.cons_append, hinit] at hseg hnodup
  obtain ⟨x', hl, hx⟩ := hseg.split
  obtain ⟨rfl, b', hb', hl'⟩ := Seg.cons_iff.mp hx
  obtain rfl := Option.some.inj (hb.symm.trans hb')
  obtain ⟨hinit', -, hdisj⟩ := List.nodup_append.mp hnodup
  have hleft : Seg next' a (init ++ [c]) b := by
    refine hl.redirect ?_ hn hnext
    intro hmem
    exact (List.nodup_append.mp hinit').2.2 c hmem c List.mem_cons_self rfl
  rw [← List.cons_append, hinit]
  refine hleft.append (hl'.congr fun y hy => hnext y ?_)
  rintro rfl
  exact hdisj y (List.mem_append_right _ List.mem_cons_self) y (List.mem_cons_of_mem _ hy) rfl

variable [DecidableEq α]

/-- The node `x` is taken out: the node before it and the one behind it are linked. -/
theorem erase (h : Ring next prev a l) (hx : x ∈ l) (hb : next x = some b)
    (hc : prev x = some c) (hn : next' c = some b) (hnext : ∀ y, y ≠ c → next' y = next y)
    (hp : prev' b = some c) (hprev : ∀ y, y ≠ b → prev' y = prev y) :
    Ring next' prev' a (l.erase x) := by
  obtain ⟨l₁, l₂, rfl⟩ := List.append_of_mem hx
  have hnodup := h.nodup
  have hx₁ : x ∉ l₁ := by
    intro hmem
    have hl := (List.nodup_cons.mp hnodup).2
    exact (List.nodup_append.mp hl).2.2 x hmem x List.mem_cons_self rfl
  have herase : (l₁ ++ x :: l₂).erase x = l₁ ++ l₂ := by
    rw [List.erase_append_right _ hx₁, List.erase_cons_head]
  have hrev : (l₁ ++ x :: l₂).reverse = l₂.reverse ++ x :: l₁.reverse := by simp
  have hsymm := h.symm
  rw [hrev] at hsymm
  have hbefore : ∃ init, a :: l₁ = init ++ [c] :=
    (hsymm.next.behind (l := a :: l₂.reverse) hc).head_reverse
  have hbehind : ∃ init, a :: l₂.reverse = init ++ [b] := by
    have hseg : Seg next b l₂.reverse.reverse a := by
      rw [List.reverse_reverse]
      exact h.next.behind (l := a :: l₁) hb
    exact hseg.head_reverse
  rw [herase]
  refine ⟨skip h.next hnodup hbefore hb hn hnext, ?_, ?_⟩
  · rw [List.reverse_append]
    exact skip hsymm.next hsymm.nodup hbehind hc hp hprev
  · refine hnodup.sublist (List.Sublist.cons_cons a ?_)
    exact List.Sublist.append_left (List.sublist_cons_self x l₂) l₁

end Ring

end Hlpt.Lib
