import Hlpt.Atfork.Model
import Hlpt.Lib.Links

/-!
# `Hlpt.Atfork.Order`: the order in which the fork handlers run

`pthread_atfork` puts a new node at the head of the list, and `atfork_last` stays at the
first one. So `pt_atfork_prepare`, which goes from `atfork_last` to the head, runs the
callbacks in the order of registration, and the two others run them in reverse. The manual
and the comment in `pt_atfork_prepare` have it the other way round.

* `Rep`: what the nodes look like after a list of registrations.
* `prepare_eq`, `parent_eq` and `child_eq`: the three loops end, and what they call.
* `atfork_order`: they call it in the documented order exactly when each of the three lists
  of callbacks reads the same in both directions.
-/

set_option autoImplicit false

namespace Hlpt.Atfork

open Hlpt.Lib

variable {rs : List Registration} {s s' : State} {r : Registration} {a hp b : Ptr} {l : List Ptr}
  {n : ℕ}

/-- The callbacks of one kind that are not NULL, in order of registration. -/
def calls (f : Registration → Ptr) (rs : List Registration) : List Ptr :=
  (rs.map f).filter (· ≠ 0)

/-- The first callback, and then the others. -/
theorem calls_cons (f : Registration → Ptr) :
    calls f (r :: rs) = call (f r) ++ calls f rs := by
  rw [calls, List.map_cons, List.filter_cons, call]
  by_cases h : f r = 0
  · rw [if_neg (by simpa using h), if_neg (not_not.mpr h)]
    rfl
  · rw [if_pos (by simpa using h), if_pos h]
    rfl

/-- One registration. -/
theorem calls_singleton (f : Registration → Ptr) : calls f [r] = call (f r) := by
  rw [calls_cons, calls, List.map_nil, List.filter_nil, List.append_nil]

/-- The callbacks of the registrations in reverse. -/
theorem calls_reverse (f : Registration → Ptr) :
    calls f rs.reverse = (calls f rs).reverse := by
  rw [calls, calls, List.map_reverse, List.filter_reverse]

/-- The documented order: the prepare callbacks in reverse order of registration, the others
in order. -/
structure InOrder (rs : List Registration) (s : State) : Prop where
  prepare : ∀ turns ≥ rs.length,
    ptAtforkPrepare turns s = some (calls Registration.prepare rs).reverse
  parent : ∀ turns ≥ rs.length, ptAtforkParent turns s = some (calls Registration.parent rs)
  child : ∀ turns ≥ rs.length,
    (ptAtforkChild turns s).map Prod.fst = some (calls Registration.child rs)

/-! ### The nodes in memory -/

/-- The pointers `next` of the nodes. -/
def nextOf (heap : Ptr → Option Handler) (p : Ptr) : Option Ptr := (heap p).map Handler.next

/-- The pointers `prev` of the nodes. -/
def prevOf (heap : Ptr → Option Handler) (p : Ptr) : Option Ptr := (heap p).map Handler.prev

/-- The node at `p` holds the callbacks of `r`. -/
def Holds (heap : Ptr → Option Handler) (r : Registration) (p : Ptr) : Prop :=
  (heap p).map Handler.toRegistration = some r

/-- The nodes `ps`, in order of registration. `next` leads from the newest to the oldest and
to NULL, and `prev` from the oldest to the newest. The `prev` of the newest was never
written. -/
structure Rep (rs : List Registration) (ps : List Ptr) (s : State) : Prop where
  nodes : List.Forall₂ (Holds s.heap) rs ps
  nodup : ps.Nodup
  null : 0 ∉ ps
  next : Seg (nextOf s.heap) s.handlers ps.reverse 0
  prev : ∃ b, Seg (prevOf s.heap) s.last ps b
  last : s.last = 0 ↔ ps = []

/-- Nodes that are there hold their callbacks when another node is written. -/
theorem holds_congr {heap heap' : Ptr → Option Handler} {ps : List Ptr}
    (h : List.Forall₂ (Holds heap) rs ps)
    (heq : ∀ p ∈ ps, (heap' p).map Handler.toRegistration = (heap p).map Handler.toRegistration) :
    List.Forall₂ (Holds heap') rs ps := by
  induction h with
  | nil => exact .nil
  | cons hr hl ih =>
      refine .cons ?_ (ih fun p hp => heq p (List.mem_cons_of_mem _ hp))
      exact (heq _ List.mem_cons_self).trans hr

/-- A node of the list is allocated. -/
theorem isSome_of_holds {heap : Ptr → Option Handler} {ps : List Ptr}
    (h : List.Forall₂ (Holds heap) rs ps) {p : Ptr} (hp : p ∈ ps) : (heap p).isSome := by
  induction h with
  | nil => cases hp
  | @cons r q _ _ hr hl ih =>
      rcases List.mem_cons.mp hp with rfl | hp
      · obtain ⟨h, hh, -⟩ := Option.map_eq_some_iff.mp hr
        rw [hh]
        rfl
      · exact ih hp

/-- The first node after the first registration. -/
theorem Rep.first {hp prev : Ptr} {heap : Ptr → Option Handler} (hne : hp ≠ 0)
    (hself : heap hp = some ⟨r, prev, 0⟩) : Rep [r] [hp] ⟨heap, hp, hp⟩ := by
  constructor
  · refine .cons ?_ .nil
    show (heap hp).map _ = _
    rw [hself]
    rfl
  · exact List.nodup_singleton hp
  · intro h0
    exact hne (List.mem_singleton.mp h0).symm
  · refine .cons (b := 0) ?_ (.nil 0)
    show (heap hp).map _ = _
    rw [hself]
    rfl
  · refine ⟨prev, .cons (b := prev) ?_ (.nil prev)⟩
    show (heap hp).map _ = _
    rw [hself]
    rfl
  · exact iff_of_false hne (List.cons_ne_nil _ _)

/-- A new node `hp` before the newest one, `q`: the other nodes stay. -/
theorem Rep.more {hp q : Ptr} (prev : Ptr) {qs : List Ptr} {hd : Handler}
    {heap : Ptr → Option Handler} (h : Rep rs (qs ++ [q]) s) (hne : hp ≠ 0)
    (hfree : s.heap hp = none) (hq : s.heap q = some hd)
    (hself : heap hp = some ⟨r, prev, s.handlers⟩)
    (hold : heap q = some { hd with prev := hp })
    (hat : ∀ p, p ≠ hp → p ≠ q → heap p = s.heap p) :
    Rep (rs ++ [r]) (qs ++ [q] ++ [hp]) ⟨heap, hp, s.last⟩ := by
  have hkeep : ∀ p ∈ qs ++ [q], p ≠ hp := by
    rintro p hmem rfl
    have hsome := isSome_of_holds h.nodes hmem
    rw [hfree] at hsome
    cases hsome
  have hqs : ∀ p ∈ qs, p ≠ q := fun p hmem =>
    (List.nodup_append.mp h.nodup).2.2 p hmem q List.mem_cons_self
  -- Only `prev` of the newest node has changed.
  have hkept : ∀ p ∈ qs ++ [q],
      (heap p).map Handler.toRegistration = (s.heap p).map Handler.toRegistration ∧
        (heap p).map Handler.next = (s.heap p).map Handler.next := by
    intro p hmem
    by_cases he : p = q
    · subst he
      rw [hold, hq]
      exact ⟨rfl, rfl⟩
    · rw [hat p (hkeep p hmem) he]
      exact ⟨rfl, rfl⟩
  constructor
  · refine List.rel_append (holds_congr h.nodes fun p hmem => (hkept p hmem).1) (.cons ?_ .nil)
    show (heap hp).map _ = _
    rw [hself]
    rfl
  · refine List.nodup_append.mpr ⟨h.nodup, List.nodup_singleton hp, ?_⟩
    intro x hx y hy
    rw [List.mem_singleton.mp hy]
    exact hkeep x hx
  · intro h0
    rcases List.mem_append.mp h0 with h0 | h0
    · exact h.null h0
    · exact hne (List.mem_singleton.mp h0).symm
  · rw [List.reverse_append, List.reverse_singleton]
    refine .cons (b := s.handlers) ?_ (h.next.congr fun p hmem => ?_)
    · show (heap hp).map _ = _
      rw [hself]
      rfl
    · exact (hkept p (List.mem_reverse.mp hmem)).2
  · -- `prev` led to the newest node before, and leads on to the new one now.
    obtain ⟨b, hseg⟩ := h.prev
    obtain ⟨q', hqseg, hlast⟩ := hseg.split
    obtain ⟨rfl, -⟩ := Seg.cons_iff.mp hlast
    have hqseg' : Seg (prevOf heap) s.last qs q' := by
      apply hqseg.congr
      intro p hmem
      exact congrArg (Option.map Handler.prev)
        (hat p (hkeep p (List.mem_append_left _ hmem)) (hqs p hmem))
    refine ⟨prev, (hqseg'.concat (c := hp) ?_).concat ?_⟩
    · rw [prevOf, hold]
      rfl
    · rw [prevOf, hself]
      rfl
  · refine iff_of_false ?_ (List.append_ne_nil_of_right_ne_nil _ (List.cons_ne_nil _ _))
    show ¬ s.last = 0
    rw [h.last]
    exact List.append_ne_nil_of_right_ne_nil _ (List.cons_ne_nil _ _)

/-- `pthread_atfork` puts the new node where the list says. -/
theorem Rep.atfork {ps : List Ptr} {m : Malloc} (h : Rep rs ps s)
    (hstep : pthreadAtfork r (some m) s = some (.ok, s')) :
    ∃ ps', Rep (rs ++ [r]) ps' s' := by
  rcases m with ⟨hp, prev⟩
  obtain ⟨hnew, hstep⟩ := Option.ite_none_left_eq_some.mp hstep
  rw [not_or] at hnew
  obtain ⟨hne, hfree⟩ := hnew
  obtain rfl := (Prod.mk.inj (Option.some.inj hstep)).2
  have hfree : s.heap hp = none := by simpa using hfree
  rcases List.eq_nil_or_concat ps with rfl | ⟨qs, q, rfl⟩
  · have hrs : rs = [] := List.forall₂_nil_right_iff.mp h.nodes
    subst hrs
    have hhead : s.handlers = 0 := Seg.nil_iff.mp h.next
    have hlast : s.last = 0 := h.last.mpr rfl
    refine ⟨[hp], ?_⟩
    simp only [hlast, hhead, ne_eq, not_true_eq_false, if_false, if_true]
    exact Rep.first hne (Function.update_self _ _ _)
  · have hhead : s.handlers = q := by
      have hnext := h.next
      rw [List.concat_eq_append, List.reverse_append, List.reverse_singleton] at hnext
      exact (Seg.cons_iff.mp hnext).1
    rw [List.concat_eq_append] at h
    have hqmem : q ∈ qs ++ [q] := List.mem_append_right qs List.mem_cons_self
    have hqne : q ≠ 0 := fun he => h.null (he ▸ hqmem)
    obtain ⟨hd, hq⟩ := Option.isSome_iff_exists.mp (isSome_of_holds h.nodes hqmem)
    have hlast : s.last ≠ 0 := fun he => by simpa using h.last.mp he
    have hpq : q ≠ hp := by
      rintro rfl
      rw [hfree] at hq
      cases hq
    refine ⟨qs ++ [q] ++ [hp], ?_⟩
    simp only [hlast, hhead, ne_eq, hqne, not_false_eq_true, if_false, if_true]
    refine h.more prev hne hfree hq ?_ ?_ fun p hp1 hp2 => ?_
    · rw [Function.update_of_ne hpq.symm, Function.update_self, hhead]
    · rw [Function.update_self, Function.update_of_ne hpq, hq]
      rfl
    · rw [Function.update_of_ne hp2, Function.update_of_ne hp1]

/-- After any list of registrations the nodes are as the list says. -/
theorem rep_of_registered (h : Registered rs s) : ∃ ps, Rep rs ps s := by
  induction h with
  | init =>
      refine ⟨[], .nil, List.nodup_nil, List.not_mem_nil, .nil 0, ⟨0, .nil 0⟩, ?_⟩
      exact iff_of_true rfl rfl
  | atfork hs hstep ih =>
      obtain ⟨ps, hrep⟩ := ih
      exact hrep.atfork hstep

/-! ### The loops -/

/-- The loop of `pt_atfork_prepare`, along `prev` and up to the head. -/
theorem prepareLoop_eq (hseg : Seg (prevOf s.heap) a (l ++ [hp]) b) (hnot : hp ∉ l)
    (hnodes : List.Forall₂ (Holds s.heap) rs (l ++ [hp])) (hn : l.length < n) :
    prepareLoop s hp n a = some (calls Registration.prepare rs) := by
  induction l generalizing a rs n with
  | nil =>
      obtain ⟨n, rfl⟩ := Nat.exists_eq_succ_of_ne_zero (Nat.ne_of_gt hn)
      obtain ⟨rfl, -⟩ := Seg.cons_iff.mp hseg
      obtain ⟨r, rs', hr, hrs', rfl⟩ := List.forall₂_cons_right_iff.mp hnodes
      obtain rfl := List.forall₂_nil_right_iff.mp hrs'
      obtain ⟨h, hh, rfl⟩ := Option.map_eq_some_iff.mp hr
      rw [prepareLoop, hh, calls_singleton]
      exact if_pos rfl
  | cons x l ih =>
      obtain ⟨n, rfl⟩ := Nat.exists_eq_succ_of_ne_zero (Nat.ne_of_gt (Nat.zero_lt_of_lt hn))
      obtain ⟨rfl, d, hd, hl⟩ := Seg.cons_iff.mp hseg
      obtain ⟨r, rs', hr, hrs', rfl⟩ := List.forall₂_cons_right_iff.mp hnodes
      obtain ⟨h, hh, rfl⟩ := Option.map_eq_some_iff.mp hr
      have hne : a ≠ hp := fun he => hnot (he ▸ List.mem_cons_self)
      have hprev : h.prev = d := by
        rw [prevOf, hh] at hd
        exact Option.some.inj hd
      have hrest := ih hl (fun hm => hnot (List.mem_cons_of_mem _ hm)) hrs'
        (Nat.lt_of_succ_lt_succ hn)
      rw [prepareLoop, hh, calls_cons]
      show (if a = hp then _ else _) = _
      rw [if_neg hne, hprev, hrest]
      rfl

/-- The loop of `pt_atfork_parent`, along `next` and up to NULL. -/
theorem parentLoop_eq (hseg : Seg (nextOf s.heap) a l 0) (hnull : 0 ∉ l)
    (hnodes : List.Forall₂ (Holds s.heap) rs l) (hn : l.length ≤ n) :
    parentLoop s n a = some (calls Registration.parent rs) := by
  induction l generalizing a rs n with
  | nil =>
      obtain rfl := Seg.nil_iff.mp hseg
      obtain rfl := List.forall₂_nil_right_iff.mp hnodes
      cases n with
      | zero => exact if_pos rfl
      | succ n => exact if_pos rfl
  | cons x l ih =>
      obtain ⟨n, rfl⟩ := Nat.exists_eq_succ_of_ne_zero (Nat.ne_of_gt (Nat.lt_of_lt_of_le
        (Nat.succ_pos _) hn))
      obtain ⟨rfl, d, hd, hl⟩ := Seg.cons_iff.mp hseg
      obtain ⟨r, rs', hr, hrs', rfl⟩ := List.forall₂_cons_right_iff.mp hnodes
      obtain ⟨h, hh, rfl⟩ := Option.map_eq_some_iff.mp hr
      have hne : a ≠ 0 := fun he => hnull (he ▸ List.mem_cons_self)
      have hnext : h.next = d := by
        rw [nextOf, hh] at hd
        exact Option.some.inj hd
      have hrest := ih hl (fun hm => hnull (List.mem_cons_of_mem _ hm)) hrs'
        (Nat.le_of_succ_le_succ hn)
      rw [parentLoop, if_neg hne, calls_cons]
      simp only [hh, hnext, hrest, Option.map_some]

/-- The loop of `pt_atfork_child`, which reads `next` before it frees the node. -/
theorem childLoop_eq {heap : Ptr → Option Handler} (hseg : Seg (nextOf heap) a l 0)
    (hnull : 0 ∉ l) (hnodup : l.Nodup) (hnodes : List.Forall₂ (Holds heap) rs l)
    (hn : l.length ≤ n) :
    childLoop n a heap =
      some (calls Registration.child rs, fun p => if p ∈ l then none else heap p) := by
  induction l generalizing a rs n heap with
  | nil =>
      obtain rfl := Seg.nil_iff.mp hseg
      obtain rfl := List.forall₂_nil_right_iff.mp hnodes
      simp only [List.not_mem_nil, if_false]
      cases n with
      | zero => exact if_pos rfl
      | succ n => exact if_pos rfl
  | cons x l ih =>
      obtain ⟨n, rfl⟩ := Nat.exists_eq_succ_of_ne_zero (Nat.ne_of_gt (Nat.lt_of_lt_of_le
        (Nat.succ_pos _) hn))
      obtain ⟨rfl, d, hd, hl⟩ := Seg.cons_iff.mp hseg
      obtain ⟨r, rs', hr, hrs', rfl⟩ := List.forall₂_cons_right_iff.mp hnodes
      obtain ⟨h, hh, rfl⟩ := Option.map_eq_some_iff.mp hr
      obtain ⟨hal, hnodup⟩ := List.nodup_cons.mp hnodup
      have hne : a ≠ 0 := fun he => hnull (he ▸ List.mem_cons_self)
      have hnext : h.next = d := by
        rw [nextOf, hh] at hd
        exact Option.some.inj hd
      -- The nodes that are left are not the one that is freed.
      have hother : ∀ p ∈ l, Function.update heap a none p = heap p := by
        intro p hp
        have hpa : p ≠ a := fun he => hal (he ▸ hp)
        exact Function.update_of_ne hpa _ _
      have hseg' : Seg (nextOf (Function.update heap a none)) d l 0 :=
        hl.congr fun p hp => congrArg (Option.map Handler.next) (hother p hp)
      have hrest := ih hseg'
        (fun hm => hnull (List.mem_cons_of_mem _ hm)) hnodup
        (holds_congr hrs' fun p hp => congrArg (Option.map Handler.toRegistration) (hother p hp))
        (Nat.le_of_succ_le_succ hn)
      rw [childLoop, if_neg hne, calls_cons]
      simp only [hh, hnext, hrest, Option.map_some, Option.some.injEq, Prod.mk.injEq, true_and]
      funext p
      by_cases hpa : p = a
      · subst hpa
        simp
      · simp [hpa]

/-! ### The order of the callbacks -/

/-- `pt_atfork_prepare` runs the callbacks in order of registration. -/
theorem prepare_eq (h : Registered rs s) (hn : rs.length ≤ n) :
    ptAtforkPrepare n s = some (calls Registration.prepare rs) := by
  obtain ⟨ps, hrep⟩ := rep_of_registered h
  have hlen := hrep.nodes.length_eq
  rcases List.eq_nil_or_concat ps with rfl | ⟨qs, q, rfl⟩
  · obtain rfl := List.forall₂_nil_right_iff.mp hrep.nodes
    rw [ptAtforkPrepare, if_neg (not_not.mpr (hrep.last.mpr rfl))]
    rfl
  · rw [List.concat_eq_append] at hrep hlen
    have hhead : s.handlers = q := by
      have hnext := hrep.next
      rw [List.reverse_append, List.reverse_singleton] at hnext
      exact (Seg.cons_iff.mp hnext).1
    have hlast : s.last ≠ 0 := fun he => by simpa using hrep.last.mp he
    have hqs : q ∉ qs := fun hmem =>
      (List.nodup_append.mp hrep.nodup).2.2 q hmem q List.mem_cons_self rfl
    obtain ⟨b, hprev⟩ := hrep.prev
    rw [ptAtforkPrepare, if_pos hlast, hhead]
    refine prepareLoop_eq hprev hqs hrep.nodes ?_
    rw [hlen, List.length_append, List.length_singleton] at hn
    exact hn

/-- `pt_atfork_parent` runs them in reverse. -/
theorem parent_eq (h : Registered rs s) (hn : rs.length ≤ n) :
    ptAtforkParent n s = some (calls Registration.parent rs).reverse := by
  obtain ⟨ps, hrep⟩ := rep_of_registered h
  have hlen := hrep.nodes.length_eq
  rw [ptAtforkParent, ← calls_reverse]
  refine parentLoop_eq hrep.next (fun h0 => hrep.null (List.mem_reverse.mp h0))
    (List.rel_reverse hrep.nodes) ?_
  rw [List.length_reverse, ← hlen]
  exact hn

/-- So does `pt_atfork_child`. It frees every node and leaves an empty list. -/
theorem child_eq (h : Registered rs s) (hn : rs.length ≤ n) :
    ∃ heap, ptAtforkChild n s = some ((calls Registration.child rs).reverse, ⟨heap, 0, 0⟩) ∧
      ∃ ps, Rep rs ps s ∧ ∀ p, heap p = if p ∈ ps then none else s.heap p := by
  obtain ⟨ps, hrep⟩ := rep_of_registered h
  have hlen := hrep.nodes.length_eq
  have hloop := childLoop_eq hrep.next (fun h0 => hrep.null (List.mem_reverse.mp h0))
    (List.nodup_reverse.mpr hrep.nodup) (List.rel_reverse hrep.nodes)
    (show ps.reverse.length ≤ n by rw [List.length_reverse, ← hlen]; exact hn)
  refine ⟨fun p => if p ∈ ps.reverse then none else s.heap p, ?_, ps, hrep, fun p => ?_⟩
  · rw [ptAtforkChild, hloop, calls_reverse]
    rfl
  · simp only [List.mem_reverse]

/-- The three functions run the callbacks in the documented order, if and only if the list of
the callbacks of each kind that are not NULL reads the same in both directions. -/
theorem atfork_order (h : Registered rs s) : InOrder rs s ↔
    (calls Registration.prepare rs).reverse = calls Registration.prepare rs ∧
    (calls Registration.parent rs).reverse = calls Registration.parent rs ∧
    (calls Registration.child rs).reverse = calls Registration.child rs := by
  obtain ⟨heap, hchild, -⟩ := child_eq h (le_refl rs.length)
  constructor
  · intro hord
    refine ⟨?_, ?_, ?_⟩
    · have hdoc := hord.prepare rs.length (le_refl _)
      exact Option.some.inj (hdoc.symm.trans (prepare_eq h (le_refl _)))
    · have hdoc := hord.parent rs.length (le_refl _)
      exact Option.some.inj ((parent_eq h (le_refl _)).symm.trans hdoc)
    · have hdoc := hord.child rs.length (le_refl _)
      rw [hchild] at hdoc
      exact Option.some.inj hdoc
  · rintro ⟨hprep, hpar, hch⟩
    constructor
    · intro n hn
      rw [prepare_eq h hn, hprep]
    · intro n hn
      rw [parent_eq h hn, hpar]
    · intro n hn
      obtain ⟨heap, hn, -⟩ := child_eq h hn
      rw [hn, Option.map_some, hch]

/-- One registration with a prepare callback, and one with the two others. -/
theorem atfork_order_two : ∃ s, Registered [⟨1, 0, 0⟩, ⟨0, 2, 3⟩] s ∧
    InOrder [⟨1, 0, 0⟩, ⟨0, 2, 3⟩] s := by
  have h : ∃ s, Registered [⟨1, 0, 0⟩, ⟨0, 2, 3⟩] s :=
    ⟨_, .atfork (.atfork .init (rfl : pthreadAtfork _ (some ⟨0x1000, 0⟩) _ = _))
      (rfl : pthreadAtfork _ (some ⟨0x2000, 0⟩) _ = _)⟩
  obtain ⟨s, hs⟩ := h
  exact ⟨s, hs, (atfork_order hs).mpr (by decide)⟩

/-- Two registrations with all callbacks. The prepare callbacks run in order and the others
in reverse. -/
theorem atfork_order_reversed : ∃ s, Registered [⟨1, 3, 5⟩, ⟨2, 4, 6⟩] s ∧
    (ptAtforkPrepare 2 s = some [1, 2] ∧ ptAtforkParent 2 s = some [4, 3] ∧
      (ptAtforkChild 2 s).map Prod.fst = some [6, 5]) ∧
    ¬ InOrder [⟨1, 3, 5⟩, ⟨2, 4, 6⟩] s := by
  have h : ∃ s, Registered [⟨1, 3, 5⟩, ⟨2, 4, 6⟩] s ∧
      (ptAtforkPrepare 2 s = some [1, 2] ∧ ptAtforkParent 2 s = some [4, 3] ∧
        (ptAtforkChild 2 s).map Prod.fst = some [6, 5]) :=
    ⟨_, .atfork (.atfork .init (rfl : pthreadAtfork _ (some ⟨0x1000, 0⟩) _ = _))
      (rfl : pthreadAtfork _ (some ⟨0x2000, 0⟩) _ = _), by decide⟩
  obtain ⟨s, hs, hrun⟩ := h
  refine ⟨s, hs, hrun, ?_⟩
  intro hord
  have hdoc : some [(1 : Ptr), 2] = some [2, 1] := hrun.1.symm.trans (hord.prepare 2 (le_refl 2))
  exact absurd hdoc (by decide)

end Hlpt.Atfork
