import Hlpt.Registry.Steps

/-!
# `Hlpt.Registry.Invariant`: creations, the lock and the list

What every step keeps, apart from the number of the threads. A descriptor without a thread
belongs to one creation (`Births`). The thread between `lll_lock` and `lll_unlock` is the
holder of the lock (`Locked`), so the operations on the list exclude each other. The list
holds the threads that have registered and not unregistered (`Registered`).

The last one needs `ForkOk`, the condition on the forks whose child the run follows.
-/

set_option autoImplicit false

namespace Hlpt.Registry

open Hlpt.Lib

universe u

variable {T : Type u} [DecidableEq T]

/-! ### Steps and kinds -/

variable {s s' : State T} {t u c : T} {ch : Choice T} {p q : Pc T} {m : Mem T}

theorem loc_go (u : T) : (go s t q m).loc u = if u = t then q else s.loc u :=
  Function.update_apply s.loc t q u

theorem loc_go₂ (u : T) :
    (go₂ s t q c p m).loc u = if u = t then q else if u = c then p else s.loc u := by
  show Function.update (Function.update s.loc c p) t q u = _
  rw [Function.update_apply, Function.update_apply]

theorem kind_go (u : T) : kind (go s t q m) u = if u = t then q.kind else kind s u := by
  unfold kind
  rw [loc_go]
  split <;> rfl

theorem kind_go₂ (u : T) : kind (go₂ s t q c p m) u =
    if u = t then q.kind else if u = c then p.kind else kind s u := by
  unfold kind
  rw [loc_go₂]
  split
  · rfl
  · split <;> rfl

theorem loc_alone (u : T) : (alone t q m).loc u = if u = t then q else .absent := rfl

theorem kind_alone (u : T) :
    kind (alone t q m) u = if u = t then q.kind else Pc.kind .absent := by
  unfold kind
  rw [loc_alone]
  split <;> rfl

omit [DecidableEq T] in
/-- A thread that is alive is at none of the places of the other phases. -/
theorem alive_ne (h : p.kind.phase = .alive) :
    p ≠ .absent ∧ p ≠ .unborn ∧ p ≠ .exit ∧ p ≠ .crashed := by
  refine ⟨?_, ?_, ?_, ?_⟩ <;>
  · rintro rfl
    cases h

/-! ### Creations -/

/-- A descriptor that has no thread yet belongs to one creation. -/
structure Births (s : State T) : Prop where
  born : ∀ c, s.loc c = .unborn ↔ ∃ t, (kind s t).child = some c
  single : ∀ t u c, (kind s t).child = some c → (kind s u).child = some c → t = u

omit [DecidableEq T] in
/-- A thread that is being created is not born yet, and it is another one. -/
theorem Births.child (h : Births s) (hc : (kind s t).child = some c) :
    s.loc c = .unborn ∧ t ≠ c := by
  have hborn := (h.born c).mpr ⟨t, hc⟩
  refine ⟨hborn, ?_⟩
  rintro rfl
  rw [kind, hborn] at hc
  cases hc

omit [DecidableEq T] in
/-- The thread that creates another is there already. -/
theorem ne_of_create {late : Bool} (ht : s.loc t = .run late) (hc : s.loc c = .absent) :
    t ≠ c := by
  rintro rfl
  rw [ht] at hc
  cases hc

/-- A step that neither begins nor ends a creation. -/
theorem Births.same (h : Births s) (ht : s.loc t ≠ .unborn) (hq : q ≠ .unborn)
    (hchild : q.kind.child = (kind s t).child) : Births (go s t q m) := by
  have hkind : ∀ u, (kind (go s t q m) u).child = (kind s u).child := by
    intro u
    rw [kind_go]
    split
    · rename_i hu
      rw [hu, hchild]
    · rfl
  have hloc : ∀ u, (go s t q m).loc u = .unborn ↔ s.loc u = .unborn := by
    intro u
    rw [loc_go]
    split
    · rename_i hu
      rw [hu]
      exact iff_of_false hq ht
    · exact Iff.rfl
  constructor
  · intro c
    simp only [hloc, hkind, h.born]
  · intro t u c
    simp only [hkind]
    exact h.single t u c

/-- A step that begins a creation. -/
theorem Births.create (h : Births s) (hc : s.loc c = .absent) (ht : s.loc t ≠ .absent)
    (ht' : s.loc t ≠ .unborn) (hchild : (kind s t).child = none) (hq : q ≠ .unborn)
    (hq' : q.kind.child = some c) : Births (go₂ s t q c .unborn m) := by
  have hct : c ≠ t := by
    rintro rfl
    exact ht hc
  have hcc : (kind s c).child = none := by
    rw [kind, hc]
    rfl
  have hfree : ∀ u, (kind s u).child ≠ some c := by
    intro u hu
    have hborn := (h.born c).mpr ⟨u, hu⟩
    rw [hc] at hborn
    cases hborn
  have hkind : ∀ u d, (kind (go₂ s t q c .unborn m) u).child = some d ↔
      (u = t ∧ d = c) ∨ (kind s u).child = some d := by
    intro u d
    rw [kind_go₂]
    by_cases hut : u = t
    · subst hut
      simp [hq', hchild, eq_comm]
    · by_cases huc : u = c
      · subst huc
        simp [hut, hcc, Pc.kind]
      · simp [hut, huc]
  constructor
  · intro d
    rw [loc_go₂]
    simp only [hkind]
    by_cases hdt : d = t
    · subst hdt
      simp only [if_true, hq, false_iff, not_exists, not_or]
      exact fun u => ⟨fun hu => hct hu.2.symm, fun hu => ht' ((h.born d).mpr ⟨u, hu⟩)⟩
    · by_cases hdc : d = c
      · subst hdc
        simp [hdt]
      · simp [hdt, hdc, h.born]
  · intro u v d hu hv
    rw [hkind] at hu hv
    rcases hu with ⟨rfl, rfl⟩ | hu <;> rcases hv with ⟨rfl, hdc⟩ | hv
    · rfl
    · exact absurd hv (hfree v)
    · subst hdc
      exact absurd hu (hfree u)
    · exact h.single u v d hu hv

/-- A step that ends a creation, well or not. -/
theorem Births.done (h : Births s) (ht : s.loc t ≠ .unborn)
    (hchild : (kind s t).child = some c) (hq : q ≠ .unborn) (hq' : q.kind.child = none)
    (hp : p ≠ .unborn) (hp' : p.kind.child = none) : Births (go₂ s t q c p m) := by
  obtain ⟨hc, -⟩ := h.child hchild
  have hcc : (kind s c).child = none := by
    rw [kind, hc]
    rfl
  have hkind : ∀ u d, (kind (go₂ s t q c p m) u).child = some d ↔
      u ≠ t ∧ (kind s u).child = some d := by
    intro u d
    rw [kind_go₂]
    by_cases hut : u = t
    · simp [hut, hq']
    · by_cases huc : u = c
      · subst huc
        simp [hut, hp', hcc]
      · simp [hut, huc]
  constructor
  · intro d
    rw [loc_go₂]
    simp only [hkind]
    by_cases hdt : d = t
    · subst hdt
      simp only [if_true, hq, false_iff, not_exists, not_and]
      exact fun u _ hu => ht ((h.born d).mpr ⟨u, hu⟩)
    · by_cases hdc : d = c
      · subst hdc
        simp only [hdt, if_false, if_true, hp, false_iff, not_exists, not_and]
        exact fun u hut hu => hut (h.single u t d hu hchild)
      · simp only [hdt, hdc, if_false, h.born]
        refine exists_congr fun u => ⟨fun hu => ⟨?_, hu⟩, fun hu => hu.2⟩
        rintro rfl
        exact hdc (Option.some.inj (hu.symm.trans hchild))
  · intro u v d hu hv
    exact h.single u v d ((hkind u d).mp hu).2 ((hkind v d).mp hv).2

/-- One thread that is not about to create another. -/
theorem Births.alone (hq : q ≠ .unborn) (hq' : q.kind.child = none) :
    Births (alone t q m) := by
  have hnone : ∀ u, (kind (Registry.alone t q m) u).child = none := by
    intro u
    rw [kind_alone]
    split
    · exact hq'
    · rfl
  constructor
  · intro c
    rw [loc_alone]
    simp only [hnone, reduceCtorEq, exists_false, iff_false]
    split
    · exact hq
    · simp
  · intro t u c hc
    rw [hnone] at hc
    cases hc

variable [Fintype T]

/-- Every step keeps the creations apart. -/
theorem Births.step (h : Births s) (hstep : Step s t ch s') : Births s' := by
  cases hstep with
  | own q ht hq | lock q ht hfree hq | unlock q ht hheld hq =>
      have hq' : q.kind.phase = .alive := by rw [hq, ← ht]
      exact h.same (alive_ne ht).2.1 (alive_ne hq').2.1 (by rw [hq])
  | create late c usrStack ht hc =>
      exact h.create hc (by rw [ht]; simp) (by rw [ht]; simp) (by rw [kind, ht]; rfl) (by simp) rfl
  | drop q c ht hc hq =>
      have hq' : q.kind.phase = .alive := by rw [hq, ← ht]
      exact h.done (alive_ne ht).2.1 hc (alive_ne hq').2.1 (by rw [hq]) (by simp) rfl
  | resume late c ht =>
      exact h.done (by rw [ht]; simp) (by rw [kind, ht]; rfl) (by simp) rfl (by simp) rfl
  | count late c ht | undo late ht | register m ht hm | unregister m ht hm | terminate ht
  | reap ht =>
      exact h.same (by rw [ht]; simp) (by simp) (by rw [kind, ht]; rfl)
  | fault ht =>
      rcases ht with ⟨ht, -⟩ | ⟨ht, -⟩
      · exact h.same (by rw [ht]; simp) (by simp) (by rw [kind, ht]; rfl)
      · exact h.same (by rw [ht]; simp) (by simp) (by rw [kind, ht]; rfl)
  | decrement ht =>
      refine h.same (by rw [ht]; simp) ?_ ?_
      · split <;> simp
      · rw [kind, ht]
        split <;> rfl
  | fork late ht hch =>
      refine .alone ?_ ?_
      · split <;> simp
      · split <;> rfl

/-! ### The lock -/

/-- The thread that holds the lock is the only one between `lll_lock` and `lll_unlock`. -/
def Locked (s : State T) : Prop := ∀ t, (kind s t).holds = true ↔ s.mem.lock = some t

omit [Fintype T] in
/-- A step that leaves the lock. -/
theorem Locked.same (h : Locked s) (hq : q.kind.holds = (kind s t).holds)
    (hm : m.lock = s.mem.lock) : Locked (go s t q m) := by
  intro u
  show _ ↔ m.lock = some u
  rw [kind_go, hm, ← h u]
  split
  · rename_i hu
    rw [hu, hq]
  · exact Iff.rfl

omit [Fintype T] in
/-- The same, for a step that moves another thread that is not at the lock. -/
theorem Locked.same₂ (h : Locked s) (hq : q.kind.holds = (kind s t).holds)
    (hc : (kind s c).holds = false) (hp : p.kind.holds = false) (hm : m.lock = s.mem.lock) :
    Locked (go₂ s t q c p m) := by
  intro u
  show _ ↔ m.lock = some u
  rw [kind_go₂, hm, ← h u]
  split
  · rename_i hu
    rw [hu, hq]
  · split
    · rename_i hu
      rw [hu, hc, hp]
    · exact Iff.rfl

omit [DecidableEq T] [Fintype T] in
/-- A thread that is not born yet, and one that is absent, is nowhere else. -/
theorem kind_unborn (h : s.loc t = .absent ∨ s.loc t = .unborn) :
    (kind s t).holds = false ∧ (kind s t).registered = false ∧ (kind s t).share = 0 ∧
      (kind s t).running = false := by
  unfold kind
  rcases h with h | h <;> rw [h] <;> exact ⟨rfl, rfl, rfl, rfl⟩

/-- Every step keeps the exclusion, unless it crashes. -/
theorem Locked.step (h : Locked s) (hb : Births s) (hstep : Step s t ch s')
    (hsafe : ∀ u, s'.loc u ≠ .crashed) : Locked s' := by
  cases hstep with
  | own q ht hq => exact h.same (by rw [hq]) rfl
  | lock q ht hfree hq =>
      intro u
      show _ ↔ some t = some u
      rw [kind_go]
      by_cases hu : u = t
      · simp [hu, hq]
      · have hnot : (kind s u).holds = false := by
          rw [← Bool.not_eq_true, h u, hfree]
          simp
        simp [hu, hnot, Ne.symm hu]
  | unlock q ht hheld hq =>
      intro u
      show _ ↔ none = some u
      rw [kind_go]
      by_cases hu : u = t
      · simp [hu, hq]
      · have hnot : (kind s u).holds = false := by
          rw [← Bool.not_eq_true, h u, (h t).mp hheld]
          simpa using Ne.symm hu
        simp [hu, hnot]
  | create late c usrStack ht hc =>
      have hk := kind_unborn (s := s) (.inl hc)
      exact h.same₂ (by rw [kind, ht]; rfl) hk.1 rfl rfl
  | drop q c ht hc hq =>
      have hk := kind_unborn (.inr (hb.child hc).1)
      exact h.same₂ (by rw [hq]) hk.1 rfl freeStack_rest.2.1
  | resume late c ht =>
      have hk := kind_unborn (.inr (hb.child (t := t) (by rw [kind, ht]; rfl)).1)
      exact h.same₂ (by rw [kind, ht]; rfl) hk.1 rfl rfl
  | count late c ht | undo late ht | terminate ht =>
      exact h.same (by rw [kind, ht]; rfl) rfl
  | reap ht => exact h.same (by rw [kind, ht]; rfl) freeStack_rest.2.1
  | register m ht hm =>
      obtain ⟨m₁, -, hsame, rfl⟩ := register_eq hm
      exact h.same (by rw [kind, ht]; rfl) hsame.lock
  | unregister m ht hm => exact h.same (by rw [kind, ht]; rfl) (hurdListDel_same hm).lock
  | fault ht =>
      refine absurd ?_ (hsafe t)
      rw [loc_go, if_pos rfl]
  | decrement ht =>
      refine h.same ?_ rfl
      rw [kind, ht]
      split <;> rfl
  | fork late ht hch =>
      intro u
      show _ ↔ (ptAtforkChild t s.mem).1.lock = some u
      rw [(ptAtforkChild_child t s.mem).lock, kind_alone]
      refine iff_of_false ?_ (by simp)
      split
      · split <;> simp [Pc.kind, Kind.code]
      · simp [Pc.kind]

/-! ### The list -/

/-- The list holds the threads that have registered and not unregistered, each of them
once. Every thread has its descriptor, and none has crashed. -/
structure Registered (s : State T) : Prop where
  list : ∃ l, Listed s.mem l ∧ ∀ t, t ∈ l ↔ (kind s t).registered = true
  desc : ∀ t, s.loc t ≠ .absent → (s.mem.desc t).isSome
  safe : ∀ t, s.loc t ≠ .crashed

section

variable (h : Registered s)

include h

omit [Fintype T]

/-- The thread `t` registers or unregisters. -/
theorem Registered.change (ht : s.loc t ≠ .absent) (hq : q ≠ .crashed) {l : List T}
    (hl : Listed m l) (hmem : ∀ u, u ∈ l ↔ (if u = t then q.kind else kind s u).registered = true)
    (hsome : ∀ u, (m.desc u).isSome = (s.mem.desc u).isSome) : Registered (go s t q m) := by
  refine ⟨⟨l, hl, fun u => ?_⟩, fun u hu => ?_, fun u => ?_⟩
  · rw [kind_go, hmem]
  · show (m.desc u).isSome
    rw [hsome]
    rw [loc_go] at hu
    split at hu
    · rename_i hut
      rw [hut]
      exact h.desc t ht
    · exact h.desc u hu
  · rw [loc_go]
    split
    · exact hq
    · exact h.safe u

/-- A step of `t` that leaves the list. -/
theorem Registered.same (ht : s.loc t ≠ .absent) (hq : q ≠ .crashed)
    (hreg : q.kind.registered = (kind s t).registered)
    (hnode : ∀ a, m.node a = s.mem.node a)
    (hsome : ∀ u, (m.desc u).isSome = (s.mem.desc u).isSome) : Registered (go s t q m) := by
  obtain ⟨l, hl, hmem⟩ := h.list
  refine h.change ht hq (hl.congr hnode) (fun u => ?_) hsome
  rw [hmem]
  split
  · rename_i hu
    rw [hu, hreg]
  · exact Iff.rfl

/-- A step that also moves the thread `c`, which is not in the list and may lose or get
its descriptor. -/
theorem Registered.same₂ (ht : s.loc t ≠ .absent) (hq : q ≠ .crashed) (hp : p ≠ .crashed)
    (hreg : q.kind.registered = (kind s t).registered) (hc : (kind s c).registered = false)
    (hp' : p.kind.registered = false) (hct : t ≠ c)
    (hhead : m.runningThreads = s.mem.runningThreads)
    (hdesc : ∀ u, u ≠ c → m.desc u = s.mem.desc u)
    (hsome : p ≠ .absent → (m.desc c).isSome) : Registered (go₂ s t q c p m) := by
  have hkind : ∀ u, (kind (go₂ s t q c p m) u).registered = (kind s u).registered := by
    intro u
    rw [kind_go₂]
    split
    · rename_i hu
      rw [hu, hreg]
    · split
      · rename_i hu
        rw [hu, hc, hp']
      · rfl
  obtain ⟨l, hl, hmem⟩ := h.list
  have hcl : c ∉ l := by
    rw [hmem, hc]
    simp
  refine ⟨⟨l, hl.other hcl hhead hdesc, fun u => ?_⟩, fun u hu => ?_, fun u => ?_⟩
  · rw [hkind, hmem]
  · show (m.desc u).isSome
    rw [loc_go₂] at hu
    by_cases huc : u = c
    · subst huc
      rw [if_neg (Ne.symm hct), if_pos rfl] at hu
      exact hsome hu
    · rw [hdesc u huc]
      split at hu
      · rename_i hut
        rw [hut]
        exact h.desc t ht
      · exact h.desc u hu
  · rw [loc_go₂]
    split
    · exact hq
    · split
      · exact hp
      · exact h.safe u

/-- A thread that has not registered is not in the list, and can be appended to it. -/
theorem Registered.append (ht : s.loc t = .enter) : ∃ l m, Listed s.mem l ∧
    (∀ u, u ∈ l ↔ (kind s u).registered = true) ∧ hurdListAddTail (.link t) s.mem = some m ∧
      SameButLinks s.mem m ∧ Listed m (l ++ [t]) := by
  obtain ⟨l, hl, hmem⟩ := h.list
  have htl : t ∉ l := by
    rw [hmem, kind, ht]
    simp [Pc.kind]
  obtain ⟨m, hm, hsame, hl'⟩ := hurdListAddTail_ring hl htl (h.desc t (by rw [ht]; simp))
  exact ⟨l, m, hl, hmem, hm, hsame, hl'⟩

/-- A thread that has registered can be taken out. -/
theorem Registered.erase (ht : s.loc t = .leave) : ∃ l m, Listed s.mem l ∧
    (∀ u, u ∈ l ↔ (kind s u).registered = true) ∧ hurdListDel (.link t) s.mem = some m ∧
      SameButLinks s.mem m ∧ Listed m (l.erase t) := by
  obtain ⟨l, hl, hmem⟩ := h.list
  have htl : t ∈ l := by
    rw [hmem, kind, ht]
    rfl
  obtain ⟨m, hm, hsame, hl'⟩ := hurdListDel_ring hl htl
  exact ⟨l, m, hl, hmem, hm, hsame, hl'⟩

/-- So no operation on the list faults. -/
theorem Registered.no_fault : ¬ (s.loc t = .enter ∧ Registry.register t s.mem = none ∨
    s.loc t = .leave ∧ hurdListDel (.link t) s.mem = none) := by
  rintro (⟨ht, hnone⟩ | ⟨ht, hnone⟩)
  · obtain ⟨l, m, -, -, hm, -⟩ := h.append ht
    rw [Registry.register, hm] at hnone
    cases hnone
  · obtain ⟨l, m, -, -, hm, -⟩ := h.erase ht
    rw [hm] at hnone
    cases hnone

/-- A thread registers. -/
theorem Registered.enter (ht : s.loc t = .enter) (hm : Registry.register t s.mem = some m) :
    Registered (go s t .entered m) := by
  obtain ⟨l, m₁, -, hmem, h₁, hsame, hl₁⟩ := h.append ht
  obtain ⟨m₂, h₂, -, rfl⟩ := register_eq hm
  obtain rfl := Option.some.inj (h₁.symm.trans h₂)
  refine h.change (by rw [ht]; simp) (by simp) (hl₁.congr fun a => ?_) (fun u => ?_) fun u => ?_
  · exact (node_congr rfl rfl a).trans (setId_node t _ m₁ a)
  · rw [List.mem_append, List.mem_singleton, hmem]
    by_cases hu : u = t
    · simp [hu, Pc.kind]
    · simp [hu]
  · exact (setId_isSome t _ m₁ u).trans (hsame.isSome u)

/-- A thread unregisters. -/
theorem Registered.leave (ht : s.loc t = .leave) (hm : hurdListDel (.link t) s.mem = some m) :
    Registered (go s t .left m) := by
  obtain ⟨l, m₁, hl, hmem, h₁, hsame, hl₁⟩ := h.erase ht
  obtain rfl := Option.some.inj (h₁.symm.trans hm)
  refine h.change (by rw [ht]; simp) (by simp) hl₁ (fun u => ?_) hsame.isSome
  rw [hl.nodup.mem_erase_iff, hmem]
  by_cases hu : u = t
  · simp [hu, Pc.kind]
  · simp [hu]

/-- The descriptor of a dead thread goes. It is not in the list any more. -/
theorem Registered.reap (ht : s.loc t = .dead) :
    Registered (go s t .absent (freeStack t s.mem)) := by
  obtain ⟨l, hl, hmem⟩ := h.list
  have htl : t ∉ l := by
    rw [hmem, kind, ht]
    simp [Pc.kind]
  refine ⟨⟨l, hl.other htl freeStack_rest.1 fun u hu => freeStack_desc hu, fun u => ?_⟩,
    fun u hu => ?_, fun u => ?_⟩
  · rw [kind_go, hmem]
    split
    · rename_i hu
      rw [hu, kind, ht]
      rfl
    · exact Iff.rfl
  · rw [loc_go] at hu
    split at hu
    · exact absurd rfl hu
    · rename_i hut
      show ((freeStack t s.mem).desc u).isSome
      rw [freeStack_desc hut]
      exact h.desc u hu
  · rw [loc_go]
    split
    · simp
    · exact h.safe u

end

/-- A fork that is followed into the child is called by a thread that has not unregistered,
and the other threads in the list have stacks of the program. -/
def ForkOk (s : State T) (a : T × Choice T) : Prop :=
  ∀ late, s.loc a.1 = .fork late → a.2 = .child → late = false ∧
    ∀ u, u ≠ a.1 → (kind s u).registered = true → (s.mem.desc u).any Desc.usrStack = true

/-- In the child of a fork the list is put together again, with the thread alone in it. -/
theorem Registered.fork {late : Bool} (h : Registered s) (hok : ForkOk s (t, .child))
    (ht : s.loc t = .fork late) :
    Registered (alone t (if (ptAtforkChild t s.mem).2 then .run late else .crashed)
      (ptAtforkChild t s.mem).1) := by
  obtain ⟨rfl, husr⟩ := hok late ht rfl
  obtain ⟨l, hl, hmem⟩ := h.list
  obtain ⟨hgood, hl', hsome⟩ := ptAtforkChild_ring hl (h.desc t (by rw [ht]; simp))
    fun u hu hne => husr u hne ((hmem u).mp hu)
  rw [hgood, if_pos rfl]
  refine ⟨⟨[t], hl', fun u => ?_⟩, fun u hu => ?_, fun u => ?_⟩
  · rw [kind_alone, List.mem_singleton]
    by_cases hu : u = t
    · simp [hu, Pc.kind, Kind.code]
    · simp [hu, Pc.kind]
  · rw [loc_alone] at hu
    split at hu
    · rename_i hut
      rw [hut]
      exact hsome
    · exact absurd rfl hu
  · rw [loc_alone]
    split <;> simp

/-- Every step keeps the list, under the condition on forks. -/
theorem Registered.step (h : Registered s) (hb : Births s) (hok : ForkOk s (t, ch))
    (hstep : Step s t ch s') : Registered s' := by
  cases hstep with
  | own q ht hq | lock q ht hfree hq | unlock q ht hheld hq =>
      have hq' : q.kind.phase = .alive := by rw [hq, ← ht]
      exact h.same (alive_ne ht).1 (alive_ne hq').2.2.2 (by rw [hq]) (node_congr rfl rfl)
        fun _ => rfl
  -- A new thread is not in the list, and neither is one whose creation fails or ends.
  | create late c usrStack ht hc =>
      have hk := kind_unborn (s := s) (.inl hc)
      refine h.same₂ (by rw [ht]; simp) (by simp) (by simp) (by rw [kind, ht]; rfl) hk.2.1 rfl
        (ne_of_create ht hc) rfl (fun u hu => Function.update_of_ne hu _ _) fun _ => ?_
      simp [ptAllocate]
  | drop q c ht hc hq =>
      obtain ⟨hborn, hct⟩ := hb.child hc
      have hk := kind_unborn (.inr hborn)
      have hq' : q.kind.phase = .alive := by rw [hq, ← ht]
      exact h.same₂ (alive_ne ht).1 (alive_ne hq').2.2.2 (by simp) (by rw [hq]) hk.2.1 rfl hct
        freeStack_rest.1 (fun u hu => freeStack_desc hu) fun hp => absurd rfl hp
  | resume late c ht =>
      obtain ⟨hborn, hct⟩ := hb.child (t := t) (c := c) (by rw [kind, ht]; rfl)
      have hk := kind_unborn (.inr hborn)
      exact h.same₂ (by rw [ht]; simp) (by simp) (by simp) (by rw [kind, ht]; rfl) hk.2.1 rfl hct
        rfl (fun _ _ => rfl) fun _ => h.desc c (by rw [hborn]; simp)
  | count late c ht | undo late ht =>
      exact h.same (by rw [ht]; simp) (by simp) (by rw [kind, ht]; rfl) (node_congr rfl rfl)
        fun _ => rfl
  | terminate ht =>
      exact h.same (by rw [ht]; simp) (by simp) (by rw [kind, ht]; rfl)
        (setId_node t 0 s.mem) (setId_isSome t 0 s.mem)
  | decrement ht =>
      refine h.same (by rw [ht]; simp) ?_ ?_ (node_congr rfl rfl) fun _ => rfl
      · split <;> simp
      · rw [kind, ht]
        split <;> rfl
  | reap ht => exact h.reap ht
  | register m ht hm => exact h.enter ht hm
  | unregister m ht hm => exact h.leave ht hm
  | fault ht => exact absurd ht h.no_fault
  | fork late ht hch =>
      subst hch
      exact h.fork hok ht

end Hlpt.Registry
