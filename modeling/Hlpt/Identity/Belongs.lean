import Hlpt.Identity.Started

/-!
# `Hlpt.Identity.Belongs`: what belongs to which thread

`PTHREAD_SELF` is right for a thread as long as its kernel thread has a segment at its TCB, and
as long as its TCB is not given to another thread and names its descriptor. A TCB comes from the
free list or from `malloc` and goes back to the free list, in the middle of a creation that
fails or at the end of a thread. Stacks, with the descriptors in them, come and go in the same
way.

* `Known`: what a thread may expect.
* `Inv`: whom each TCB and each mapping belongs to. `Inv.known` gives what is expected.
* `Inv.exit`, `Inv.deallocate`, `Inv.setDesc` and `Inv.sigmask`: the calls that bring no new
  thread.
-/

set_option autoImplicit false

namespace Hlpt.Identity

open Hlpt.Create Hlpt.Lib

/-! ### The statement -/

/-- The memory of a mapping. -/
def InRange (r : Addr × BitVec 32) (q : Addr) : Prop := (q - r.1).toNat < r.2.toNat

/-- The stack of the thread is in use. -/
def State.Owner (s : State) (t : Addr) : Prop := (∃ k, (t, k) ∈ s.live) ∨ t ∈ s.dead

/-- The thread `t`, which runs on the kernel thread `k`. -/
structure Known (E : Env) (s : State) (t : Addr) (k : Port) : Prop where
  self : s.pthreadSelf k = t
  tcb : s.getTcb k = (s.proc.desc t).tcb
  kport : s.proc.kport t = some k
  thread : k ∈ s.proc.threads
  /-- Its TCB is not on the free list, and no other thread has it. -/
  notFree : ¬ OnFreeList s.proc (s.proc.desc t).tcb
  alone : ∀ t' k', (t', k') ∈ s.live → (s.proc.desc t').tcb = (s.proc.desc t).tcb →
    t' = t ∧ k' = k
  /-- Its stack is mapped, and it is the stack of no other thread. -/
  stack : (s.proc.desc t).usrStack = false →
    (s.proc.desc t).freeRange ∈ s.proc.mappings ∧ InRange (s.proc.desc t).freeRange t ∧
      ∀ u, s.Owner u → (s.proc.desc u).usrStack = false →
        (s.proc.desc u).freeRange = (s.proc.desc t).freeRange → u = t
  blocked : ∃ blocked, s.proc.sigstates k = some blocked ∧ blocked &&& E.cantMask = 0

/-! ### The invariant -/

/-- What belongs to the thread `t` on the kernel thread `k`, when the TCBs in `free` are free. -/
structure Thread (E : Env) (s : State) (free : List Addr) (t : Addr) (k : Port) : Prop where
  tcb_ne : (s.proc.desc t).tcb ≠ 0
  notFree : (s.proc.desc t).tcb ∉ free
  first : (s.proc.tcb (s.proc.desc t).tcb).first = (s.proc.desc t).tcb
  thrdesc : (s.proc.tcb (s.proc.desc t).tcb).thrdesc = t
  sigstate : (s.proc.tcb (s.proc.desc t).tcb).sigstate = some k
  gsBase : s.gsBase k = (s.proc.desc t).tcb
  thread : k ∈ s.proc.threads
  blocked : ∃ blocked, s.proc.sigstates k = some blocked ∧ blocked &&& E.cantMask = 0

/-- The free list, the threads, and the stacks of the library. -/
structure Inv (E : Env) (s : State) (free : List Addr) : Prop where
  list : Seg s.proc.nextTcb s.proc.tlsList free 0
  thread : ∀ t k, (t, k) ∈ s.live → Thread E s free t k
  mapped : ∀ t, s.Owner t → (s.proc.desc t).usrStack = false →
    (s.proc.desc t).freeRange ∈ s.proc.mappings ∧ InRange (s.proc.desc t).freeRange t
  own : ∀ t u, s.Owner t → s.Owner u → (s.proc.desc t).usrStack = false →
    (s.proc.desc u).usrStack = false → (s.proc.desc t).freeRange = (s.proc.desc u).freeRange →
      t = u
  dead : ∀ t ∈ s.dead, ∀ k, (t, k) ∉ s.live

variable {E : Env} {K : Answers} {M : KernelAnswers} {self k k' ktid : Port} {args : Args}
  {attr : Attr} {s s' : State} {free free' : List Addr} {pt t u a : Addr} {r : Code}

/-- The kernel thread finds its descriptor. -/
theorem Thread.pthreadSelf (h : Thread E s free t k) : s.pthreadSelf k = t := by
  rw [State.pthreadSelf, h.gsBase]
  exact h.thrdesc

/-- The descriptor leads to its kernel thread. -/
theorem Thread.kport (h : Thread E s free t k) : s.proc.kport t = some k := h.sigstate

/-- A TCB belongs to one thread. -/
theorem Thread.alone (h : Thread E s free t k) (h' : Thread E s free u k')
    (htcb : (s.proc.desc u).tcb = (s.proc.desc t).tcb) : u = t ∧ k' = k := by
  have hdesc := h'.thrdesc
  have hport := h'.sigstate
  rw [htcb] at hdesc hport
  exact ⟨hdesc.symm.trans h.thrdesc, Option.some.inj (hport.symm.trans h.sigstate)⟩

/-- What a step may do without touching the thread. -/
theorem Thread.frame (h : Thread E s free t k)
    (hdesc : (s'.proc.desc t).tcb = (s.proc.desc t).tcb)
    (htcb : s'.proc.tcb (s.proc.desc t).tcb = s.proc.tcb (s.proc.desc t).tcb)
    (hfree : (s.proc.desc t).tcb ∉ free') (hbase : s'.gsBase k = s.gsBase k)
    (hthread : k ∈ s'.proc.threads) (hsig : s'.proc.sigstates k = s.proc.sigstates k) :
    Thread E s' free' t k := by
  obtain ⟨hne, -, hfirst, hthrdesc, hsigstate, hgs, -, hblocked⟩ := h
  constructor
  · rw [hdesc]
    exact hne
  · rw [hdesc]
    exact hfree
  · rw [hdesc, htcb, hfirst]
  · rw [hdesc, htcb, hthrdesc]
  · rw [hdesc, htcb, hsigstate]
  · rw [hbase, hdesc, hgs]
  · exact hthread
  · rw [hsig]
    exact hblocked

/-- The invariant says of each thread what is expected. -/
theorem Inv.known (h : Inv E s free) (hlive : (t, k) ∈ s.live) : Known E s t k := by
  have ht := h.thread t k hlive
  have howner : s.Owner t := .inl ⟨k, hlive⟩
  constructor
  · exact ht.pthreadSelf
  · rw [State.getTcb, ht.gsBase, ht.first]
  · exact ht.kport
  · exact ht.thread
  · rintro ⟨l, hl, hmem⟩
    have hend : s.proc.nextTcb 0 = none := if_pos rfl
    rw [hl.unique h.list (hl.notMem_of_none hend) (h.list.notMem_of_none hend)] at hmem
    exact ht.notFree hmem
  · intro t' k' hlive' htcb
    exact ht.alone (h.thread t' k' hlive') htcb
  · intro husr
    obtain ⟨hmem, hrange⟩ := h.mapped t howner husr
    exact ⟨hmem, hrange, fun u hu husr' heq => h.own u t hu howner husr' husr heq⟩
  · exact ht.blocked

/-! ### The steps -/

/-- The fields of a descriptor that tell its TCB and its stack. -/
structure SameDesc (d d' : Desc) : Prop where
  tcb : d'.tcb = d.tcb
  usrStack : d'.usrStack = d.usrStack
  freeRange : d'.freeRange = d.freeRange

/-- A step that brings no new thread. It keeps the stacks of the threads that are left. -/
theorem Inv.frame (h : Inv E s free) (hlist : Seg s'.proc.nextTcb s'.proc.tlsList free' 0)
    (hthread : ∀ t k, (t, k) ∈ s'.live → (t, k) ∈ s.live ∧ Thread E s' free' t k)
    (hdead : ∀ t ∈ s'.dead, s.Owner t ∧ ∀ k, (t, k) ∉ s'.live)
    (hdesc : ∀ t, s'.Owner t → (s'.proc.desc t).usrStack = (s.proc.desc t).usrStack ∧
      (s'.proc.desc t).freeRange = (s.proc.desc t).freeRange)
    (hmap : ∀ t, s'.Owner t → (s.proc.desc t).usrStack = false →
      (s.proc.desc t).freeRange ∈ s.proc.mappings →
        (s.proc.desc t).freeRange ∈ s'.proc.mappings) : Inv E s' free' := by
  have howner (t : Addr) (ht : s'.Owner t) : s.Owner t := by
    rcases ht with ⟨k, hlive⟩ | hd
    · exact .inl ⟨k, (hthread t k hlive).1⟩
    · exact (hdead t hd).1
  constructor
  · exact hlist
  · exact fun t k hlive => (hthread t k hlive).2
  · intro t ht husr
    obtain ⟨husrEq, hrangeEq⟩ := hdesc t ht
    rw [husrEq] at husr
    obtain ⟨hmem, hrange⟩ := h.mapped t (howner t ht) husr
    rw [hrangeEq]
    exact ⟨hmap t ht husr hmem, hrange⟩
  · intro t u ht hu husrT husrU heq
    rw [(hdesc t ht).1] at husrT
    rw [(hdesc u hu).1] at husrU
    rw [(hdesc t ht).2, (hdesc u hu).2] at heq
    exact h.own t u (howner t ht) (howner u hu) husrT husrU heq
  · exact fun t ht => (hdead t ht).2

/-- A step that changes only descriptors, and not what they say of their TCBs and stacks. -/
theorem Inv.setDesc (h : Inv E s free) (pt : Addr) (f : Desc → Desc)
    (hf : ∀ d, SameDesc d (f d)) : Inv E { s with proc := s.proc.setDesc pt f } free := by
  have hsame (t : Addr) : SameDesc (s.proc.desc t) ((s.proc.setDesc pt f).desc t) := by
    by_cases ht : t = pt
    · subst ht
      simpa [Create.State.setDesc] using hf (s.proc.desc t)
    · have heq : (s.proc.setDesc pt f).desc t = s.proc.desc t := Function.update_of_ne ht _ _
      rw [heq]
      exact ⟨rfl, rfl, rfl⟩
  refine h.frame h.list ?_ ?_ (fun t _ => ⟨(hsame t).usrStack, (hsame t).freeRange⟩) ?_
  · intro t k hlive
    have ht := h.thread t k hlive
    exact ⟨hlive, ht.frame (hsame t).tcb rfl ht.notFree rfl ht.thread rfl⟩
  · exact fun t ht => ⟨.inr ht, h.dead t ht⟩
  · exact fun _ _ _ hmem => hmem

/-- `pthread_sigmask` never lets a thread block what cannot be blocked. -/
theorem Inv.sigmask (h : Inv E s free) (k : Port) (how : How) (setp : Option Sigset) :
    Inv E { s with proc := (pthreadSigmask E k how setp s.proc).2 } free := by
  unfold pthreadSigmask
  split
  · exact h
  · split
    · exact h
    · next blocked _ =>
        refine h.frame h.list ?_ (fun t ht => ⟨.inr ht, h.dead t ht⟩) (fun _ _ => ⟨rfl, rfl⟩)
          fun _ _ _ hmem => hmem
        intro t k' hlive
        obtain ⟨hne, hfree, hfirst, hthrdesc, hsig, hgs, hthread, hblocked⟩ := h.thread t k' hlive
        refine ⟨hlive, hne, hfree, hfirst, hthrdesc, hsig, hgs, hthread, ?_⟩
        by_cases hk : k' = k
        · subst hk
          refine ⟨blocked &&& ~~~E.cantMask, Function.update_self _ _ _, ?_⟩
          rw [BitVec.and_assoc, BitVec.and_comm (~~~E.cantMask), BitVec.and_not_self]
          exact BitVec.and_zero
        · obtain ⟨old, hold, hmask⟩ := hblocked
          exact ⟨old, (Function.update_of_ne hk _ _).trans hold, hmask⟩

/-- Other flags are set. -/
theorem sameDesc_flags (d : Desc) {x : BitVec 32} (hx : x &&& PT_FLG_USR_STACK = 0#32) :
    SameDesc d { d with flags := d.flags ||| x } := by
  refine ⟨rfl, ?_, rfl⟩
  rw [Desc.usrStack, Desc.usrStack, or_and_of_disjoint hx]

/-- The stack of one thread is released, and the thread is no owner any more. -/
theorem Inv.mem_erase (h : Inv E s free) (ht : s.Owner t) (hu : s.Owner u) (hne : u ≠ t)
    (husr : (s.proc.desc t).usrStack = false) (husr' : (s.proc.desc u).usrStack = false)
    (hmem : (s.proc.desc u).freeRange ∈ s.proc.mappings) :
    (s.proc.desc u).freeRange ∈ s.proc.mappings.erase (s.proc.desc t).freeRange := by
  refine (List.mem_erase_of_ne ?_).mpr hmem
  exact fun heq => hne (h.own u t hu ht husr' husr heq)

/-- A thread that has ended is forgotten, and its stack may be released. -/
theorem Inv.forget (h : Inv E s free) (hpt : pt ∈ s.dead) {mappings : List (Addr × BitVec 32)}
    (hmap : mappings = s.proc.mappings ∨ (s.proc.desc pt).usrStack = false ∧
      mappings = s.proc.mappings.erase (s.proc.desc pt).freeRange) :
    Inv E { s with
      proc := { s.proc with mappings := mappings }
      dead := s.dead.filter fun q => q != pt } free := by
  refine h.frame h.list ?_ ?_ (fun _ _ => ⟨rfl, rfl⟩) ?_
  · intro t k hlive
    have ht := h.thread t k hlive
    exact ⟨hlive, ht.frame rfl rfl ht.notFree rfl ht.thread rfl⟩
  · intro t ht
    have ht' : t ∈ s.dead := (List.mem_filter.mp ht).1
    exact ⟨.inr ht', h.dead t ht'⟩
  · intro t ht husr hmem
    rcases hmap with rfl | ⟨husr', rfl⟩
    · exact hmem
    · rcases ht with ⟨k, hlive⟩ | hd
      · refine h.mem_erase (.inr hpt) (.inl ⟨k, hlive⟩) ?_ husr' husr hmem
        rintro rfl
        exact h.dead t hpt k hlive
      · obtain ⟨hd, hne⟩ := List.mem_filter.mp hd
        exact h.mem_erase (.inr hpt) (.inr hd) (by simpa using hne) husr' husr hmem

/-- `__pthread_deallocate` releases the stack of a thread that has ended. -/
theorem Inv.deallocate (h : Inv E s free) (hpt : pt ∈ s.dead) :
    Inv E { s with
      proc := pthreadDeallocate pt s.proc
      dead := s.dead.filter fun q => q != pt } free := by
  have hmark := h.setDesc pt (fun d => { d with flags := d.flags ||| PT_FLG_TERMINATED })
    fun d => sameDesc_flags d (by decide)
  unfold pthreadDeallocate freeStack
  simp only
  split
  · split
    · exact hmark.forget hpt (.inl rfl)
    · next husr => exact hmark.forget hpt (.inr ⟨Bool.eq_false_iff.mpr husr, rfl⟩)
  · exact hmark.forget hpt (.inl rfl)

/-- The descriptor of a thread that ends. -/
def exiting (d : Desc) : Desc := { d with flags := d.flags ||| PT_FLG_EXITING, tcb := 0 }

/-- What `__pthread_cleanup` leaves, for the thread `t` on the kernel thread `k`. -/
theorem cleanup_eq {p p' : Create.State} (hkport : p.kport t = some k)
    (h : pthreadCleanup t p = some p') :
    let a := (p.desc t).tcb
    let range := (exiting (p.desc t)).cleanupRange ((p.desc t).joinpt == t)
    p' = { p with
      desc := Function.update p.desc t (exiting (p.desc t))
      tcb := Function.update p.tcb a
        { p.tcb a with first := p.tlsList, replyPort := 0, sigstate := none }
      tlsList := a
      threads := p.threads.erase k
      sigstates := Function.update p.sigstates k none
      total := p.total - 1
      mappings := if range.2 ≠ 0 then p.mappings.erase range else p.mappings } := by
  intro a range
  unfold pthreadCleanup at h
  simp only at h
  split at h
  · cases h
  · have hsig : (p.tcb (p.desc t).tcb).sigstate = some k := hkport
    simp [Create.State.kport, Create.State.setDesc, hsig, Create.State.hurdSigstateDelete,
      Create.State.setTcb, deallocTls, Create.State.threadTerminate] at h
    split at h
    · next hsize =>
        have hsize' : ¬ range.2 ≠ 0 := not_not.mpr hsize
        rw [if_neg hsize', ← h]
        rfl
    · next hsize =>
        have hsize' : range.2 ≠ 0 := hsize
        rw [if_pos hsize', ← h]
        rfl

/-- The descriptor still tells its stack. -/
theorem exiting_stack (d : Desc) :
    (exiting d).usrStack = d.usrStack ∧ (exiting d).freeRange = d.freeRange := by
  obtain ⟨-, husr, -⟩ := sameDesc_flags d (x := PT_FLG_EXITING) (by decide)
  exact ⟨husr, rfl⟩

/-- The end of a thread releases no stack but its own. -/
theorem Inv.mem_cleanup (h : Inv E s free) (hlive : (t, k) ∈ s.live) (hu : s.Owner u)
    (hne : ((s.proc.desc t).joinpt == t) = true → u ≠ t)
    (husr : (s.proc.desc u).usrStack = false)
    (hmem : (s.proc.desc u).freeRange ∈ s.proc.mappings) :
    let range := (exiting (s.proc.desc t)).cleanupRange ((s.proc.desc t).joinpt == t)
    (s.proc.desc u).freeRange ∈
      if range.2 ≠ 0 then s.proc.mappings.erase range else s.proc.mappings := by
  intro range
  have hrange : (exiting (s.proc.desc t)).cleanupRange ((s.proc.desc t).joinpt == t) = range := rfl
  split
  · next hsize =>
      unfold Desc.cleanupRange at hrange
      split at hrange
      · next hreleased =>
          obtain ⟨hdetached, husr'⟩ := Bool.and_eq_true_iff.mp hreleased
          rw [(exiting_stack _).1, Bool.not_eq_true'] at husr'
          rw [← hrange]
          exact h.mem_erase (.inl ⟨k, hlive⟩) hu (hne hdetached) husr' husr hmem
      · rw [← hrange] at hsize
        exact absurd rfl hsize
  · exact hmem

/-- The end of a thread: its TCB is free, and its stack when it is detached. -/
theorem Inv.exit (h : Inv E s free) (hlive : (t, k) ∈ s.live) {p : Create.State}
    (hclean : pthreadCleanup t s.proc = some p) :
    Inv E { s with
      proc := p
      live := s.live.filter fun q => q.2 != k
      dead := if (s.proc.desc t).joinpt == t then s.dead else t :: s.dead }
      ((s.proc.desc t).tcb :: free) := by
  have ht := h.thread t k hlive
  have hp := cleanup_eq ht.kport hclean
  simp only at hp
  generalize hrange : (exiting (s.proc.desc t)).cleanupRange ((s.proc.desc t).joinpt == t) =
    range at hp
  generalize ha : (s.proc.desc t).tcb = a at *
  have hne : a ≠ 0 := ha ▸ ht.tcb_ne
  -- A thread that is left is another one, with another TCB.
  have hother (u : Addr) (k' : Port) (hu : (u, k') ∈ s.live.filter fun q => q.2 != k) :
      (u, k') ∈ s.live ∧ u ≠ t ∧ k' ≠ k ∧ (s.proc.desc u).tcb ≠ a := by
    obtain ⟨hu, hk⟩ := List.mem_filter.mp hu
    have hk' : k' ≠ k := by simpa using hk
    have htcb : (s.proc.desc u).tcb ≠ a := fun heq =>
      hk' (ht.alone (h.thread u k' hu) (heq.trans ha.symm)).2
    refine ⟨hu, ?_, hk', htcb⟩
    rintro rfl
    exact htcb ha
  have hnext (b : Addr) (hb : b ≠ a) : p.nextTcb b = s.proc.nextTcb b := by
    rw [hp, Create.State.nextTcb, Create.State.nextTcb]
    simp [hb]
  have hdead (u : Addr) (hu : u ∈ if (s.proc.desc t).joinpt == t then s.dead else t :: s.dead) :
      s.Owner u ∧ ∀ k', (u, k') ∉ s.live.filter fun q => q.2 != k := by
    have hold (hd : u ∈ s.dead) : s.Owner u ∧ ∀ k', (u, k') ∉ s.live.filter fun q => q.2 != k :=
      ⟨.inr hd, fun k' hmem => h.dead u hd k' (hother u k' hmem).1⟩
    split at hu
    · exact hold hu
    · rcases List.mem_cons.mp hu with rfl | hd
      · exact ⟨.inl ⟨k, hlive⟩, fun k' hmem => (hother u k' hmem).2.1 rfl⟩
      · exact hold hd
  refine h.frame ?_ ?_ hdead ?_ ?_
  · -- The TCB of the thread is the new head of the free list.
    have hhead : p.nextTcb a = some s.proc.tlsList := by
      rw [hp, Create.State.nextTcb, if_neg hne]
      simp
    have hlist : p.tlsList = a := by rw [hp]
    show Seg p.nextTcb p.tlsList (a :: free) 0
    rw [hlist]
    refine .cons hhead (h.list.congr fun b hb => hnext b ?_)
    rintro rfl
    exact ht.notFree (ha ▸ hb)
  · intro u k' hu
    obtain ⟨hu, hut, hk', htcb⟩ := hother u k' hu
    have hthread := h.thread u k' hu
    refine ⟨hu, hthread.frame ?_ ?_ ?_ rfl ?_ ?_⟩
    · rw [hp]
      exact congrArg Desc.tcb (Function.update_of_ne hut _ _)
    · rw [hp]
      exact Function.update_of_ne htcb _ _
    · exact fun hmem => (List.mem_cons.mp hmem).elim htcb hthread.notFree
    · rw [hp]
      exact Finset.mem_erase.mpr ⟨hk', hthread.thread⟩
    · rw [hp]
      exact Function.update_of_ne hk' _ _
  · intro u _
    by_cases hut : u = t
    · subst hut
      rw [hp]
      simpa using exiting_stack (s.proc.desc u)
    · rw [hp]
      simp [hut]
  · intro u hu husr hmem
    rw [hp]
    show _ ∈ if range.2 ≠ 0 then s.proc.mappings.erase range else s.proc.mappings
    rw [← hrange]
    refine h.mem_cleanup hlive ?_ ?_ husr hmem
    · rcases hu with ⟨k', hu⟩ | hd
      · exact .inl ⟨k', (hother u k' hu).1⟩
      · exact (hdead u hd).1
    · rintro hdetached rfl
      rcases hu with ⟨k', hu⟩ | hd
      · exact (hother u k' hu).2.1 rfl
      · rw [if_pos hdetached] at hd
        exact h.dead u hd k hlive

end Hlpt.Identity
