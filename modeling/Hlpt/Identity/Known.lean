import Hlpt.Identity.Belongs

/-!
# `Hlpt.Identity.Known`: every thread is known by its own descriptor

`Fresh` is what a creation may expect: from the kernel a port and memory that are not in use,
from `malloc` a block that is not in use, and from the program a stack that is not in use. Then
a creation keeps the invariant of `Hlpt.Identity.Belongs`, also when it fails half way.

* `threads_known`: whatever calls were made and wherever they failed, each thread finds itself
  with `PTHREAD_SELF`, others find its kernel thread, and it has its TCB and its stack for
  itself. No thread blocks a signal that cannot be blocked.
* `created_ready`: a new thread begins with `thread_entry`, which finds its argument, and with
  the signals blocked that its creator blocks.
-/

set_option autoImplicit false

namespace Hlpt.Identity

open Hlpt.Create Hlpt.Lib

/-- What a creation may expect from the kernel, from `malloc` and from the program. -/
structure Fresh (E : Env) (K : Answers) (attr : Attr) (s : State) : Prop where
  port : ∀ ktid, K.threadCreate = some ktid →
    ktid ∉ s.proc.threads ∧ s.proc.sigstates ktid = none
  tcb : ∀ t k, (t, k) ∈ s.live → (s.proc.desc t).tcb ≠ K.freshTcb
  /-- The memory is not mapped yet by the library. -/
  mapping : ∀ q, NewMemory E.toEnv K attr q → ∀ r ∈ s.proc.mappings, ¬ InRange r q
  /-- It is not the stack that the program has given to a thread. -/
  program : ∀ t, s.Owner t → (s.proc.desc t).usrStack = true → ¬ NewMemory E.toEnv K attr t

/-- Every creation gets what it may expect. -/
def Ok (E : Env) (s : State) : Act → Prop
  | .create _ K _ args => Fresh E K (args.attrp.getD E.dflAttr) s
  | _ => True

variable {E : Env} {K : Answers} {M : KernelAnswers} {self k k' ktid : Port} {args : Args}
  {attr : Attr} {s s' : State} {free free' : List Addr} {pt t u a : Addr} {r : Code}

/-! ### The creation -/

/-- The free list without its first TCB. -/
theorem popped_list {p : Create.State} (hlist : Seg p.nextTcb p.tlsList free 0) :
    ∃ rest, Seg p.nextTcb p.popped rest 0 ∧ (∀ b ∈ rest, b ∈ free) ∧
      (p.tlsList = 0 ∧ rest = [] ∨ p.tlsList ≠ 0 ∧ p.tlsList ∈ free ∧ p.tlsList ∉ rest) := by
  unfold Create.State.popped
  by_cases h0 : p.tlsList = 0
  · rw [if_pos h0]
    exact ⟨[], .nil 0, fun _ hb => absurd hb List.not_mem_nil, .inl ⟨h0, rfl⟩⟩
  · rw [if_neg h0]
    cases free with
    | nil => exact absurd (Seg.nil_iff.mp hlist) h0
    | cons b rest =>
        obtain ⟨rfl, c, hc, hrest⟩ := Seg.cons_iff.mp hlist
        rw [Create.State.nextTcb, if_neg h0] at hc
        obtain rfl := Option.some.inj hc
        exact ⟨rest, hrest, fun b hb => List.mem_cons_of_mem _ hb,
          .inr ⟨h0, List.mem_cons_self, hlist.head_notMem (if_pos rfl)⟩⟩

/-- The TCB that a creation takes is new, or it was free. -/
theorem taken_tcb {p : Create.State} {rest : List Addr} (hdl : K.dlAllocateTls = true)
    (hrest : p.tlsList = 0 ∧ rest = [] ∨ p.tlsList ≠ 0 ∧ p.tlsList ∈ free ∧ p.tlsList ∉ rest) :
    dlAllocateTls K p.tlsList ∉ rest ∧
      (dlAllocateTls K p.tlsList = K.freshTcb ∨ dlAllocateTls K p.tlsList ∈ free) := by
  unfold dlAllocateTls
  rw [if_pos hdl]
  rcases hrest with ⟨h0, rfl⟩ | ⟨h0, hmem, hnot⟩
  · rw [if_pos h0]
    exact ⟨List.not_mem_nil, .inl rfl⟩
  · rw [if_neg h0]
    exact ⟨hnot, .inr hmem⟩

/-- The threads have other TCBs. -/
theorem Inv.tcb_ne (h : Inv E s free) (hfresh : Fresh E K attr s) (hlive : (t, k) ∈ s.live)
    (ha : a = K.freshTcb ∨ a ∈ free) : (s.proc.desc t).tcb ≠ a := by
  rintro rfl
  rcases ha with ha | ha
  · exact hfresh.tcb t k hlive ha
  · exact (h.thread t k hlive).notFree ha

/-- The new memory is not where the descriptor of another thread is. -/
theorem Inv.notNew (h : Inv E s free) (hfresh : Fresh E K attr s) (ht : s.Owner t) :
    ¬ NewMemory E.toEnv K attr t := by
  cases husr : (s.proc.desc t).usrStack with
  | true => exact hfresh.program t ht husr
  | false =>
      obtain ⟨hmem, hrange⟩ := h.mapped t ht husr
      exact fun hnew => hfresh.mapping t hnew _ hmem hrange

/-- The links are in the TCBs only. -/
theorem nextTcb_congr {p p' : Create.State} (htcb : p'.tcb = p.tcb) : p'.nextTcb = p.nextTcb := by
  funext b
  rw [Create.State.nextTcb, Create.State.nextTcb, htcb]

/-- The links of the free TCBs are left when another TCB is written. -/
theorem nextTcb_update {p p' : Create.State} {b : Tcb}
    (htcb : p'.tcb = Function.update p.tcb a b) {c : Addr} (hc : c ≠ a) :
    p'.nextTcb c = p.nextTcb c := by
  rw [Create.State.nextTcb, Create.State.nextTcb, htcb, Function.update_of_ne hc]

/-- A creation that fails. -/
theorem Inv.create_failed (h : Inv E s free)
    (hfresh : Fresh E K (args.attrp.getD E.dflAttr) s) {blocked : Option Sigset}
    (haside : Aside K s s')
    (hcreate : Create.pthreadCreate E.toEnv { K with setMachineState := false }
      (args.toArgs blocked) s.proc = some (.eagain, s'.proc)) :
    ∃ free', Inv E s' free' := by
  have hsound : Sound { K with setMachineState := false } s.proc :=
    ⟨⟨free, h.list⟩, hfresh.port⟩
  obtain ⟨hundone, htls⟩ := pthreadCreate_eagain hsound hcreate
  have hdesc (t : Addr) (ht : s.Owner t) : s'.proc.desc t = s.proc.desc t := by
    have hnew : ¬ NewMemory E.toEnv { K with setMachineState := false }
        (args.attrp.getD E.dflAttr) t := h.notNew (K := K) hfresh ht
    exact pthreadCreate_desc hcreate hnew
  have howner (t : Addr) (ht : s'.Owner t) : s.Owner t := by
    rw [State.Owner, haside.live, haside.dead] at ht
    exact ht
  -- Whatever the free list is then, the TCBs of the threads are not on it and not written.
  have hframe (free' : List Addr) (hlist : Seg s'.proc.nextTcb s'.proc.tlsList free' 0)
      (htcb : ∀ t k, (t, k) ∈ s.live → (s.proc.desc t).tcb ∉ free' ∧
        s'.proc.tcb (s.proc.desc t).tcb = s.proc.tcb (s.proc.desc t).tcb) : Inv E s' free' := by
    refine h.frame hlist ?_ ?_ ?_ ?_
    · intro t k hlive
      rw [haside.live] at hlive
      have ht := h.thread t k hlive
      obtain ⟨hnot, hsame⟩ := htcb t k hlive
      refine ⟨hlive, ht.frame ?_ hsame hnot (haside.gsBase k ?_) ?_ ?_⟩
      · rw [hdesc t (.inl ⟨k, hlive⟩)]
      · intro hport
        exact (hfresh.port k hport).1 ht.thread
      · rw [hundone.threads]
        exact ht.thread
      · rw [hundone.sigstates]
    · intro t ht
      rw [haside.dead] at ht
      refine ⟨.inr ht, fun k hlive => h.dead t ht k ?_⟩
      rw [haside.live] at hlive
      exact hlive
    · intro t ht
      rw [hdesc t (howner t ht)]
      exact ⟨rfl, rfl⟩
    · intro t _ _ hmem
      rw [hundone.mappings]
      exact hmem
  cases htls with
  | same htcb hlist =>
      refine ⟨free, hframe free ?_ fun t k hlive => ⟨(h.thread t k hlive).notFree, by rw [htcb]⟩⟩
      rw [nextTcb_congr htcb, hlist]
      exact h.list
  -- The TCB that came from the list is on no list any more.
  | lost htcb hlist =>
      obtain ⟨rest, hrest, hsub, -⟩ := popped_list h.list
      refine ⟨rest, hframe rest ?_ fun t k hlive => ⟨fun hmem => ?_, by rw [htcb]⟩⟩
      · rw [nextTcb_congr htcb, hlist]
        exact hrest
      · exact (h.thread t k hlive).notFree (hsub _ hmem)
  -- The TCB is the head of the list now, whether it was free before or is new.
  | back b hdl hfirst htcb hlist =>
      obtain ⟨rest, hrest, hsub, htaken⟩ := popped_list h.list
      obtain ⟨hnot, ha⟩ := taken_tcb (K := K) hdl htaken
      have hne := dlAllocateTls_ne (K := K) hdl s.proc.tlsList
      have hhead : dlAllocateTls { K with setMachineState := false } s.proc.tlsList =
        dlAllocateTls K s.proc.tlsList := rfl
      rw [hhead] at htcb hlist
      generalize dlAllocateTls K s.proc.tlsList = a at *
      refine ⟨a :: rest, hframe (a :: rest) ?_ fun t k hlive => ?_⟩
      · rw [hlist]
        refine .cons (b := s.proc.popped) ?_ (hrest.congr fun c hc => nextTcb_update htcb ?_)
        · rw [Create.State.nextTcb, if_neg hne, htcb, Function.update_self, hfirst]
        · rintro rfl
          exact hnot hc
      · have hother := h.tcb_ne hfresh hlive ha
        refine ⟨fun hmem => ?_, by rw [htcb, Function.update_of_ne hother]⟩
        rcases List.mem_cons.mp hmem with heq | hmem
        · exact hother heq
        · exact (h.thread t k hlive).notFree (hsub _ hmem)

/-- The parent that a creation sees is the thread that calls. -/
theorem Inv.parent (h : Inv E s free) (hlive : (t, self) ∈ s.live) {p : Create.State}
    (hdesc : p.desc t = s.proc.desc t)
    (htcb : p.tcb (s.proc.desc t).tcb = s.proc.tcb (s.proc.desc t).tcb)
    (hsig : p.sigstates self = s.proc.sigstates self) :
    parentBlocked { s with proc := p } self =
      if t = 0 then none else s.proc.sigstates self := by
  have ht := h.thread t self hlive
  have hself : ({ s with proc := p } : State).pthreadSelf self = t := by
    show (p.tcb (s.gsBase self)).thrdesc = t
    rw [ht.gsBase, htcb, ht.thrdesc]
  have hkport : p.kport t = some self := by
    rw [Create.State.kport, hdesc, htcb, ht.sigstate]
  unfold parentBlocked
  simp only [hself, hkport]
  split
  · rfl
  · exact hsig

/-- What a creation on the kernel thread of `t` leaves, with the TCB `a`. -/
structure Created (E : Env) (K : Answers) (attr : Attr) (t pt : Addr) (creator ktid : Port)
    (a : Addr) (s s' : State) : Prop where
  /-- The descriptor is new, and the others stay. -/
  newMemory : NewMemory E.toEnv K attr pt
  tcbNew : (s'.proc.desc pt).tcb = a
  desc : ∀ u, s.Owner u → s'.proc.desc u = s.proc.desc u
  /-- Its stack is one of the program or mapped in the new memory. -/
  stack : (s'.proc.desc pt).usrStack = true ∧ s'.proc.mappings = s.proc.mappings ∨
    (s'.proc.desc pt).usrStack = false ∧
      s'.proc.mappings = (s'.proc.desc pt).freeRange :: s.proc.mappings ∧
      ∀ q, InRange (s'.proc.desc pt).freeRange q ↔ NewMemory E.toEnv K attr q
  tcb : s'.proc.tcb = Function.update s.proc.tcb a
    { s.proc.tcb a with first := a, self := ktid, thrdesc := pt, sigstate := some ktid }
  tlsList : s'.proc.tlsList = s.proc.popped
  threads : s'.proc.threads = insert ktid s.proc.threads
  /-- It blocks what its creator blocks. -/
  sigstates : s'.proc.sigstates = Function.update s.proc.sigstates ktid
    (some ((if t = 0 then none else s.proc.sigstates creator).getD 0))

/-- The call stores the new descriptor for the caller. -/
theorem Success.ptp {s₁ : Create.State} (hs : Success E K self args pt ktid s s₁ s') :
    s'.proc.ptp = pt := by
  rw [hs.proc]
  rfl

/-- The call leaves that when it returns 0. -/
theorem Inv.success (h : Inv E s free) (hfresh : Fresh E K (args.attrp.getD E.dflAttr) s)
    {s₁ : Create.State} (hlive : (t, self) ∈ s.live)
    (hs : Success E K self args pt ktid s s₁ s') :
    Created E K (args.attrp.getD E.dflAttr) t pt self ktid (dlAllocateTls K s.proc.tlsList)
      s s' := by
  obtain ⟨hplaced, hport, hdl, hproc, -⟩ := hs
  obtain ⟨rest, -, -, htaken⟩ := popped_list h.list
  have hother := h.tcb_ne hfresh hlive (taken_tcb hdl htaken).2
  have honly := hplaced.onlyStack
  rw [honly.tlsList] at hproc
  generalize dlAllocateTls K s.proc.tlsList = a at *
  have hplace (u : Addr) (hu : s.Owner u) : u ≠ pt ∧ s₁.desc u = s.proc.desc u := by
    have hnew := h.notNew hfresh hu
    refine ⟨?_, hplaced.desc_eq hnew⟩
    rintro rfl
    exact hnew hplaced.newMemory
  have hself : self ≠ ktid := by
    rintro rfl
    exact (hfresh.port self hport).1 (h.thread t self hlive).thread
  have hparent : parentBlocked { s with proc := acquired pt ktid a s₁ } self =
      if t = 0 then none else s.proc.sigstates self := by
    obtain ⟨hne, hdesc⟩ := hplace t (.inl ⟨self, hlive⟩)
    refine h.parent hlive ((Function.update_of_ne hne _ _).trans hdesc) ?_ ?_
    · exact (Function.update_of_ne hother _ _).trans (congrFun honly.tcb _)
    · exact (Function.update_of_ne hself _ _).trans (congrFun honly.sigstates _)
  rw [hparent] at hproc
  have hdesc := desc_created (args.toArgs (if t = 0 then none else s.proc.sigstates self)) pt
    ktid a s₁
  rw [← hproc] at hdesc
  constructor
  · exact hplaced.newMemory
  · rw [hdesc]
  · intro u hu
    obtain ⟨hne, hdesc'⟩ := hplace u hu
    rw [hproc, ← hdesc']
    simp [Create.created, prepared, acquired, Create.State.setBlocked, Create.State.setDesc, hne]
  · rw [hdesc, hproc]
    exact hplaced.stack
  · rw [hproc, ← honly.tcb]
    rfl
  · rw [hproc, Create.State.popped, ← honly.tlsList, ← honly.tcb]
    rfl
  · rw [hproc, ← honly.threads]
    rfl
  · rw [hproc, ← honly.sigstates]
    exact Function.update_idem _ _ _

/-- The new thread has its TCB, its kernel thread and its signal mask. -/
theorem Created.thread_new (hs : Created E K attr t pt self ktid a s s') (h : Inv E s free)
    (hlive : (t, self) ∈ s.live) (live : List (Addr × Port)) (hne : a ≠ 0) (hnot : a ∉ free')
    (hready : s'.gsBase ktid = (s'.proc.desc pt).tcb) :
    Thread E { s' with live := live } free' pt ktid := by
  constructor
  · exact hs.tcbNew ▸ hne
  · exact hs.tcbNew ▸ hnot
  · show (s'.proc.tcb (s'.proc.desc pt).tcb).first = (s'.proc.desc pt).tcb
    rw [hs.tcbNew, hs.tcb, Function.update_self]
  · show (s'.proc.tcb (s'.proc.desc pt).tcb).thrdesc = pt
    rw [hs.tcbNew, hs.tcb, Function.update_self]
  · show (s'.proc.tcb (s'.proc.desc pt).tcb).sigstate = some ktid
    rw [hs.tcbNew, hs.tcb, Function.update_self]
  · exact hready
  · show ktid ∈ s'.proc.threads
    rw [hs.threads]
    exact Finset.mem_insert_self _ _
  · refine ⟨_, (congrFun hs.sigstates ktid).trans (Function.update_self _ _ _), ?_⟩
    -- Without a parent nothing is blocked. The mask of a parent is in order.
    split
    · exact BitVec.zero_and
    · obtain ⟨blocked, hblocked, hcant⟩ := (h.thread t self hlive).blocked
      rw [hblocked]
      exact hcant

/-- Another thread keeps what it has. -/
theorem Created.thread_old (hs : Created E K attr t pt self ktid a s s') (h : Inv E s free)
    (hfresh : Fresh E K attr s) (haside : Aside K s s') (live : List (Addr × Port))
    (hport : K.threadCreate = some ktid) (ha : a = K.freshTcb ∨ a ∈ free)
    (hsub : ∀ b ∈ free', b ∈ free) (hu : (u, k) ∈ s.live) :
    Thread E { s' with live := live } free' u k := by
  have hthread := h.thread u k hu
  have hother := h.tcb_ne hfresh hu ha
  have hport' : K.threadCreate ≠ some k := fun hk => (hfresh.port k hk).1 hthread.thread
  refine hthread.frame ?_ ?_ ?_ (haside.gsBase k hport') ?_ ?_
  · exact congrArg Desc.tcb (hs.desc u (.inl ⟨k, hu⟩))
  · exact (congrFun hs.tcb _).trans (Function.update_of_ne hother _ _)
  · exact fun hmem => hthread.notFree (hsub _ hmem)
  · show k ∈ s'.proc.threads
    rw [hs.threads]
    exact Finset.mem_insert_of_mem hthread.thread
  · refine (congrFun hs.sigstates k).trans (Function.update_of_ne ?_ _ _)
    rintro rfl
    exact hport' hport

/-- The new stack is none of the others. -/
theorem Created.apart (hs : Created E K attr t pt self ktid a s s') (h : Inv E s free)
    (hfresh : Fresh E K attr s) (hu : s.Owner u) (husr : (s'.proc.desc u).usrStack = false)
    (husr' : (s'.proc.desc pt).usrStack = false) :
    (s'.proc.desc u).freeRange ≠ (s'.proc.desc pt).freeRange := by
  intro heq
  rw [hs.desc u hu] at husr heq
  obtain ⟨-, hrange⟩ := h.mapped u hu husr
  rcases hs.stack with ⟨htrue, -⟩ | ⟨-, -, hiff⟩
  · rw [htrue] at husr'
    cases husr'
  · rw [heq] at hrange
    exact h.notNew hfresh hu ((hiff u).mp hrange)

/-- The stacks are mapped, the new one among them. -/
theorem Created.mapped (hs : Created E K attr t pt self ktid a s s') (h : Inv E s free)
    (hu : u = pt ∨ s.Owner u) (husr : (s'.proc.desc u).usrStack = false) :
    (s'.proc.desc u).freeRange ∈ s'.proc.mappings ∧ InRange (s'.proc.desc u).freeRange u := by
  rcases hu with rfl | hu
  · rcases hs.stack with ⟨htrue, -⟩ | ⟨-, hmap, hiff⟩
    · rw [htrue] at husr
      cases husr
    · rw [hmap]
      exact ⟨List.mem_cons_self, (hiff u).mpr hs.newMemory⟩
  · rw [hs.desc u hu] at husr ⊢
    obtain ⟨hmem, hrange⟩ := h.mapped u hu husr
    refine ⟨?_, hrange⟩
    rcases hs.stack with ⟨-, hmap⟩ | ⟨-, hmap, -⟩
    · rw [hmap]
      exact hmem
    · rw [hmap]
      exact List.mem_cons_of_mem _ hmem

/-- No two threads have one stack. -/
theorem Created.own (hs : Created E K attr t pt self ktid a s s') (h : Inv E s free)
    (hfresh : Fresh E K attr s) {v : Addr} (hu : u = pt ∨ s.Owner u) (hv : v = pt ∨ s.Owner v)
    (husr : (s'.proc.desc u).usrStack = false) (husr' : (s'.proc.desc v).usrStack = false)
    (heq : (s'.proc.desc u).freeRange = (s'.proc.desc v).freeRange) : u = v := by
  rcases hu with rfl | hu
  · rcases hv with rfl | hv
    · rfl
    · exact absurd heq.symm (hs.apart h hfresh hv husr' husr)
  · rcases hv with rfl | hv
    · exact absurd heq (hs.apart h hfresh hu husr husr')
    · rw [hs.desc u hu] at husr heq
      rw [hs.desc v hv] at husr' heq
      exact h.own u v hu hv husr husr' heq

/-- The new thread has the TCB, the kernel thread and the stack for itself. -/
theorem Inv.created (h : Inv E s free) (hfresh : Fresh E K attr s) (haside : Aside K s s')
    (hlive : (t, self) ∈ s.live) (hport : K.threadCreate = some ktid)
    (hready : s'.gsBase ktid = (s'.proc.desc pt).tcb) (hdl : K.dlAllocateTls = true)
    (hs : Created E K attr t pt self ktid (dlAllocateTls K s.proc.tlsList) s s') :
    ∃ free', Inv E { s' with live := (pt, ktid) :: s'.live } free' := by
  obtain ⟨rest, hrest, hsub, htaken⟩ := popped_list h.list
  obtain ⟨hnot, ha⟩ := taken_tcb (K := K) hdl htaken
  have hne := dlAllocateTls_ne (K := K) hdl s.proc.tlsList
  generalize dlAllocateTls K s.proc.tlsList = a at *
  have howner (u : Addr) (hu : ({ s' with live := (pt, ktid) :: s'.live } : State).Owner u) :
      u = pt ∨ s.Owner u := by
    rcases hu with ⟨k, hmem⟩ | hdead
    · rcases List.mem_cons.mp hmem with heq | hmem
      · exact .inl (Prod.mk.inj heq).1
      · exact .inr (.inl ⟨k, haside.live ▸ hmem⟩)
    · exact .inr (.inr (haside.dead ▸ hdead))
  refine ⟨rest, ?_, ?_, ?_, ?_, ?_⟩
  · show Seg s'.proc.nextTcb s'.proc.tlsList rest 0
    rw [hs.tlsList]
    refine hrest.congr fun c hc => nextTcb_update hs.tcb ?_
    rintro rfl
    exact hnot hc
  · intro u k hu
    rcases List.mem_cons.mp hu with heq | hu
    · obtain ⟨rfl, rfl⟩ := Prod.mk.inj heq
      exact hs.thread_new h hlive _ hne hnot hready
    · exact hs.thread_old h hfresh haside _ hport ha hsub (haside.live ▸ hu)
  · exact fun u hu husr => hs.mapped h (howner u hu) husr
  · exact fun u v hu hv husr husr' heq =>
      hs.own h hfresh (howner u hu) (howner v hv) husr husr' heq
  · intro u hu k hmem
    have hdead : u ∈ s.dead := haside.dead ▸ hu
    rcases List.mem_cons.mp hmem with heq | hmem
    · obtain ⟨rfl, -⟩ := Prod.mk.inj heq
      exact h.notNew hfresh (.inr hdead) hs.newMemory
    · exact h.dead u hdead k (haside.live ▸ hmem)

/-! ### All runs -/

/-- The main thread has what the dynamic linker has prepared. -/
theorem Inv.init (hs : Loaded E self s) (pt stack : Addr) (size : BitVec 32) :
    Inv E (pthreadInitialize pt self stack size s) [] := by
  have hdesc : ((pthreadInitialize pt self stack size s).proc.desc pt).tcb = s.gsBase self ∧
      ((pthreadInitialize pt self stack size s).proc.desc pt).usrStack = true := by
    have hflags (x : BitVec 32) :
        ((x ||| (PT_FLG_USR_STACK ||| PT_FLG_MAIN_THREAD)) &&& PT_FLG_USR_STACK != 0) = true := by
      rw [← BitVec.or_assoc, or_and_of_disjoint (by decide), or_and_self]
      decide
    have hfield : (pthreadInitialize pt self stack size s).proc.desc pt =
        { s.proc.desc pt with
          tcb := s.getTcb self
          id := 1
          flags := (s.proc.desc pt).flags ||| (PT_FLG_USR_STACK ||| PT_FLG_MAIN_THREAD)
          stack := stack - size
          stacksize := size } := Function.update_self _ _ _
    rw [hfield]
    exact ⟨hs.tcb, hflags _⟩
  have htcb : (pthreadInitialize pt self stack size s).proc.tcb (s.gsBase self) =
      { s.proc.tcb (s.gsBase self) with
        first := s.gsBase self, self := self, thrdesc := pt, sigstate := some self } := by
    rw [← hs.tcb]
    exact Function.update_self _ _ _
  have howner (t : Addr) (ht : (pthreadInitialize pt self stack size s).Owner t) : t = pt := by
    rcases ht with ⟨k, hmem⟩ | hdead
    · exact (Prod.mk.inj (List.mem_singleton.mp hmem)).1
    · have hdead' : t ∈ s.dead := hdead
      rw [hs.dead] at hdead'
      cases hdead'
  constructor
  · show Seg _ s.proc.tlsList [] 0
    rw [hs.tlsList]
    exact .nil 0
  · intro t k hlive
    obtain ⟨rfl, rfl⟩ := Prod.mk.inj (List.mem_singleton.mp hlive)
    constructor
    · exact hdesc.1 ▸ hs.tcb_ne
    · exact List.not_mem_nil
    · rw [hdesc.1, htcb]
    · rw [hdesc.1, htcb]
    · rw [hdesc.1, htcb]
    · exact hdesc.1.symm
    · exact hs.threads
    · exact hs.blocked
  · intro t ht husr
    rw [howner t ht, hdesc.2] at husr
    cases husr
  · intro t u ht hu _ _ _
    rw [howner t ht, howner u hu]
  · intro t ht
    have hdead : t ∈ s.dead := ht
    rw [hs.dead] at hdead
    cases hdead

/-- A kernel thread that runs has a descriptor. -/
theorem exists_live (h : s.runs k = true) : ∃ t, (t, k) ∈ s.live := by
  obtain ⟨⟨t, k'⟩, hmem, hk⟩ := List.any_eq_true.mp h
  obtain rfl := beq_iff_eq.mp hk
  exact ⟨t, hmem⟩

/-- A compare-and-swap of `joinpt` does not matter here. -/
theorem sameDesc_joinpt (d : Desc) (x : Addr) : SameDesc d { d with joinpt := x } :=
  ⟨rfl, rfl, rfl⟩

/-- A whole creation keeps the invariant. -/
theorem Inv.create (h : Inv E s free) (hfresh : Fresh E K (args.attrp.getD E.dflAttr) s)
    (hlive : (t, self) ∈ s.live) (hcall : pthreadCreate E K M self args s = some (r, s')) :
    ∃ free', Inv E (if r = .ok then
      { s' with live := (s'.proc.ptp, K.threadCreate.getD 0) :: s'.live } else s') free' := by
  obtain ⟨haside, ⟨rfl, pt, ktid, s₁, hs⟩ | ⟨rfl, blocked, hfailed⟩⟩ := create_cases hcall
  · rw [if_pos rfl, hs.ptp, hs.port]
    exact h.created hfresh haside hlive hs.port hs.ready.gsBase hs.tls
      (h.success hfresh hlive hs)
  · rw [if_neg (by decide)]
    exact h.create_failed hfresh haside hfailed

/-- Every call keeps the invariant. -/
theorem Inv.step (h : Inv E s free) {a : Act} (hok : Ok E s a)
    (hstep : Identity.step E s a = some s') : ∃ free', Inv E s' free' := by
  cases a with
  | create self K M args =>
      obtain ⟨hruns, hstep⟩ := Option.ite_none_right_eq_some.mp hstep
      obtain ⟨t, hlive⟩ := exists_live hruns
      obtain ⟨⟨r, s₁⟩, hcall, rfl⟩ := Option.map_eq_some_iff.mp hstep
      exact h.create hok hlive hcall
  | exit self =>
      obtain ⟨hruns, hstep⟩ := Option.ite_none_right_eq_some.mp hstep
      obtain ⟨t, hlive⟩ := exists_live hruns
      obtain ⟨p, hclean, rfl⟩ := Option.map_eq_some_iff.mp hstep
      -- The thread that ends is the one that it finds itself.
      rw [(h.thread t self hlive).pthreadSelf] at hclean ⊢
      exact ⟨_, h.exit hlive hclean⟩
  | detach self pt =>
      obtain ⟨-, hstep⟩ := Option.ite_none_right_eq_some.mp hstep
      obtain rfl := Option.some.inj hstep
      exact ⟨free, h.setDesc pt _ fun d => sameDesc_joinpt d _⟩
  | join self pt =>
      obtain ⟨-, hstep⟩ := Option.ite_none_right_eq_some.mp hstep
      obtain rfl := Option.some.inj hstep
      exact ⟨free, h.setDesc pt _ fun d => sameDesc_joinpt d _⟩
  | leave self pt =>
      obtain ⟨-, hstep⟩ := Option.ite_none_right_eq_some.mp hstep
      obtain rfl := Option.some.inj hstep
      exact ⟨free, h.setDesc pt _ fun d => sameDesc_joinpt d _⟩
  | deallocate self pt =>
      obtain ⟨⟨-, hdead⟩, hstep⟩ := Option.ite_none_right_eq_some.mp hstep
      obtain rfl := Option.some.inj hstep
      exact ⟨free, h.deallocate hdead⟩
  | sigmask self how setp =>
      obtain ⟨-, hstep⟩ := Option.ite_none_right_eq_some.mp hstep
      obtain rfl := Option.some.inj hstep
      exact ⟨free, h.sigmask self how setp⟩

/-- The invariant holds in every reached state. -/
theorem inv_of_reach (h : (machine E).ReachVia (Ok E) s) : ∃ free, Inv E s free := by
  refine h.invariant (P := fun s => ∃ free, Inv E s free) ?_ ?_
  · rintro s ⟨pt, self, stack, size, s₀, hloaded, rfl⟩
    exact ⟨[], Inv.init hloaded pt stack size⟩
  · rintro s a s' ⟨free, hinv⟩ hok hstep
    exact hinv.step hok hstep

/-- Whatever calls were made, and wherever they failed: each thread that runs is known by its
own descriptor, and has its TCB and its stack for itself. -/
theorem threads_known (E : Env) (s : State) (h : (machine E).ReachVia (Ok E) s) (t : Addr)
    (k : Port) (hlive : (t, k) ∈ s.live) : Known E s t k := by
  obtain ⟨free, hinv⟩ := inv_of_reach h
  exact hinv.known hlive

/-! ### A process with two threads -/

/-- `Create.Env.pages`, with SIGKILL and SIGSTOP as the signals that cannot be blocked. -/
def Env.pages : Env where
  toEnv := Create.Env.pages
  threadEntry := 0x4000
  cantMask := 0x10100

/-- The kernel thread 1 has its TCB at `0x7000` and blocks SIGINT. -/
def State.loaded : State where
  proc := { Create.State.fresh with
    tcb := fun a => ⟨a, 1, 0, 0, some 1⟩
    sigstates := Function.update (fun _ => none) 1 (some 2) }
  regs := fun _ => ⟨0, 0, 0xf⟩
  segment := fun _ _ => hurdTlsDesc 0x7000
  word := fun _ => 0
  live := []
  dead := []

/-- The main thread at `0x5000`. -/
def State.main : State := pthreadInitialize 0x5000 1 0xc0000000 0x200000 State.loaded

/-- Everything succeeds. -/
def KernelAnswers.all : KernelAnswers := ⟨true, true, none, true⟩

theorem loaded_ok : Loaded .pages 1 .loaded := by
  have hbase : State.loaded.gsBase 1 = 0x7000 := base_hurdTlsDesc _
  exact ⟨hbase ▸ by decide, rfl, rfl, rfl, by decide, ⟨2, rfl, by decide⟩, rfl⟩

/-- The main thread has memory, a port and a TCB for the first creation. -/
theorem main_fresh : Fresh .pages .all Create.Env.pages.dflAttr .main := by
  have howner (t : Addr) (ht : State.main.Owner t) : t = 0x5000 := by
    rcases ht with ⟨k, hmem⟩ | hdead
    · exact (Prod.mk.inj (List.mem_singleton.mp hmem)).1
    · cases hdead
  constructor
  · intro ktid hcreate
    cases hcreate
    exact ⟨by decide, by decide⟩
  · intro t k hlive
    rw [howner t (.inl ⟨k, hlive⟩)]
    decide
  · intro q _ r hr
    cases hr
  · intro t ht _ hnew
    have hlibrary : Create.Env.pages.dflAttr.stack = 0 := rfl
    rw [howner t ht, NewMemory, if_pos hlibrary] at hnew
    obtain ⟨base, hbase, hlt⟩ := hnew
    cases hbase
    exact absurd hlt (by decide)

/-- The main thread creates a thread on the kernel thread 5. -/
theorem threads_known_created : ∃ s t, (machine .pages).ReachVia (Ok .pages) s ∧
    s.live = [(t, 5), (0x5000, 1)] ∧ Known .pages s t 5 ∧ Known .pages s 0x5000 1 := by
  have hinit : (machine .pages).ReachVia (Ok .pages) .main :=
    .init ⟨0x5000, 1, 0xc0000000, 0x200000, .loaded, loaded_ok, rfl⟩
  obtain ⟨s, t, hstep, hlive⟩ : ∃ s t, step .pages .main (.create 1 .all .all ⟨none, 0, 0⟩) =
      some s ∧ s.live = [(t, 5), (0x5000, 1)] := ⟨_, _, rfl, rfl⟩
  have hok : Ok .pages .main (.create 1 .all .all ⟨none, 0, 0⟩) := main_fresh
  have hreach : (machine .pages).ReachVia (Ok .pages) s := hinit.step hok hstep
  have hmem (p : Addr × Port) (hp : p ∈ [(t, 5), (0x5000, 1)]) : p ∈ s.live := hlive ▸ hp
  exact ⟨s, t, hreach, hlive, threads_known .pages s hreach t 5 (hmem _ (by simp)),
    threads_known .pages s hreach 0x5000 1 (hmem _ (by simp))⟩

/-- A new thread begins with `thread_entry`, which finds its descriptor as its argument, and
in it the function to call. It blocks the signals that its creator blocks. -/
theorem created_ready (E : Env) (K : Answers) (M : KernelAnswers) (self : Port) (args : Args)
    (s s' : State) (h : (machine E).ReachVia (Ok E) s)
    (hfresh : Fresh E K (args.attrp.getD E.dflAttr) s) (t : Addr) (hlive : (t, self) ∈ s.live)
    (hcall : pthreadCreate E K M self args s = some (.ok, s')) :
    ∃ ktid, K.threadCreate = some ktid ∧ Ready s'.proc.ptp E.threadEntry ktid s' ∧
      (s'.proc.desc s'.proc.ptp).startFct = args.startFct ∧
      (s'.proc.desc s'.proc.ptp).argp = args.argp ∧
      (t ≠ 0 → s'.proc.sigstates ktid = s.proc.sigstates self) := by
  obtain ⟨free, hinv⟩ := inv_of_reach h
  obtain ⟨-, ⟨-, pt, ktid, s₁, hs⟩ | ⟨hcode, -⟩⟩ := create_cases hcall
  · have hcreated := hinv.success hfresh hlive hs
    have hdesc : (s'.proc.desc pt).startFct = args.startFct ∧
        (s'.proc.desc pt).argp = args.argp := by
      rw [hs.proc, desc_created]
      exact ⟨rfl, rfl⟩
    rw [hs.ptp]
    refine ⟨ktid, hs.port, hs.ready, hdesc.1, hdesc.2, fun hne => ?_⟩
    obtain ⟨blocked, hblocked, -⟩ := (hinv.thread t self hlive).blocked
    rw [hcreated.sigstates, Function.update_self, if_neg hne, hblocked]
    rfl
  · cases hcode

/-- The new thread of the process. -/
theorem created_ready_main : ∃ s', pthreadCreate .pages .all .all 1 ⟨none, 0x6000, 7⟩ .main =
      some (.ok, s') ∧ Ready s'.proc.ptp 0x4000 5 s' ∧
      (s'.proc.desc s'.proc.ptp).startFct = 0x6000 ∧ s'.proc.sigstates 5 = some 2 := by
  have hinit : (machine .pages).ReachVia (Ok .pages) .main :=
    .init ⟨0x5000, 1, 0xc0000000, 0x200000, .loaded, loaded_ok, rfl⟩
  obtain ⟨s', hcall⟩ : ∃ s', pthreadCreate .pages .all .all 1 ⟨none, 0x6000, 7⟩ .main =
      some (.ok, s') := ⟨_, rfl⟩
  obtain ⟨ktid, hport, hready, hstart, -, hsig⟩ := created_ready .pages .all .all 1
    ⟨none, 0x6000, 7⟩ .main s' hinit main_fresh 0x5000 List.mem_cons_self hcall
  cases hport
  exact ⟨s', hcall, hready, hstart, hsig (by decide)⟩

end Hlpt.Identity
