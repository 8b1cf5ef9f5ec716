import Hlpt.Create.Stack
import Hlpt.Lib.Links

/-!
# `Hlpt.Create.Failed`: what a failed creation leaves behind

`pthread_create` takes a mapping, a kernel thread, a signal state and a TCB, and gives them
back when a later step fails. `alloc_tls` takes the TCB from the free list before it calls
`_dl_allocate_tls`, and keeps its address in the descriptor only. When that call fails, it
stores NULL there, and nobody has the TCB any more.

* `acquire_none`: what the labels of `pt_allocate` undo.
* `start_eagain`: what `pthread_create` undoes itself.
* `create_failed_iff`: everything is undone, but for that TCB.
-/

set_option autoImplicit false

namespace Hlpt.Create

open Hlpt.Lib

/-- The link of a TCB on the free list. -/
def State.nextTcb (s : State) (a : Addr) : Option Addr :=
  if a = 0 then none else some (s.tcb a).first

/-- The TCB is on the free list. -/
def OnFreeList (s : State) (a : Addr) : Prop := ∃ l, Seg s.nextTcb s.tlsList l 0 ∧ a ∈ l

/-- A call that started in `s` has left nothing in `s'`. -/
structure NothingLeft (s s' : State) : Prop where
  mappings : s'.mappings = s.mappings
  threads : s'.threads = s.threads
  sigstates : s'.sigstates = s.sigstates
  free : ∀ a, OnFreeList s a → OnFreeList s' a
  total : s'.total = s.total
  running : s'.running = s.running
  ptp : s'.ptp = s.ptp

/-- The free list ends, and the port of a new thread is new. -/
structure Sound (K : Answers) (s : State) : Prop where
  freeList : ∃ l, Seg s.nextTcb s.tlsList l 0
  port : ∀ ktid, K.threadCreate = some ktid → ktid ∉ s.threads ∧ s.sigstates ktid = none

/-- All steps before `alloc_tls` succeed. -/
def ReachesTls (E : Env) (K : Answers) (attr : Attr) : Prop :=
  (attr.stack ≠ 0 ∨ K.vmMap ≠ none ∧ (attr.guard E = 0 ∨ K.vmProtect = true)) ∧
    K.threadCreate ≠ none ∧ K.threadSigstate = true

/-- A TCB is taken from the free list, and `_dl_allocate_tls` fails for it. -/
def LosesTcb (E : Env) (K : Answers) (attr : Attr) (s : State) : Prop :=
  s.tlsList ≠ 0 ∧ ReachesTls E K attr ∧ K.dlAllocateTls = false

variable {E : Env} {K : Answers} {attr : Attr} {args : Args} {s s' s₁ : State}
  {base pt a : Addr} {ktid : Port}

/-! ### The free list -/

/-- The free list is told by its head and the first words of the TCBs. -/
theorem OnFreeList.congr (h : OnFreeList s a) (hhead : s'.tlsList = s.tlsList)
    (hfirst : ∀ b, (s'.tcb b).first = (s.tcb b).first) : OnFreeList s' a := by
  have hnext : s'.nextTcb = s.nextTcb := by
    funext b
    rw [State.nextTcb, State.nextTcb, hfirst]
  unfold OnFreeList
  rw [hhead, hnext]
  exact h

/-- No TCB is on an empty list. -/
theorem not_onFreeList (h : s.tlsList = 0) : ¬ OnFreeList s a := by
  rintro ⟨l, hl, ha⟩
  rw [h] at hl
  cases hl with
  | nil => cases ha
  | cons hd _ =>
      rw [State.nextTcb, if_pos rfl] at hd
      cases hd

/-- The first TCB is not on the list any more when it was taken off. -/
theorem popped (hlist : ∃ l, Seg s.nextTcb s.tlsList l 0) (hne : s.tlsList ≠ 0)
    (hhead : s'.tlsList = (s.tcb s.tlsList).first) (htcb : s'.tcb = s.tcb) :
    OnFreeList s s.tlsList ∧ ¬ OnFreeList s' s.tlsList := by
  obtain ⟨l, hl⟩ := hlist
  have hnext : s'.nextTcb = s.nextTcb := by
    funext b
    rw [State.nextTcb, State.nextTcb, htcb]
  have hlink : s.nextTcb s.tlsList = some s'.tlsList := by
    rw [State.nextTcb, if_neg hne, hhead]
  constructor
  · refine ⟨l, hl, ?_⟩
    cases l with
    | nil => exact absurd (Seg.nil_iff.mp hl) hne
    | cons b l =>
        obtain ⟨rfl, -⟩ := Seg.cons_iff.mp hl
        exact List.mem_cons_self
  · rintro ⟨l', hl', hmem⟩
    rw [hnext] at hl'
    exact (Seg.cons hlink hl').head_notMem (if_pos rfl) hmem

/-! ### The stack -/

/-- `free_stack` changes the mappings only. -/
theorem freeStack_rest (pt : Addr) (s : State) :
    (freeStack pt s).threads = s.threads ∧ (freeStack pt s).sigstates = s.sigstates ∧
      (freeStack pt s).tlsList = s.tlsList ∧ (freeStack pt s).tcb = s.tcb ∧
      (freeStack pt s).total = s.total ∧ (freeStack pt s).running = s.running ∧
      (freeStack pt s).ptp = s.ptp := by
  unfold freeStack
  simp only
  split
  · exact ⟨rfl, rfl, rfl, rfl, rfl, rfl, rfl⟩
  · exact ⟨rfl, rfl, rfl, rfl, rfl, rfl, rfl⟩

/-- `free_stack` goes by what the descriptor says of the stack. -/
theorem freeStack_mappings (hmap : s'.mappings = s.mappings)
    (hdesc : (s.desc pt).SameStack (s'.desc pt)) :
    (freeStack pt s').mappings = (freeStack pt s).mappings := by
  obtain ⟨hflags, hstack, hsize, hguard⟩ := hdesc
  have husr : (s'.desc pt).usrStack = (s.desc pt).usrStack := by
    rw [Desc.usrStack, Desc.usrStack, hflags]
  have hrange : (s'.desc pt).freeRange = (s.desc pt).freeRange := by
    rw [Desc.freeRange, Desc.freeRange, hstack, hsize, hguard]
  unfold freeStack State.vmDeallocate
  simp only [husr, hrange]
  split
  · exact hmap
  · rw [hmap]

/-- A stack of the library is released as it was mapped. -/
theorem freeStack_library {size guardsize : BitVec 32}
    (hin : InStack E attr base pt) (hsize : attr.mapSize E = size + guardsize) :
    (freeStack pt (initDesc attr pt (base + attr.mapSize E) size guardsize
      (s.vmMap base (attr.mapSize E)))).mappings = s.mappings := by
  obtain ⟨hf, hs, hz, hg⟩ := initDesc_vmMap hin (s := s) size guardsize (base + attr.mapSize E)
  generalize hstate : initDesc attr pt (base + attr.mapSize E) size guardsize
    (s.vmMap base (attr.mapSize E)) = s₁ at hf hs hz hg ⊢
  have hmapped : s₁.mappings = (base, attr.mapSize E) :: s.mappings := by
    rw [← hstate]
    rfl
  have hrange : (s₁.desc pt).freeRange = (base, attr.mapSize E) := by
    refine freeRange_eq ?_ ?_
    · rw [hz, hg, hsize]
    · rw [hs, hz]
  unfold freeStack State.vmDeallocate
  simp only
  rw [if_neg, hrange]
  · show s₁.mappings.erase (base, attr.mapSize E) = s.mappings
    rw [hmapped, List.erase_cons_head]
  · rw [Desc.usrStack, hf]
    decide

/-- A stack of the program is not released. -/
theorem freeStack_program (hdesc : (s.desc pt).flags = PT_FLG_USR_STACK) :
    freeStack pt s = s := by
  unfold freeStack
  simp only
  rw [if_pos]
  rw [Desc.usrStack, hdesc]
  decide

/-! ### The steps that fail -/

/-- What the call had taken when it came to `acquire`: its stack is released as `s₀` had it,
and nothing else is different. -/
structure OnlyStack (s₀ : State) (pt : Addr) (s : State) : Prop where
  mappings : (freeStack pt s).mappings = s₀.mappings
  threads : s.threads = s₀.threads
  sigstates : s.sigstates = s₀.sigstates
  tlsList : s.tlsList = s₀.tlsList
  tcb : s.tcb = s₀.tcb
  total : s.total = s₀.total
  running : s.running = s₀.running
  ptp : s.ptp = s₀.ptp

theorem dlAllocateTls_eq_zero (K : Answers) (mem : Addr) :
    dlAllocateTls K mem = 0 ↔ K.dlAllocateTls = false := by
  unfold dlAllocateTls
  cases K.dlAllocateTls with
  | false => simp
  | true =>
      simp only [if_true, Bool.true_eq_false, iff_false]
      split
      · exact K.freshTcb_ne
      · assumption

/-- The loop of `alloc_tls` changes the free list and the descriptor. -/
theorem popTls_eq (pt : Addr) (s : State) : popTls pt s =
    { s with
      desc := Function.update s.desc pt { s.desc pt with tcb := s.tlsList }
      tlsList := if s.tlsList = 0 then 0 else (s.tcb s.tlsList).first } := by
  unfold popTls
  simp only
  split
  · next h0 => simp only [State.setDesc, h0]
  · rfl

/-- What `alloc_tls` leaves: the block `a` of `_dl_allocate_tls` in the descriptor, and when
this is not NULL, in the block. -/
theorem allocTls_eq (K : Answers) (pt : Addr) (ktid : Port) (s : State) {a : Addr}
    (ha : dlAllocateTls K s.tlsList = a) :
    let s₁ := (popTls pt s).setDesc pt fun d => { d with tcb := a }
    allocTls K pt ktid s = if a = 0 then (false, s₁)
      else (true, s₁.setTcb a fun b => { b with first := a, self := ktid, thrdesc := pt }) := by
  have htcb : ((popTls pt s).desc pt).tcb = s.tlsList := by
    rw [popTls_eq]
    simp
  unfold allocTls
  simp only [htcb, ha]

/-- Everything but the TCB is undone. -/
structure Undone (s s' : State) : Prop where
  mappings : s'.mappings = s.mappings
  threads : s'.threads = s.threads
  sigstates : s'.sigstates = s.sigstates
  total : s'.total = s.total
  running : s'.running = s.running
  ptp : s'.ptp = s.ptp

/-- The release of the stack is the last step of every undoing. -/
theorem Undone.freeStack {s₀ : State} (h : Undone { s₀ with mappings := s.mappings } s)
    (hmap : (freeStack pt s).mappings = s₀.mappings) : Undone s₀ (freeStack pt s) := by
  obtain ⟨hthreads, hsig, -, -, htotal, hrunning, hptp⟩ := freeStack_rest pt s
  exact ⟨hmap, hthreads.trans h.threads, hsig.trans h.sigstates, htotal.trans h.total,
    hrunning.trans h.running, hptp.trans h.ptp⟩

/-- What `pt_allocate` leaves when a step from `thread_create` on fails. -/
theorem acquire_none {s₀ : State} (hs : Sound K s₀) (h₀ : OnlyStack s₀ pt s)
    (h : acquire K pt s = (none, s')) :
    Undone s₀ s' ∧ s'.tcb = s₀.tcb ∧
      if K.threadCreate ≠ none ∧ K.threadSigstate = true then
        K.dlAllocateTls = false ∧
          s'.tlsList = if s₀.tlsList = 0 then 0 else (s₀.tcb s₀.tlsList).first
      else s'.tlsList = s₀.tlsList := by
  have hrest := freeStack_rest pt
  unfold acquire at h
  split at h
  · next hcreate =>
      -- `thread_create` fails.
      obtain ⟨-, rfl⟩ := Prod.mk.inj h
      refine ⟨Undone.freeStack ?_ h₀.mappings, (hrest s).2.2.2.1.trans h₀.tcb, ?_⟩
      · exact ⟨rfl, h₀.threads, h₀.sigstates, h₀.total, h₀.running, h₀.ptp⟩
      · rw [if_neg fun hreach => hreach.1 hcreate]
        exact (hrest s).2.2.1.trans h₀.tlsList
  · next ktid hcreate =>
      obtain ⟨hport, hsig⟩ := hs.port ktid hcreate
      have hthreads : (insert ktid s.threads).erase ktid = s₀.threads := by
        rw [h₀.threads, Finset.erase_insert hport]
      simp only at h
      split at h
      · next hfail =>
          -- `_hurd_thread_sigstate` fails.
          obtain ⟨-, rfl⟩ := Prod.mk.inj h
          have hmap : (freeStack pt ((s.threadCreate ktid).threadTerminate ktid)).mappings =
              (freeStack pt s).mappings := freeStack_mappings rfl ⟨rfl, rfl, rfl, rfl⟩
          refine ⟨Undone.freeStack ?_ (hmap.trans h₀.mappings), (hrest _).2.2.2.1.trans h₀.tcb, ?_⟩
          · exact ⟨rfl, hthreads, h₀.sigstates, h₀.total, h₀.running, h₀.ptp⟩
          · rw [if_neg fun hreach => by simp [hreach.2] at hfail]
            exact (hrest _).2.2.1.trans h₀.tlsList
      · next hsuccess =>
          -- `alloc_tls` fails.
          have hstate : K.threadSigstate = true := by simpa using hsuccess
          have hsame := allocTls_sameStack K pt ktid
            ((s.threadCreate ktid).hurdThreadSigstate ktid)
          rw [allocTls_eq K pt ktid _ rfl] at h hsame
          split at h
          · next s₁ halloc =>
              split at halloc
              · next h0 =>
                  obtain ⟨-, rfl⟩ := Prod.mk.inj halloc
                  obtain ⟨-, rfl⟩ := Prod.mk.inj h
                  rw [if_pos h0, popTls_eq] at hsame
                  rw [popTls_eq]
                  refine ⟨Undone.freeStack ?_ ?_, (hrest _).2.2.2.1.trans h₀.tcb, ?_⟩
                  · refine ⟨rfl, hthreads, ?_, h₀.total, h₀.running, h₀.ptp⟩
                    show Function.update (Function.update s.sigstates ktid (some 0)) ktid none = _
                    rw [Function.update_idem, h₀.sigstates, ← hsig, Function.update_eq_self]
                  · refine Eq.trans (freeStack_mappings (s := s) ?_ ?_) h₀.mappings
                    · rfl
                    · exact hsame
                  · have hcreated : K.threadCreate ≠ none := by simp [hcreate]
                    rw [if_pos ⟨hcreated, hstate⟩, ← h₀.tlsList, ← h₀.tcb]
                    exact ⟨(dlAllocateTls_eq_zero K _).mp h0, (hrest _).2.2.1⟩
              · cases (Prod.mk.inj halloc).1
          · cases (Prod.mk.inj h).1

/-- What the call has taken when `pt_allocate` succeeds, with the TCB `a`. -/
structure Acquired (s₀ : State) (pt : Addr) (ktid : Port) (a : Addr) (s : State) : Prop where
  mappings : (freeStack pt s).mappings = s₀.mappings
  threads : s.threads = insert ktid s₀.threads
  sigstates : s.sigstates = Function.update s₀.sigstates ktid (some 0)
  desc : (s.desc pt).tcb = a
  kport : (s.tcb a).sigstate = some ktid
  first : ∀ b, b ≠ a → (s.tcb b).first = (s₀.tcb b).first
  tlsList : s.tlsList = if s₀.tlsList = 0 then 0 else (s₀.tcb s₀.tlsList).first
  total : s.total = s₀.total
  running : s.running = s₀.running
  ptp : s.ptp = s₀.ptp

/-- All steps from `thread_create` on succeed. -/
theorem acquired_of_acquire {s₀ : State} {p : Addr} (h₀ : OnlyStack s₀ pt s)
    (h : acquire K pt s = (some p, s')) :
    p = pt ∧ K.dlAllocateTls = true ∧ ∃ ktid, K.threadCreate = some ktid ∧
      Acquired s₀ pt ktid (dlAllocateTls K s₀.tlsList) s' := by
  obtain ⟨hp, hsame⟩ := acquire_some h
  refine ⟨hp, ?_⟩
  unfold acquire at h
  split at h
  · cases h
  · next ktid hcreate =>
      simp only at h
      split at h
      · cases h
      · rw [allocTls_eq K pt ktid _ rfl] at h
        split at h
        · cases h
        · next s₁ halloc =>
            split at halloc
            · cases halloc
            · next hne =>
                obtain ⟨-, rfl⟩ := Prod.mk.inj halloc
                obtain ⟨-, rfl⟩ := Prod.mk.inj h
                have hdl : K.dlAllocateTls = true := by
                  by_contra hfail
                  exact hne ((dlAllocateTls_eq_zero K _).mpr (Bool.eq_false_iff.mpr hfail))
                refine ⟨hdl, ktid, hcreate, ?_⟩
                have hmap := freeStack_mappings (s := s) (by rw [popTls_eq]; rfl) hsame
                rw [popTls_eq] at hmap ⊢
                have ha : dlAllocateTls K s.tlsList = dlAllocateTls K s₀.tlsList := by
                  rw [h₀.tlsList]
                constructor
                · exact hmap.trans h₀.mappings
                · exact congrArg (insert ktid) h₀.threads
                · exact congrArg (Function.update · ktid (some 0)) h₀.sigstates
                · simp [State.setTcb, State.setDesc, State.threadCreate, State.hurdThreadSigstate,
                    ha]
                · simp [State.setTcb, State.setDesc, State.threadCreate, State.hurdThreadSigstate,
                    ha]
                · intro b hb
                  simp [State.setTcb, State.setDesc, State.threadCreate, State.hurdThreadSigstate,
                    ha, hb, h₀.tcb]
                · rw [← h₀.tlsList, ← h₀.tcb]
                  rfl
                · exact h₀.total
                · exact h₀.running
                · exact h₀.ptp

/-! ### The rollback of `pthread_create` -/

/-- `dealloc_tls` puts the TCB at the head of the free list. -/
theorem deallocTls_list (pt : Addr) (s : State) (ha : (s.desc pt).tcb = a) :
    (deallocTls pt s).tlsList = a ∧ ((deallocTls pt s).tcb a).first = s.tlsList ∧
      ∀ b, b ≠ a → ((deallocTls pt s).tcb b).first = (s.tcb b).first := by
  subst ha
  refine ⟨rfl, ?_, fun b hb => ?_⟩
  · simp [deallocTls, State.setTcb, State.setDesc]
  · simp [deallocTls, State.setTcb, State.setDesc, hb]

/-- What `pthread_create` has done when it sets the machine state of the thread `ktid`. -/
def prepared (args : Args) (pt : Addr) (ktid : Port) (s : State) : State :=
  { (s.setDesc pt fun d => { d with startFct := args.startFct, argp := args.argp }).setBlocked ktid
      (args.parentBlocked.getD 0) with total := s.total + 1 }

/-- What it does when that fails. -/
def rollback (pt : Addr) (ktid : Port) (s : State) : State :=
  freeStack pt ((deallocTls pt (s.hurdSigstateDelete ktid)).threadTerminate ktid)

theorem start_eq (hkport : s.kport pt = some ktid) : start K args pt s =
    if !K.setMachineState then
      (.eagain, { rollback pt ktid (prepared args pt ktid s) with
        total := (rollback pt ktid (prepared args pt ktid s)).total - 1 })
    else (.ok, { prepared args pt ktid s with ptp := pt, mtflag := true }) := by
  have hdesc : (s.setDesc pt fun d =>
      { d with startFct := args.startFct, argp := args.argp }).kport pt = some ktid := by
    simpa [State.kport, State.setDesc] using hkport
  unfold start
  simp only
  rw [hdesc]
  rfl

/-- The thread, its signal state and the stack are given back. -/
theorem rollback_undone {s₀ : State} (args : Args) (hs : Sound K s₀)
    (hcreate : K.threadCreate = some ktid) (h₀ : Acquired s₀ pt ktid a s) :
    Undone { s₀ with total := s₀.total + 1 } (rollback pt ktid (prepared args pt ktid s)) := by
  obtain ⟨hport, hsig⟩ := hs.port ktid hcreate
  refine Undone.freeStack ?_ ?_
  · refine ⟨rfl, ?_, ?_, ?_, h₀.running, h₀.ptp⟩
    · show s.threads.erase ktid = s₀.threads
      rw [h₀.threads, Finset.erase_insert hport]
    · show Function.update (Function.update s.sigstates ktid _) ktid none = s₀.sigstates
      rw [h₀.sigstates, Function.update_idem, Function.update_idem, ← hsig,
        Function.update_eq_self]
    · show s.total + 1 = s₀.total + 1
      rw [h₀.total]
  · refine Eq.trans (freeStack_mappings (s := s) rfl ?_) h₀.mappings
    simp [prepared, deallocTls, State.hurdSigstateDelete, State.setBlocked, State.setDesc,
      State.threadTerminate, State.setTcb, Desc.SameStack]

/-- The TCB from the free list was its head, and it is again. -/
theorem rollback_free {s₀ : State} (args : Args) (hdl : K.dlAllocateTls = true)
    (h₀ : Acquired s₀ pt ktid (dlAllocateTls K s₀.tlsList) s) (h : OnFreeList s₀ a) :
    OnFreeList (rollback pt ktid (prepared args pt ktid s)) a := by
  by_cases hne : s₀.tlsList = 0
  · exact absurd h (not_onFreeList hne)
  have ha : dlAllocateTls K s₀.tlsList = s₀.tlsList := by
    rw [dlAllocateTls, if_pos hdl, if_neg hne]
  rw [ha] at h₀
  have hpop := h₀.tlsList
  rw [if_neg hne] at hpop
  -- The state in which `dealloc_tls` runs.
  generalize hs₁ : (prepared args pt ktid s).hurdSigstateDelete ktid = s₁
  have hdesc : (s₁.desc pt).tcb = s₀.tlsList := by
    rw [← hs₁]
    simpa [prepared, State.hurdSigstateDelete, State.setBlocked, State.setDesc] using h₀.desc
  have htcb : s₁.tcb = s.tcb := by
    rw [← hs₁]
    rfl
  have hlist : s₁.tlsList = s.tlsList := by
    rw [← hs₁]
    rfl
  obtain ⟨hhead, hfirst, hother⟩ := deallocTls_list pt s₁ hdesc
  obtain ⟨-, -, htls, htcbs, -⟩ := freeStack_rest pt ((deallocTls pt s₁).threadTerminate ktid)
  unfold rollback
  rw [hs₁]
  apply h.congr (htls.trans hhead)
  intro b
  rw [htcbs]
  show ((deallocTls pt s₁).tcb b).first = (s₀.tcb b).first
  by_cases hb : b = s₀.tlsList
  · rw [hb, hfirst, hlist, hpop]
  · rw [hother b hb, htcb, h₀.first b hb]

/-- The thread of the TCB, its signal state, the TCB itself and the stack are given back. -/
theorem start_eagain {s₀ : State} (hs : Sound K s₀) (hcreate : K.threadCreate = some ktid)
    (hdl : K.dlAllocateTls = true) (h₀ : Acquired s₀ pt ktid (dlAllocateTls K s₀.tlsList) s)
    (h : start K args pt s = (.eagain, s')) : NothingLeft s₀ s' := by
  have hkport : s.kport pt = some ktid := by
    rw [State.kport, h₀.desc]
    exact h₀.kport
  rw [start_eq hkport] at h
  split at h
  · obtain ⟨-, rfl⟩ := Prod.mk.inj h
    have hundone := rollback_undone args hs hcreate h₀
    constructor
    · exact hundone.mappings
    · exact hundone.threads
    · exact hundone.sigstates
    · intro b hb
      exact (rollback_free args hdl h₀ hb).congr rfl fun _ => rfl
    · show (rollback pt ktid (prepared args pt ktid s)).total - 1 = s₀.total
      rw [hundone.total]
      exact BitVec.add_sub_cancel _ _
    · exact hundone.running
    · exact hundone.ptp
  · cases (Prod.mk.inj h).1

/-! ### The whole function -/

/-- A stack of the library, with its descriptor. -/
theorem onlyStack_library (hin : InStack E attr base pt) :
    OnlyStack s pt (initDesc attr pt (base + attr.mapSize E) (roundupPage E (attr.size E))
      (attr.guard E) (s.vmMap base (attr.mapSize E))) :=
  ⟨freeStack_library hin rfl, rfl, rfl, rfl, rfl, rfl, rfl, rfl⟩

/-- A stack of the program, with its descriptor. -/
theorem onlyStack_program :
    OnlyStack s pt (initDesc attr pt attr.stack (attr.size E) attr.guardsize
      (s.setDesc pt fun _ => { Desc.zero with flags := PT_FLG_USR_STACK })) := by
  refine ⟨?_, rfl, rfl, rfl, rfl, rfl, rfl, rfl⟩
  rw [freeStack_program]
  · rfl
  · simp [initDesc, State.setDesc]

/-- The call when it has come to `acquire`. -/
theorem acquire_failed_iff {s₀ : State} {p : Option Addr} (hs : Sound K s₀)
    (h₀ : OnlyStack s₀ pt s)
    (hstack : attr.stack ≠ 0 ∨ K.vmMap ≠ none ∧ (attr.guard E = 0 ∨ K.vmProtect = true))
    (hacquire : acquire K pt s = (p, s₁))
    (h : (match (p, s₁) with
      | (none, s) => (.eagain, s)
      | (some pt, s) => start K args pt s) = (Code.eagain, s')) :
    NothingLeft s₀ s' ↔ ¬ LosesTcb E K attr s₀ := by
  cases p with
  | none =>
      obtain ⟨-, rfl⟩ := Prod.mk.inj h
      obtain ⟨hundone, htcb, hlist⟩ := acquire_none hs h₀ hacquire
      have hnothing (hfree : ∀ a, OnFreeList s₀ a → OnFreeList s₁ a) : NothingLeft s₀ s₁ :=
        ⟨hundone.mappings, hundone.threads, hundone.sigstates, hfree, hundone.total,
          hundone.running, hundone.ptp⟩
      split at hlist
      · next hreach =>
          obtain ⟨hfail, hpop⟩ := hlist
          by_cases hne : s₀.tlsList = 0
          · have hkept : NothingLeft s₀ s₁ := hnothing fun a ha => absurd ha (not_onFreeList hne)
            exact ⟨fun _ hloses => hloses.1 hne, fun _ => hkept⟩
          · rw [if_neg hne] at hpop
            obtain ⟨hon, hoff⟩ := popped hs.freeList hne hpop htcb
            have hloses : LosesTcb E K attr s₀ := ⟨hne, ⟨hstack, hreach⟩, hfail⟩
            exact ⟨fun hleft => absurd (hleft.free _ hon) hoff, fun hnot => absurd hloses hnot⟩
      · next hreach =>
          have hkept : NothingLeft s₀ s₁ :=
            hnothing fun a ha => ha.congr hlist fun b => by rw [htcb]
          exact ⟨fun _ hloses => hreach hloses.2.1.2, fun _ => hkept⟩
  | some p =>
      obtain ⟨rfl, hdl, ktid, hcreate, hacquired⟩ := acquired_of_acquire h₀ hacquire
      have hkept := start_eagain hs hcreate hdl hacquired h
      exact ⟨fun _ hloses => absurd hloses.2.2 (by simp [hdl]), fun _ => hkept⟩

/-- A call of `pthread_create` that fails with EAGAIN leaves nothing behind, unless
`_dl_allocate_tls` fails for a TCB from the free list. -/
theorem create_failed_iff (hs : Sound K s)
    (h : pthreadCreate E K args s = some (.eagain, s')) :
    NothingLeft s s' ↔ ¬ LosesTcb E K (args.attrp.getD E.dflAttr) s := by
  obtain ⟨⟨p, s₁⟩, hcall, hcode⟩ := Option.map_eq_some_iff.mp h
  generalize args.attrp.getD E.dflAttr = attr at hcall
  unfold ptAllocate at hcall
  split at hcall
  · next hlibrary =>
      split at hcall
      · next hmap =>
          -- `vm_map` fails.
          cases hcall
          obtain ⟨-, rfl⟩ := Prod.mk.inj hcode
          have hkept : NothingLeft s s := ⟨rfl, rfl, rfl, fun _ ha => ha, rfl, rfl, rfl⟩
          have hnot : ¬ LosesTcb E K attr s := fun hloses =>
            hloses.2.1.1.elim (absurd hlibrary) fun hmapped => hmapped.1 hmap
          exact ⟨fun _ => hnot, fun _ => hkept⟩
      · next base hmap =>
          simp only at hcall
          split at hcall
          · next hprotect =>
              -- `vm_protect` fails.
              cases hcall
              obtain ⟨-, rfl⟩ := Prod.mk.inj hcode
              have hkept : NothingLeft s ((s.vmMap base (attr.mapSize E)).vmDeallocate base
                  (attr.mapSize E)) := by
                refine ⟨?_, rfl, rfl, fun _ ha => ha, rfl, rfl, rfl⟩
                show ((base, attr.mapSize E) :: s.mappings).erase (base, attr.mapSize E) = _
                simp
              have hnot : ¬ LosesTcb E K attr s := fun hloses =>
                hloses.2.1.1.elim (absurd hlibrary) fun hmapped =>
                  hmapped.2.elim hprotect.1 (by simp [hprotect.2])
              exact ⟨fun _ => hnot, fun _ => hkept⟩
          · next hprotect =>
              split at hcall
              · next hin =>
                  have hmapped : K.vmMap ≠ none ∧ (attr.guard E = 0 ∨ K.vmProtect = true) := by
                    refine ⟨by simp [hmap], or_iff_not_imp_left.mpr ?_⟩
                    intro hguard
                    by_contra hfail
                    exact hprotect ⟨hguard, Bool.eq_false_iff.mpr hfail⟩
                  exact acquire_failed_iff hs (onlyStack_library hin) (.inr hmapped)
                    (Option.some.inj hcall) hcode
              · cases hcall
  · next hprogram =>
      exact acquire_failed_iff hs onlyStack_program (.inl hprogram) (Option.some.inj hcall) hcode

/-! ### Two calls -/

/-- A process with one TCB on the free list. -/
def State.oneFree : State := { State.fresh with tlsList := 0x9000 }

theorem oneFree_list : ∃ l, Seg State.oneFree.nextTcb State.oneFree.tlsList l 0 :=
  ⟨[0x9000], .cons (rfl : State.oneFree.nextTcb 0x9000 = some 0) (.nil 0)⟩

/-- The machine state of the new thread cannot be set. The TCB is on the list again. -/
theorem create_failed_rollback : ∃ s',
    pthreadCreate .pages { Answers.all with setMachineState := false } ⟨none, 0, 0, none⟩
      .oneFree = some (.eagain, s') ∧ NothingLeft .oneFree s' := by
  have hs : Sound { Answers.all with setMachineState := false } .oneFree := by
    refine ⟨oneFree_list, ?_⟩
    intro ktid hcreate
    cases hcreate
    exact ⟨by decide, rfl⟩
  have hnot : ¬ LosesTcb .pages { Answers.all with setMachineState := false }
      ((none : Option Attr).getD Env.pages.dflAttr) .oneFree := fun hloses =>
    absurd hloses.2.2 (by decide)
  obtain ⟨s', hcall⟩ : ∃ s', pthreadCreate .pages { Answers.all with setMachineState := false }
      ⟨none, 0, 0, none⟩ .oneFree = some (.eagain, s') := ⟨_, rfl⟩
  exact ⟨s', hcall, (create_failed_iff hs hcall).mpr hnot⟩

/-- `_dl_allocate_tls` fails for the TCB at `0x9000`, which is lost. -/
theorem tcb_lost : ∃ s',
    pthreadCreate .pages { Answers.all with dlAllocateTls := false } ⟨none, 0, 0, none⟩
      .oneFree = some (.eagain, s') ∧
    OnFreeList .oneFree 0x9000 ∧ ¬ OnFreeList s' 0x9000 ∧ ¬ NothingLeft .oneFree s' := by
  refine ⟨_, rfl, ?_⟩
  rw [← and_assoc]
  refine (and_iff_left_of_imp fun hpopped hleft => hpopped.2 (hleft.free _ hpopped.1)).mpr ?_
  exact popped (s := .oneFree) oneFree_list (by decide) rfl rfl

end Hlpt.Create
