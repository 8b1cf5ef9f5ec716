import Hlpt.Create.Failed

/-!
# `Hlpt.Create.Created`: what a creation leaves behind

The state after a call of `pthread_create`, in terms of the state before it.

* `acquire_eq` and `pthreadCreate_ok`: a call that returns 0. `desc_library` and `desc_program`
  are its descriptors, for the two kinds of stacks.
* `pthreadCreate_eagain`: a call that fails at any step.
* `pthreadCreate_desc`: the descriptors of other threads stay in both cases.
-/

set_option autoImplicit false

namespace Hlpt.Create

/-- `pt_allocate` comes to `thread_create` with the descriptor at `pt` in the state `s₁`. -/
inductive Placed (E : Env) (K : Answers) (attr : Attr) (s : State) : Addr → State → Prop
  /-- A stack of the library, in the mapping at `base`. -/
  | library {base : Addr} (hstack : attr.stack = 0) (hbase : K.vmMap = some base)
      (hguard : attr.guard E = 0 ∨ K.vmProtect = true)
      (hin : InStack E attr base (placeDesc E (base + attr.mapSize E))) :
      Placed E K attr s (placeDesc E (base + attr.mapSize E))
        (initDesc attr (placeDesc E (base + attr.mapSize E)) (base + attr.mapSize E)
          (roundupPage E (attr.size E)) (attr.guard E) (s.vmMap base (attr.mapSize E)))
  /-- A stack of the program. -/
  | program (hstack : attr.stack ≠ 0) :
      Placed E K attr s (placeDesc E attr.stack)
        (initDesc attr (placeDesc E attr.stack) attr.stack (attr.size E) attr.guardsize
          (s.setDesc (placeDesc E attr.stack)
            fun _ => { Desc.zero with flags := PT_FLG_USR_STACK }))

/-- How `pt_allocate` ends without a fault. -/
inductive Allocated (E : Env) (K : Answers) (attr : Attr) (s : State) : Option Addr × State → Prop
  | noMapping : Allocated E K attr s (none, s)
  | noGuard {base : Addr} (hstack : attr.stack = 0) (hbase : K.vmMap = some base) :
      Allocated E K attr s
        (none, (s.vmMap base (attr.mapSize E)).vmDeallocate base (attr.mapSize E))
  | placed {pt : Addr} {s₁ : State} (h : Placed E K attr s pt s₁) :
      Allocated E K attr s (acquire K pt s₁)

/-- The free list without its first TCB. -/
def State.popped (s : State) : Addr := if s.tlsList = 0 then 0 else (s.tcb s.tlsList).first

/-- The state when `pt_allocate` returns: the thread `ktid` and the TCB `a` are new. -/
def acquired (pt : Addr) (ktid : Port) (a : Addr) (s : State) : State :=
  { s with
    threads := insert ktid s.threads
    sigstates := Function.update s.sigstates ktid (some 0)
    tlsList := s.popped
    desc := Function.update s.desc pt { s.desc pt with tcb := a }
    tcb := Function.update s.tcb a
      { s.tcb a with first := a, self := ktid, thrdesc := pt, sigstate := some ktid } }

/-- The state when `pthread_create` returns 0. -/
def created (args : Args) (pt : Addr) (ktid : Port) (a : Addr) (s : State) : State :=
  { prepared args pt ktid (acquired pt ktid a s) with ptp := pt, mtflag := true }

variable {E : Env} {K : Answers} {attr : Attr} {args : Args} {s s' s₁ : State}
  {base pt p a : Addr} {ktid : Port}

/-! ### The descriptor -/

/-- The descriptor at `pt` when its memory was zero-filled, for a stack that ends at `stack`. -/
def newDesc (attr : Attr) (flags : BitVec 32) (pt stack : Addr) (size guardsize : BitVec 32) :
    Desc :=
  { Desc.zero with
    id := PTHREAD_INVALID_ID
    flags := flags
    joinpt := if attr.flags &&& PTHREAD_CREATE_DETACHED ≠ 0 then pt else 0
    stack := stack - size
    stacksize := size
    guardsize := guardsize }

/-- A descriptor in a mapping lies in its range. -/
theorem InStack.range (hin : InStack E attr base pt) :
    (pt - base).toNat < (attr.mapSize E).toNat := by
  obtain ⟨hlow, hhigh⟩ := hin
  have hpos := E.sizeofPthread_pos
  rw [BitVec.toNat_sub_of_le (BitVec.le_def.mpr (by omega))]
  omega

/-- The descriptor on a stack of the library, in the memory of the new mapping. -/
theorem desc_library (hin : InStack E attr base pt) (stack : Addr) (size guardsize : BitVec 32) :
    (initDesc attr pt stack size guardsize (s.vmMap base (attr.mapSize E))).desc pt =
      newDesc attr 0 pt stack size guardsize := by
  have hzero : (s.vmMap base (attr.mapSize E)).desc pt = Desc.zero := if_pos hin.range
  simp [initDesc, State.setDesc, hzero, Desc.zero, newDesc]

/-- The descriptor on a stack of the program, which `memset` has cleared. -/
theorem desc_program (stack : Addr) (size guardsize : BitVec 32) :
    (initDesc attr pt stack size guardsize
      (s.setDesc pt fun _ => { Desc.zero with flags := PT_FLG_USR_STACK })).desc pt =
        newDesc attr PT_FLG_USR_STACK pt stack size guardsize := by
  simp [initDesc, State.setDesc, Desc.zero, newDesc]

/-- The descriptor when `pthread_create` returns 0. -/
theorem desc_created (args : Args) (pt : Addr) (ktid : Port) (a : Addr) (s : State) :
    (created args pt ktid a s).desc pt =
      { s.desc pt with tcb := a, startFct := args.startFct, argp := args.argp } := by
  simp [created, prepared, acquired, State.setBlocked, State.setDesc]

/-! ### The calls -/

/-- A block that `_dl_allocate_tls` returned. -/
theorem dlAllocateTls_ne (hdl : K.dlAllocateTls = true) (mem : Addr) :
    dlAllocateTls K mem ≠ 0 := by
  intro h0
  rw [(dlAllocateTls_eq_zero K mem).mp h0] at hdl
  cases hdl

/-- All steps from `thread_create` on succeed. -/
theorem acquire_eq (h : acquire K pt s = (some p, s')) :
    p = pt ∧ K.dlAllocateTls = true ∧ ∃ ktid, K.threadCreate = some ktid ∧
      s' = acquired pt ktid (dlAllocateTls K s.tlsList) s := by
  unfold acquire at h
  split at h
  · cases h
  · next ktid hcreate =>
      simp only at h
      split at h
      · cases h
      · rw [allocTls_eq K pt ktid _ rfl] at h
        split at h
        · cases h
        · next s₁ halloc =>
            split at halloc
            · cases halloc
            · next hne =>
                obtain ⟨-, rfl⟩ := Prod.mk.inj halloc
                obtain ⟨hp, rfl⟩ := Prod.mk.inj h
                have hdl : K.dlAllocateTls = true := by
                  by_contra hfail
                  exact hne ((dlAllocateTls_eq_zero K _).mpr (Bool.eq_false_iff.mpr hfail))
                refine ⟨(Option.some.inj hp).symm, hdl, ktid, hcreate, ?_⟩
                rw [popTls_eq]
                simp [acquired, State.setTcb, State.setDesc, State.threadCreate,
                  State.hurdThreadSigstate]
                rfl

/-- A call of `pt_allocate` that does not fault. -/
theorem allocated_of_ptAllocate {r : Option Addr × State} (h : ptAllocate E K attr s = some r) :
    Allocated E K attr s r := by
  unfold ptAllocate at h
  split at h
  · next hstack =>
      split at h
      · cases h
        exact .noMapping
      · next base hbase =>
          simp only at h
          split at h
          · cases h
            exact .noGuard hstack hbase
          · next hprotect =>
              split at h
              · next hin =>
                  cases h
                  have hguard : attr.guard E = 0 ∨ K.vmProtect = true := by
                    refine or_iff_not_imp_left.mpr fun h0 => ?_
                    by_contra hfail
                    exact hprotect ⟨h0, Bool.eq_false_iff.mpr hfail⟩
                  exact .placed (.library hstack hbase hguard hin)
              · -- Otherwise the first store to the descriptor faults.
                cases h
  · next hstack =>
      cases h
      exact .placed (.program hstack)

/-- A call of `pt_allocate` that returns a descriptor. -/
theorem ptAllocate_some (h : ptAllocate E K attr s = some (some pt, s')) :
    ∃ s₁ ktid, Placed E K attr s pt s₁ ∧ K.threadCreate = some ktid ∧ K.dlAllocateTls = true ∧
      s' = acquired pt ktid (dlAllocateTls K s₁.tlsList) s₁ := by
  generalize hr : (some pt, s') = r at h
  cases allocated_of_ptAllocate h with
  | noMapping => cases hr
  | noGuard => cases hr
  | @placed p s₁ hplaced =>
      obtain ⟨rfl, hdl, ktid, hcreate, hs'⟩ := acquire_eq hr.symm
      exact ⟨s₁, ktid, hplaced, hcreate, hdl, hs'⟩

/-- The TCB of the new thread names its kernel thread. -/
theorem kport_acquired (pt : Addr) (ktid : Port) (a : Addr) (s : State) :
    (acquired pt ktid a s).kport pt = some ktid := by
  simp [State.kport, acquired]

/-- A call of `pthread_create` that returns 0. -/
theorem pthreadCreate_ok (h : pthreadCreate E K args s = some (.ok, s')) :
    ∃ pt s₁ ktid, Placed E K (args.attrp.getD E.dflAttr) s pt s₁ ∧
      K.threadCreate = some ktid ∧ K.dlAllocateTls = true ∧ K.setMachineState = true ∧
      s' = created args pt ktid (dlAllocateTls K s₁.tlsList) s₁ := by
  obtain ⟨⟨p, s₂⟩, hcall, hcode⟩ := Option.map_eq_some_iff.mp h
  cases p with
  | none => cases (Prod.mk.inj hcode).1
  | some pt =>
      obtain ⟨s₁, ktid, hplaced, hcreate, hdl, rfl⟩ := ptAllocate_some hcall
      have hstart : start K args pt (acquired pt ktid (dlAllocateTls K s₁.tlsList) s₁) =
        (.ok, s') := hcode
      rw [start_eq (kport_acquired pt ktid _ s₁)] at hstart
      split at hstart
      · cases (Prod.mk.inj hstart).1
      · next hmachine =>
          have hset : K.setMachineState = true := by simpa using hmachine
          exact ⟨pt, s₁, ktid, hplaced, hcreate, hdl, hset, (Prod.mk.inj hstart).2.symm⟩

/-! ### The rest of the memory -/

/-- The memory that a creation takes for its stack, as far as it has a descriptor. -/
def NewMemory (E : Env) (K : Answers) (attr : Attr) (q : Addr) : Prop :=
  if attr.stack = 0 then
    ∃ base, K.vmMap = some base ∧ (q - base).toNat < (attr.mapSize E).toNat
  else q = placeDesc E attr.stack

/-- The new descriptor lies in the memory that was taken. -/
theorem Placed.newMemory (h : Placed E K attr s pt s₁) : NewMemory E K attr pt := by
  unfold NewMemory
  cases h with
  | library hstack hbase _ hin =>
      rw [if_pos hstack]
      exact ⟨_, hbase, hin.range⟩
  | program hstack => rw [if_neg hstack]

/-- The descriptors elsewhere stay. -/
theorem Placed.desc_eq (h : Placed E K attr s pt s₁) {q : Addr} (hq : ¬ NewMemory E K attr q) :
    s₁.desc q = s.desc q := by
  have hne : q ≠ pt := by
    rintro rfl
    exact hq h.newMemory
  unfold NewMemory at hq
  cases h with
  | @library base hstack hbase _ hin =>
      rw [if_pos hstack] at hq
      have hrange : ¬ (q - base).toNat < (attr.mapSize E).toNat := fun hlt => hq ⟨base, hbase, hlt⟩
      exact (Function.update_of_ne hne _ _).trans (if_neg hrange)
  | program hstack =>
      exact (Function.update_of_ne hne _ _).trans (Function.update_of_ne hne _ _)

/-- A stack of the program is not mapped by the call. One of the library is the memory that was
taken, and the descriptor says where it is. -/
theorem Placed.stack (h : Placed E K attr s pt s₁) :
    ((s₁.desc pt).usrStack = true ∧ s₁.mappings = s.mappings) ∨
      ((s₁.desc pt).usrStack = false ∧ s₁.mappings = (s₁.desc pt).freeRange :: s.mappings ∧
        ∀ q, (q - (s₁.desc pt).freeRange.1).toNat < (s₁.desc pt).freeRange.2.toNat ↔
          NewMemory E K attr q) := by
  cases h with
  | @library base hstack hbase _ hin =>
      right
      have hrange : (newDesc attr 0 (placeDesc E (base + attr.mapSize E))
          (base + attr.mapSize E) (roundupPage E (attr.size E)) (attr.guard E)).freeRange =
            (base, attr.mapSize E) := freeRange_eq rfl rfl
      rw [desc_library hin, hrange]
      have husr : (0#32 &&& PT_FLG_USR_STACK != 0) = false := by decide
      refine ⟨husr, rfl, fun q => ?_⟩
      unfold NewMemory
      rw [if_pos hstack]
      constructor
      · exact fun hlt => ⟨base, hbase, hlt⟩
      · rintro ⟨base', hbase', hlt⟩
        obtain rfl := Option.some.inj (hbase.symm.trans hbase')
        exact hlt
  | program hstack =>
      left
      rw [desc_program]
      have husr : (PT_FLG_USR_STACK &&& PT_FLG_USR_STACK != 0) = true := by decide
      exact ⟨husr, rfl⟩

/-- What the call has taken when it comes to `thread_create`. -/
theorem Placed.onlyStack (h : Placed E K attr s pt s₁) : OnlyStack s pt s₁ := by
  cases h with
  | library _ _ _ hin => exact onlyStack_library hin
  | program => exact onlyStack_program

/-- `free_stack` leaves the descriptors. -/
theorem freeStack_desc (pt : Addr) (s : State) : (freeStack pt s).desc = s.desc := by
  unfold freeStack
  simp only
  split <;> rfl

/-- The steps from `thread_create` on leave the other descriptors. -/
theorem acquire_desc (K : Answers) (s : State) {q : Addr} (hq : q ≠ pt) :
    (acquire K pt s).2.desc q = s.desc q := by
  unfold acquire
  split
  · rw [freeStack_desc]
  · next ktid _ =>
      simp only
      split
      · rw [freeStack_desc]
        rfl
      · rw [allocTls_eq K pt ktid _ rfl, popTls_eq]
        split
        · next s₂ halloc =>
            split at halloc
            · obtain ⟨-, rfl⟩ := Prod.mk.inj halloc
              simp [freeStack_desc, State.setDesc, State.hurdSigstateDelete,
                State.threadTerminate, State.hurdThreadSigstate, State.threadCreate, hq]
            · cases (Prod.mk.inj halloc).1
        · next s₂ halloc =>
            split at halloc
            · cases (Prod.mk.inj halloc).1
            · obtain ⟨-, rfl⟩ := Prod.mk.inj halloc
              simp [State.setTcb, State.setDesc, State.hurdThreadSigstate, State.threadCreate, hq]

/-- So does the rest of `pthread_create`. -/
theorem start_desc (K : Answers) (args : Args) {q : Addr} (hkport : s.kport pt = some ktid)
    (hq : q ≠ pt) : (start K args pt s).2.desc q = s.desc q := by
  rw [start_eq hkport]
  split
  · simp [rollback, freeStack_desc, State.threadTerminate, deallocTls, State.setTcb,
      State.setDesc, State.hurdSigstateDelete, prepared, State.setBlocked, hq]
  · simp [prepared, State.setBlocked, State.setDesc, hq]

/-- The creation leaves the descriptors outside of the memory that it takes. -/
theorem pthreadCreate_desc {r : Code} (h : pthreadCreate E K args s = some (r, s')) {q : Addr}
    (hq : ¬ NewMemory E K (args.attrp.getD E.dflAttr) q) : s'.desc q = s.desc q := by
  obtain ⟨⟨p, s₂⟩, hcall, hcode⟩ := Option.map_eq_some_iff.mp h
  unfold NewMemory at hq
  generalize hr : (p, s₂) = allocated at hcall
  cases allocated_of_ptAllocate hcall with
  | noMapping =>
      cases hr
      cases hcode
      rfl
  | @noGuard base hstack hbase =>
      cases hr
      cases hcode
      rw [if_pos hstack] at hq
      exact if_neg fun hlt => hq ⟨base, hbase, hlt⟩
  | @placed pt s₁ hplaced =>
      have hnew : ¬ NewMemory E K (args.attrp.getD E.dflAttr) q := hq
      have hne : q ≠ pt := by
        rintro rfl
        exact hnew hplaced.newMemory
      have hacquired := acquire_desc K s₁ hne
      rw [← hr] at hacquired
      cases p with
      | none =>
          cases hcode
          exact hacquired.trans (hplaced.desc_eq hnew)
      | some p =>
          obtain ⟨rfl, -, ktid, -, rfl⟩ := acquire_eq hr.symm
          have hcode' : start K args p _ = (r, s') := hcode
          have hkport := kport_acquired p ktid (dlAllocateTls K s₁.tlsList) s₁
          have hstart := start_desc K args hkport hne
          rw [hcode'] at hstart
          exact hstart.trans (hacquired.trans (hplaced.desc_eq hnew))

/-! ### A creation that fails -/

/-- What a creation that fails does with the TCBs. -/
inductive TlsLeft (K : Answers) (s s' : State) : Prop
  | same (htcb : s'.tcb = s.tcb) (hlist : s'.tlsList = s.tlsList)
  /-- `_dl_allocate_tls` fails for the TCB from the list. -/
  | lost (htcb : s'.tcb = s.tcb) (hlist : s'.tlsList = s.popped)
  /-- The TCB comes to the free list, or comes back to it. -/
  | back (b : Tcb) (hdl : K.dlAllocateTls = true) (hfirst : b.first = s.popped)
      (htcb : s'.tcb = Function.update s.tcb (dlAllocateTls K s.tlsList) b)
      (hlist : s'.tlsList = dlAllocateTls K s.tlsList)

/-- The rollback of `pthread_create` makes the TCB the first one of the list. -/
theorem rollback_tls (args : Args) (pt : Addr) (ktid : Port) (a : Addr) (s : State) :
    let s' := rollback pt ktid (prepared args pt ktid (acquired pt ktid a s))
    ∃ b : Tcb, b.first = s.popped ∧ s'.tcb = Function.update s.tcb a b ∧ s'.tlsList = a := by
  intro s'
  obtain ⟨-, -, hlist, htcb, -⟩ := freeStack_rest pt
    ((deallocTls pt ((prepared args pt ktid (acquired pt ktid a s)).hurdSigstateDelete
      ktid)).threadTerminate ktid)
  refine ⟨⟨s.popped, ktid, pt, 0, some ktid⟩, rfl, htcb.trans ?_, hlist.trans ?_⟩
  · simp [deallocTls, prepared, acquired, State.setTcb, State.setDesc, State.setBlocked,
      State.hurdSigstateDelete, State.threadTerminate]
  · simp [deallocTls, prepared, acquired, State.setTcb, State.setDesc, State.setBlocked,
      State.hurdSigstateDelete, State.threadTerminate]

/-- A call of `pthread_create` that returns EAGAIN. -/
theorem pthreadCreate_eagain (hs : Sound K s)
    (h : pthreadCreate E K args s = some (.eagain, s')) : Undone s s' ∧ TlsLeft K s s' := by
  obtain ⟨⟨p, s₂⟩, hcall, hcode⟩ := Option.map_eq_some_iff.mp h
  generalize hr : (p, s₂) = allocated at hcall
  cases allocated_of_ptAllocate hcall with
  | noMapping =>
      cases hr
      cases hcode
      exact ⟨⟨rfl, rfl, rfl, rfl, rfl, rfl⟩, .same rfl rfl⟩
  | @noGuard base hstack hbase =>
      cases hr
      cases hcode
      refine ⟨⟨?_, rfl, rfl, rfl, rfl, rfl⟩, .same rfl rfl⟩
      exact List.erase_cons_head _ _
  | @placed pt s₁ hplaced =>
      have honly := hplaced.onlyStack
      cases p with
      | none =>
          cases hcode
          obtain ⟨hundone, htcb, hlist⟩ := acquire_none hs honly hr.symm
          refine ⟨hundone, ?_⟩
          split at hlist
          · exact .lost htcb hlist.2
          · exact .same htcb hlist
      | some p =>
          obtain ⟨-, -, ktid', hcreate', hacquired⟩ := acquired_of_acquire honly hr.symm
          obtain ⟨rfl, hdl, ktid, hcreate, rfl⟩ := acquire_eq hr.symm
          obtain rfl := Option.some.inj (hcreate.symm.trans hcreate')
          have hstart : start K args p _ = (.eagain, s') := hcode
          rw [start_eq (kport_acquired p ktid _ s₁)] at hstart
          split at hstart
          · obtain ⟨-, rfl⟩ := Prod.mk.inj hstart
            have hundone := rollback_undone args hs hcreate hacquired
            refine ⟨⟨hundone.mappings, hundone.threads, hundone.sigstates, ?_, hundone.running,
              hundone.ptp⟩, ?_⟩
            · show (rollback p ktid _).total - 1 = s.total
              rw [hundone.total]
              exact BitVec.add_sub_cancel _ _
            · obtain ⟨b, hfirst, htcb, hlist⟩ :=
                rollback_tls args p ktid (dlAllocateTls K s₁.tlsList) s₁
              rw [State.popped, honly.tlsList, honly.tcb] at hfirst
              rw [honly.tlsList, honly.tcb] at htcb
              rw [honly.tlsList] at hlist
              refine .back b hdl hfirst ?_ ?_
              · rw [honly.tlsList]
                exact htcb
              · rw [honly.tlsList]
                exact hlist
          · cases (Prod.mk.inj hstart).1

end Hlpt.Create
