import Hlpt.Identity.Model

/-!
# `Hlpt.Identity.Started`: the machine state of a new thread

`__pthread_set_machine_state` writes the argument of `thread_entry` and a return address
below the descriptor, sets a segment of the new kernel thread to its TCB and lets its
registers point to all that. It does not touch the process otherwise.

* `setMachineState_frame` and `setMachineState_ok`: the function.
* `create_refines`: the whole creation is one of `Hlpt.Create.Model`, which gets to know only
  whether the machine state could be set.
-/

set_option autoImplicit false

namespace Hlpt.Identity

open Hlpt.Create

variable {E : Env} {K : Answers} {M : KernelAnswers} {self ktid k : Port} {args : Args}
  {s s' : State} {pt fct ip sp tp : Addr} {r : Code}

/-! ### The machine state -/

/-- Only the stack words and the thread `ktid` are touched. -/
structure Frame (ktid : Port) (s s' : State) : Prop where
  proc : s'.proc = s.proc
  live : s'.live = s.live
  dead : s'.dead = s.dead
  gsBase : ∀ k, k ≠ ktid → s'.gsBase k = s.gsBase k

/-- What the thread `ktid` finds when it is resumed. -/
structure Ready (pt fct : Addr) (ktid : Port) (s : State) : Prop where
  /-- It begins with `thread_entry`. -/
  eip : (s.regs ktid).eip = fct
  /-- Its segment begins at its TCB, and it may read and write there. -/
  gsBase : s.gsBase ktid = (s.proc.desc pt).tcb
  access : (s.gsSegment ktid).access = Descriptor.userData
  limit : (s.gsSegment ktid).limit = 0xffffffff
  /-- The stack has a return address and the argument. Before the call it was aligned. -/
  ret : s.word (s.regs ktid).uesp = 0
  arg : s.word ((s.regs ktid).uesp + 4) = pt
  aligned : ((s.regs ktid).uesp + 8) &&& (STACK_ALIGNMENT - 1) = 0
  /-- The stack lies directly below the descriptor. -/
  below : (s.regs ktid).uesp + 8 = pt &&& ~~~(STACK_ALIGNMENT - 1)

/-- `__pthread_set_ctx` touches the thread `ktid` only. -/
theorem setCtx_frame (M : KernelAnswers) (self ktid : Port) (ip sp tp : Addr) (s : State) :
    Frame ktid s (pthreadSetCtx M self ktid ip sp tp s).2 ∧
      (pthreadSetCtx M self ktid ip sp tp s).2.word = s.word := by
  have hsame : Frame ktid s s := ⟨rfl, rfl, rfl, fun _ _ => rfl⟩
  have hseg (sel : BitVec 32) (d : Descriptor) : Frame ktid s (s.setSegment ktid sel d) := by
    refine ⟨rfl, rfl, rfl, fun k hk => ?_⟩
    simp [State.gsBase, State.gsSegment, State.setSegment, hk]
  unfold pthreadSetCtx
  split
  · exact ⟨hsame, rfl⟩
  · simp only
    split
    · exact ⟨hsame, rfl⟩
    · next sel _ =>
        split
        · exact ⟨hseg _ _, rfl⟩
        · refine ⟨⟨rfl, rfl, rfl, fun k hk => ?_⟩, rfl⟩
          simp [State.gsBase, State.gsSegment, State.setSegment, hk]

/-- When it succeeds, the thread selects the segment of its TCB. -/
theorem setCtx_ok (h : pthreadSetCtx M self ktid ip sp tp s = (true, s')) :
    s'.gsSegment ktid = hurdTlsDesc tp ∧ (s'.regs ktid).eip = ip ∧ (s'.regs ktid).uesp = sp := by
  unfold pthreadSetCtx at h
  split at h
  · cases (Prod.mk.inj h).1
  · simp only at h
    split at h
    · cases (Prod.mk.inj h).1
    · split at h
      · cases (Prod.mk.inj h).1
      · obtain ⟨-, rfl⟩ := Prod.mk.inj h
        simp [State.gsSegment, State.setSegment]

/-- `__pthread_set_machine_state` touches the stack words and the new thread only. -/
theorem setMachineState_frame (M : KernelAnswers) (self : Port) (pt fct : Addr) (s : State) :
    Frame ((s.proc.kport pt).getD 0) s (pthreadSetMachineState M self pt fct s).2 := by
  obtain ⟨⟨hproc, hlive, hdead, hbase⟩, -⟩ := setCtx_frame M self ((s.proc.kport pt).getD 0) fct
    ((pt &&& ~~~(STACK_ALIGNMENT - 1)) - 4 - 4) (s.proc.desc pt).tcb
    ((s.store ((pt &&& ~~~(STACK_ALIGNMENT - 1)) - 4) pt).store
      ((pt &&& ~~~(STACK_ALIGNMENT - 1)) - 4 - 4) 0)
  exact ⟨hproc, hlive, hdead, hbase⟩

/-- When it succeeds, the thread is ready. -/
theorem setMachineState_ok (hkport : s.proc.kport pt = some ktid)
    (h : pthreadSetMachineState M self pt fct s = (true, s')) : Ready pt fct ktid s' := by
  unfold pthreadSetMachineState at h
  simp only at h
  have hkport₁ (s₁ : State) (hproc : s₁.proc = s.proc) : (s₁.proc.kport pt).getD 0 = ktid := by
    rw [hproc, hkport]
    rfl
  generalize htop : pt &&& ~~~(STACK_ALIGNMENT - 1) = top at h
  rw [hkport₁ ((s.store (top - 4) pt).store (top - 4 - 4) 0) rfl] at h
  obtain ⟨hsegment, heip, huesp⟩ := setCtx_ok h
  have hframe := setCtx_frame M self ktid fct (top - 4 - 4) (s.proc.desc pt).tcb
    ((s.store (top - 4) pt).store (top - 4 - 4) 0)
  have htcb : ((s.store (top - 4) pt).store (top - 4 - 4) 0).proc.desc pt = s.proc.desc pt := rfl
  rw [htcb] at h
  rw [h] at hframe
  obtain ⟨hrest, hword⟩ := hframe
  -- The two words that were stored below the descriptor.
  have hup : top - 4 - 4 + 4 = top - 4 := BitVec.sub_add_cancel _ _
  have hbelow : top - 4 - 4 + 8 = top := by bv_omega
  have hne : top - 4 ≠ top - 4 - 4 := by bv_omega
  constructor
  · exact heip
  · rw [State.gsBase, hsegment, base_hurdTlsDesc, hrest.proc]
  · rw [hsegment]
    exact access_hurdTlsDesc _
  · rw [hsegment]
    exact limit_hurdTlsDesc _
  · rw [huesp, hword]
    exact Function.update_self _ _ _
  · rw [huesp, hword, hup]
    exact (Function.update_of_ne hne _ _).trans (Function.update_self _ _ _)
  · have hnone : ~~~(STACK_ALIGNMENT - 1) &&& (STACK_ALIGNMENT - 1) = 0#32 := by decide
    rw [huesp, hbelow, ← htop, BitVec.and_assoc, hnone, BitVec.and_zero]
    rfl
  · rw [huesp, hbelow, htop]

/-! ### The creation -/

/-- The arguments of the creation as `Hlpt.Create.Model` has them. -/
def Args.toArgs (args : Args) (blocked : Option Sigset) : Create.Args :=
  ⟨args.attrp, args.startFct, args.argp, blocked⟩

/-- The rest of `pthread_create`, with the state in which the machine state is set. -/
theorem start_eq (E : Env) (M : KernelAnswers) (self : Port) (args : Args)
    (hkport : s.proc.kport pt = some ktid) :
    let P := prepared (args.toArgs (parentBlocked s self)) pt ktid s.proc
    let R := pthreadSetMachineState M self pt E.threadEntry { s with proc := P }
    start E M self args pt s =
      if R.1 then (.ok, { R.2 with proc := { P with ptp := pt, mtflag := true } })
      else (.eagain, { R.2 with proc :=
        { rollback pt ktid P with total := (rollback pt ktid P).total - 1 } }) := by
  intro P R
  have hframe := setMachineState_frame M self pt E.threadEntry { s with proc := P }
  have hproc : R.2.proc = P := hframe.proc
  have hdesc : (s.proc.setDesc pt fun d =>
      { d with startFct := args.startFct, argp := args.argp }).kport pt = some ktid := by
    simpa [State.kport, State.setDesc] using hkport
  unfold start
  simp only
  rw [hdesc]
  -- Whether it succeeds or not, the machine state leaves the process as it was prepared.
  split
  · next s₁ hR =>
      have hR' : R = (false, s₁) := hR
      rw [hR'] at hproc ⊢
      have hproc₁ : s₁.proc = P := hproc
      simp only [hproc₁]
      rfl
  · next s₁ hR =>
      have hR' : R = (true, s₁) := hR
      rw [hR'] at hproc ⊢
      have hproc₁ : s₁.proc = P := hproc
      simp only [hproc₁]
      rfl

/-- The steps of `pt_allocate` do not depend on whether the machine state can be set. -/
theorem ptAllocate_setMachineState (E : Create.Env) (K : Answers) (b : Bool) (attr : Attr)
    (s : Create.State) :
    ptAllocate E { K with setMachineState := b } attr s = ptAllocate E K attr s := rfl

/-- A creation that returns 0, with its state before the machine state is set. -/
structure Success (E : Env) (K : Answers) (creator : Port) (args : Args) (pt : Addr) (ktid : Port)
    (s : State) (s₁ : Create.State) (s' : State) : Prop where
  placed : Placed E.toEnv K (args.attrp.getD E.dflAttr) s.proc pt s₁
  port : K.threadCreate = some ktid
  tls : K.dlAllocateTls = true
  proc : s'.proc = created (args.toArgs (parentBlocked
    { s with proc := acquired pt ktid (dlAllocateTls K s₁.tlsList) s₁ } creator)) pt ktid
      (dlAllocateTls K s₁.tlsList) s₁
  ready : Ready pt E.threadEntry ktid s'

/-- What a creation touches beside the process: only its own kernel thread. -/
structure Aside (K : Answers) (s s' : State) : Prop where
  live : s'.live = s.live
  dead : s'.dead = s.dead
  gsBase : ∀ k, K.threadCreate ≠ some k → s'.gsBase k = s.gsBase k

/-- A creation succeeds, or it fails as one of `Hlpt.Create.Model`. -/
theorem create_cases (h : pthreadCreate E K M self args s = some (r, s')) :
    Aside K s s' ∧
      (r = .ok ∧ (∃ pt ktid s₁, Success E K self args pt ktid s s₁ s') ∨
        r = .eagain ∧ ∃ blocked, Create.pthreadCreate E.toEnv { K with setMachineState := false }
          (args.toArgs blocked) s.proc = some (.eagain, s'.proc)) := by
  obtain ⟨⟨p, proc⟩, hcall, hcode⟩ := Option.map_eq_some_iff.mp h
  cases p with
  | none =>
      cases hcode
      refine ⟨⟨rfl, rfl, fun _ _ => rfl⟩, .inr ⟨rfl, none, ?_⟩⟩
      refine Option.map_eq_some_iff.mpr ⟨(none, proc), ?_, rfl⟩
      exact (ptAllocate_setMachineState _ _ _ _ _).trans hcall
  | some pt =>
      obtain ⟨s₁, ktid, hplaced, hcreate, hdl, rfl⟩ := ptAllocate_some hcall
      generalize ha : dlAllocateTls K s₁.tlsList = a at *
      have hkport := kport_acquired pt ktid a s₁
      have hstart : start E M self args pt { s with proc := acquired pt ktid a s₁ } = (r, s') :=
        hcode
      rw [start_eq E M self args hkport] at hstart
      -- The state in which the machine state is set.
      generalize hs₂ : ({ s with proc := prepared (args.toArgs (parentBlocked
        { s with proc := acquired pt ktid a s₁ } self)) pt ktid (acquired pt ktid a s₁) } : State)
          = s₂ at hstart
      have hkport₂ : s₂.proc.kport pt = some ktid := by
        rw [← hs₂]
        simpa [prepared, State.kport, State.setDesc, State.setBlocked] using hkport
      have hframe := setMachineState_frame M self pt E.threadEntry s₂
      rw [hkport₂] at hframe
      cases hR : pthreadSetMachineState M self pt E.threadEntry s₂ with
      | mk ok s₃ =>
          rw [hR] at hframe hstart
          obtain ⟨hproc, hlive, hdead, hbase⟩ := hframe
          have haside (proc : Create.State) : Aside K s { s₃ with proc := proc } := by
            rw [← hs₂] at hlive hdead hbase
            refine ⟨hlive, hdead, fun k hk => hbase k ?_⟩
            rintro rfl
            exact hk hcreate
          cases ok with
          | true =>
              cases hstart
              refine ⟨haside _, .inl ⟨rfl, pt, ktid, s₁, hplaced, hcreate, hdl, ?_, ?_⟩⟩
              · rw [ha]
                rfl
              · obtain ⟨heip, hgs, haccess, hlimit, hret, harg, haligned, hbelow⟩ :=
                  setMachineState_ok hkport₂ hR
                refine ⟨heip, hgs.trans ?_, haccess, hlimit, hret, harg, haligned, hbelow⟩
                show (s₃.proc.desc pt).tcb = _
                rw [hproc, ← hs₂]
          | false =>
              cases hstart
              refine ⟨haside _, .inr ⟨rfl, parentBlocked
                { s with proc := acquired pt ktid a s₁ } self, ?_⟩⟩
              refine Option.map_eq_some_iff.mpr ⟨(some pt, acquired pt ktid a s₁), ?_, ?_⟩
              · exact (ptAllocate_setMachineState _ _ _ _ _).trans hcall
              · show Create.start _ _ pt (acquired pt ktid a s₁) = _
                rw [Create.start_eq hkport]
                rfl

end Hlpt.Identity
