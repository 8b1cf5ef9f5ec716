import Hlpt.Cancel.Stopping
import Hlpt.Cancel.Unwind

/-!
# `Hlpt.Cancel.ExitOnce`: a thread terminates once

`PT_FLG_EXITING` keeps the target's own tests, and every canceller that looks at the flags
after it was set, from starting `pthread_exit` again. A canceller that swapped the flags
before does not look again. If it stands before `thread_suspend` when the target enters
`pthread_exit`, it redirects the target out of it, to a second `pthread_exit` that calls
the handler at the head of the list once more. `Alone` is the condition that no canceller
stands there, until the target has set `PT_FLG_EXITING`.

* `exit_once`: in runs that meet the condition `pthread_exit` is entered at most once, and
  every handler is called at most once.
* `exit_once_fails`: a run in which two cancellers have the same handler called twice.
-/

set_option autoImplicit false

namespace Hlpt.Cancel

open Hlpt.Lib

universe u

/-! ### The handlers -/

/-- The handlers that are still in the list were not called, except for the one that is
running. -/
def Frames.Fresh (f : Frames) : Prop :=
  match f.running with
  | none => ∀ x ∈ f.cleanup, x ∉ f.started
  | some n => ∃ inner x rest, f.cleanup = inner ++ x :: rest ∧ rest.length + 1 = n ∧
      (∀ y ∈ inner, y ∉ f.started) ∧ ∀ y ∈ rest, y ∉ f.started

/-- No handler was called twice, and none will be. -/
structure Frames.Ok (f : Frames) : Prop where
  cleanup : f.cleanup.Nodup
  started : f.started.Nodup
  cleanup_lt : ∀ x ∈ f.cleanup, x < f.pushes
  started_lt : ∀ x ∈ f.started, x < f.pushes
  fresh : f.Fresh

namespace Frames

variable {f : Frames}

theorem Ok.push (h : f.Ok) : f.push.Ok where
  cleanup := List.nodup_cons.mpr ⟨fun hx => (h.cleanup_lt _ hx).false, h.cleanup⟩
  started := h.started
  cleanup_lt x hx := by
    rcases List.mem_cons.mp hx with rfl | hx
    · exact Nat.lt_succ_self _
    · exact Nat.lt_succ_of_lt (h.cleanup_lt x hx)
  started_lt x hx := Nat.lt_succ_of_lt (h.started_lt x hx)
  fresh := by
    have hnew : f.pushes ∉ f.started := fun hx => (h.started_lt _ hx).false
    have hfresh := h.fresh
    simp only [Fresh, Frames.push] at hfresh ⊢
    cases hr : f.running with
    | none =>
        simp only [hr] at hfresh
        exact List.forall_mem_cons.mpr ⟨hnew, hfresh⟩
    | some n =>
        simp only [hr] at hfresh
        obtain ⟨inner, x, rest, hc, hn, hinner, hrest⟩ := hfresh
        exact ⟨f.pushes :: inner, x, rest, by rw [hc]; rfl, hn,
          List.forall_mem_cons.mpr ⟨hnew, hinner⟩, hrest⟩

/-- The handler that a pop takes off was not called. -/
theorem Ok.exists_head (h : f.Ok) (hlen : f.running.getD 0 < f.cleanup.length) :
    ∃ x tl, f.cleanup = x :: tl ∧ x ∉ f.started ∧
      (∀ g : Frames, g.cleanup = tl → g.running = f.running →
        (∀ y ∈ g.started, y ∈ f.started ∨ y = x) → g.Fresh) := by
  have hnodup := h.cleanup
  have hfresh := h.fresh
  simp only [Fresh] at hfresh
  cases hr : f.running with
  | none =>
      simp only [hr] at hfresh
      cases hc : f.cleanup with
      | nil =>
          rw [hc] at hlen
          exact absurd hlen (Nat.not_lt_zero _)
      | cons x tl =>
          rw [hc] at hnodup hfresh
          obtain ⟨hx, hfresh⟩ := List.forall_mem_cons.mp hfresh
          refine ⟨x, tl, rfl, hx, ?_⟩
          intro g hg hrun hst
          simp only [Fresh, hg, hrun]
          intro y hy hs
          rcases hst y hs with hs | rfl
          · exact hfresh y hy hs
          · exact (List.nodup_cons.mp hnodup).1 hy
  | some n =>
      simp only [hr] at hfresh
      obtain ⟨inner, h, rest, hc, hn, hinner, hrest⟩ := hfresh
      cases inner with
      | nil =>
          -- Only what the running handler pushed is popped.
          rw [hc, hr, Option.getD_some, ← hn] at hlen
          exact absurd hlen (lt_irrefl _)
      | cons x inner =>
          rw [hc] at hnodup
          have hne : ∀ y ∈ inner ++ h :: rest, y ≠ x := by
            rintro y hy rfl
            exact (List.nodup_cons.mp hnodup).1 hy
          obtain ⟨hx, hinner⟩ := List.forall_mem_cons.mp hinner
          refine ⟨x, inner ++ h :: rest, hc, hx, ?_⟩
          intro g hg hrun hst
          simp only [Fresh, hrun]
          refine ⟨inner, h, rest, hg, hn, fun y hy hs => ?_, fun y hy hs => ?_⟩
          · rcases hst y hs with hs | rfl
            · exact hinner y hy hs
            · exact hne y (List.mem_append_left _ hy) rfl
          · rcases hst y hs with hs | rfl
            · exact hrest y hy hs
            · exact hne y (List.mem_append_right _ (List.mem_cons_of_mem _ hy)) rfl

theorem Ok.pop (h : f.Ok) {execute : Bool} (hlen : f.running.getD 0 < f.cleanup.length) :
    (f.pop execute).Ok := by
  obtain ⟨x, tl, hc, hx, hfresh⟩ := h.exists_head hlen
  have htl : (f.pop execute).cleanup = tl := by rw [Frames.pop, hc]; rfl
  have hstarted : (f.pop execute).started = if execute then x :: f.started else f.started := by
    rw [Frames.pop, hc]
    rfl
  have hnodup := h.cleanup
  have hlt := h.cleanup_lt
  rw [hc] at hnodup hlt
  refine ⟨?_, ?_, fun y hy => ?_, fun y hy => ?_, hfresh _ htl rfl fun y hy => ?_⟩
  · rw [htl]
    exact (List.nodup_cons.mp hnodup).2
  · rw [hstarted]
    split
    · exact List.nodup_cons.mpr ⟨hx, h.started⟩
    · exact h.started
  · rw [htl] at hy
    exact hlt y (List.mem_cons_of_mem x hy)
  · rw [hstarted] at hy
    split at hy
    · rcases List.mem_cons.mp hy with rfl | hy
      · exact hlt _ List.mem_cons_self
      · exact h.started_lt y hy
    · exact h.started_lt y hy
  · rw [hstarted] at hy
    split at hy
    · exact (List.mem_cons.mp hy).symm
    · exact .inl hy

theorem Ok.start (h : f.Ok) (hrun : f.running = none) (hne : f.cleanup ≠ []) : f.start.Ok := by
  obtain ⟨x, rest, hc⟩ := List.exists_cons_of_ne_nil hne
  have hstarted : f.start.started = x :: f.started := by
    rw [Frames.start, hc]
    rfl
  have hfresh := h.fresh
  have hnodup := h.cleanup
  simp only [Fresh, hrun, hc] at hfresh
  rw [hc] at hnodup
  obtain ⟨hx, hfresh⟩ := List.forall_mem_cons.mp hfresh
  refine ⟨h.cleanup, ?_, h.cleanup_lt, fun y hy => ?_, ?_⟩
  · rw [hstarted]
    exact List.nodup_cons.mpr ⟨hx, h.started⟩
  · rw [hstarted] at hy
    rcases List.mem_cons.mp hy with rfl | hy
    · exact h.cleanup_lt _ (hc ▸ List.mem_cons_self)
    · exact h.started_lt y hy
  · -- The handler that starts is the head of the list.
    show ∃ inner y rest, f.cleanup = inner ++ y :: rest ∧ rest.length + 1 = f.cleanup.length ∧
      (∀ z ∈ inner, z ∉ f.start.started) ∧ ∀ z ∈ rest, z ∉ f.start.started
    refine ⟨[], x, rest, hc, by rw [hc]; rfl, by simp, ?_⟩
    intro y hy hs
    rw [hstarted] at hs
    rcases List.mem_cons.mp hs with rfl | hs
    · exact (List.nodup_cons.mp hnodup).1 hy
    · exact hfresh y hy hs

theorem Ok.finish (h : f.Ok) (hrun : f.running = some f.cleanup.length) : f.finish.Ok := by
  have hfresh := h.fresh
  have hnodup := h.cleanup
  simp only [Fresh, hrun] at hfresh
  obtain ⟨inner, x, rest, hc, hn, -, hrest⟩ := hfresh
  -- Nothing is left of what the handler pushed.
  obtain rfl : inner = [] := by
    rw [hc, List.length_append, List.length_cons] at hn
    exact List.length_eq_zero_iff.mp (by omega)
  have htl : f.finish.cleanup = rest := by
    rw [Frames.finish, hc]
    rfl
  have hsub : ∀ y ∈ rest, y ∈ f.cleanup := fun y hy => hc ▸ List.mem_cons_of_mem x hy
  rw [hc] at hnodup
  refine ⟨?_, h.started, fun y hy => ?_, h.started_lt, ?_⟩
  · rw [htl]
    exact (List.nodup_cons.mp hnodup).2
  · rw [htl] at hy
    exact h.cleanup_lt y (hsub y hy)
  · show ∀ y ∈ f.finish.cleanup, y ∉ f.started
    rwa [htl]

theorem Ok.leave (h : f.Ok) (hrun : f.running = none) : f.leave.Ok := by
  have hf : f.leave = f := by rw [Frames.leave, ← hrun]
  rwa [hf]

theorem Ok.enter (h : f.Ok) (pc : Pc) : (f.enter pc).Ok :=
  ⟨h.cleanup, h.started, h.cleanup_lt, h.started_lt, h.fresh⟩

end Frames

/-! ### The condition on the steps -/

/-- The target's next access takes it to `pthread_exit`. -/
def begins (c : Choice × Op) (m : Mem) : Pc → Bool
  | .idle => c.2 = .call ∧ c.1.call = .exit
  | .setCas f arg oldval =>
      m.flags = oldval ∧ CANCELLED_ENABLED_ASYNC_P (f.newval arg oldval)
  | .test => CANCELLED_ENABLED_P m.flags
  | .beginCas oldval =>
      m.flags = oldval ∧
        CANCELLED_ENABLED_ASYNC_P (oldval ||| PT_FLG_CANCEL_ASYNC ||| PT_FLG_CANCEL_TRANS)
  | .exitThread => true
  | .cancelCas oldval => (Pc.cancelCas oldval).swaps m
  | .setLoad .. | .setRet _ | .beginTest | .beginLoad | .blocked _ | .finish _ | .exit
  | .exiting | .dead | .cancelInvalid | .cancelLoad | .suspend _ | .abort _ | .getState ..
  | .inspect .. | .setState _ | .resume _ | .storeMtflag | .cancelRet _ => false

variable {T : Type u} [DecidableEq T] {th t : T}

/-- When the target enters `pthread_exit` no canceller is about to stop it, and until it has
set `PT_FLG_EXITING` no canceller swaps its flags. -/
def Alone (th : T) (s : Global T (Mem × Frames) Local) (a : T × (Choice × Op)) : Prop :=
  if a.1 = th then
    s.mem.1.redirected = false → begins a.2 s.mem.1 (s.loc th).pc = true →
      ∀ u, (s.loc u).pc.marks = false
  else (s.loc th).pc = .exit → (s.loc a.1).pc.swaps s.mem.1 = false

instance [Fintype T] (s : Global T (Mem × Frames) Local) (a : T × (Choice × Op)) :
    Decidable (Alone th s a) := by
  unfold Alone
  split <;> infer_instance

/-! ### What one step does -/

variable {c : Choice} {m m' : Mem} {l l' : Local}

omit [DecidableEq T] in
/-- How the target gets to `pthread_exit`. -/
theorem act_begins (h : act true c m l = some (m', l')) (hx : l'.pc = .exit) :
    begins (c, .call) m l.pc = true := by
  cases step_of_act h with
  | move hm =>
    cases hm with
    | callExit hself hc => simp [begins, hc]
    | testExit hen => exact hen
    | _ => cases hx
  | setExit hen | beginExit hen => simp [begins, hen]
  | exitThread => rfl
  | cancelSelf hself hen => simp [begins, Pc.swaps, hen]
  | _ => cases hx

/-- The control points from `pthread_exit` on are entered through its start. -/
theorem act_exit {self : Bool} (h : act self c m l = some (m', l')) (hl : l.pc.exits = false)
    (hl' : l'.pc.exits = true) : l'.pc = .exit := by
  cases step_of_act h with
  | move hm =>
    cases hm with
    | callExit | testExit => rfl
    | _ => cases hl'
  | setExit | beginExit | cancelSelf => rfl
  | exitThread | exit | exiting => cases hl
  | _ => cases hl'

/-- A canceller does not swap the flags of a target that has set `PT_FLG_EXITING`. -/
theorem swaps_exiting {pc : Pc} (h : pc.swaps m = true) : m.flags &&& PT_FLG_EXITING = 0 := by
  have h0 := enabled_async_exiting (Pc.swaps_eq h).2
  rwa [or_and_of_disjoint (by decide), or_and_of_disjoint (by decide)] at h0

/-- A target that has set `PT_FLG_EXITING` does not begin again by itself. -/
theorem begins_exiting {c : Choice × Op} {pc : Pc} (h : begins c m pc = true)
    (hi : pc ≠ .idle) (hx : pc ≠ .exitThread) : m.flags &&& PT_FLG_EXITING = 0 := by
  cases pc with
  | setCas f arg oldval =>
      simp only [begins, Bool.decide_and, Bool.and_eq_true, decide_eq_true_eq] at h
      obtain ⟨rfl, hen⟩ := h
      by_contra hne
      exact Setter.newval_keeps kept_exiting hne (enabled_async_exiting (by simpa using hen))
  | test => exact enabled_exiting h
  | beginCas oldval =>
      simp only [begins, Bool.decide_and, Bool.and_eq_true, decide_eq_true_eq] at h
      obtain ⟨rfl, hen⟩ := h
      have h0 := enabled_async_exiting (f := m.flags ||| PT_FLG_CANCEL_ASYNC |||
        PT_FLG_CANCEL_TRANS) (by simpa using hen)
      rwa [or_and_of_disjoint (by decide), or_and_of_disjoint (by decide)] at h0
  | cancelCas oldval =>
      have hsw : (Pc.cancelCas oldval).swaps m = true := h
      exact swaps_exiting hsw
  | idle => exact absurd rfl hi
  | exitThread => exact absurd rfl hx
  | _ => cases h

/-- The target swaps its own flags on its way to `pthread_exit`. -/
theorem swaps_of_begins {c : Choice × Op} {pc : Pc} (h : begins c m pc = false) :
    pc.swaps m = false := by
  cases pc with
  | cancelCas oldval => exact h
  | _ => rfl

/-- What the target does in a step of its own. -/
inductive Unwound (c : Choice × Op) (m : Mem × Frames) (l : Local) (m' : Mem × Frames)
    (l' : Local) : Prop
  | access (h : act true c.1 m.1 l = some (m'.1, l')) (hf : m'.2 = m.2.enter l'.pc)
      (hx : l.pc = .exiting → m.2.cleanup = [])
      (hi : l.pc = .idle → c.2 = .call ∧ (m.2.running ≠ none → c.1.call ≠ .exit))
  | start (hpc : l.pc = .exiting) (hne : m.2.cleanup ≠ []) (hm : m' = (m.1, m.2.start))
      (hl : l'.pc = .idle)
  | push (hpc : l.pc = .idle) (hm : m' = (m.1, m.2.push)) (hl : l' = l)
  | pop (execute : Bool) (hpc : l.pc = .idle)
      (hlen : m.2.running.getD 0 < m.2.cleanup.length) (hm : m' = (m.1, m.2.pop execute))
      (hl : l' = l)
  | finish (hpc : l.pc = .idle) (hrun : m.2.running = some m.2.cleanup.length)
      (hm : m' = (m.1, m.2.finish)) (hl : l'.pc = .exiting)

/-- Every step of its own is one of these. -/
theorem unwind_cases {c : Choice × Op} {m m' : Mem × Frames} {l l' : Local}
    (h : unwind c m l = some (m', l')) : Unwound c m l m' l' := by
  have haccess : (act true c.1 m.1 l).map (fun r => ((r.1, m.2.enter r.2.pc), r.2)) =
      some (m', l') → act true c.1 m.1 l = some (m'.1, l') ∧ m'.2 = m.2.enter l'.pc := by
    intro h
    obtain ⟨r, hr, hm⟩ := Option.map_eq_some_iff.mp h
    cases hm
    exact ⟨hr, rfl⟩
  unfold unwind at h
  simp only at h
  split at h
  · rename_i hpc
    split at h
    · rename_i hnil
      obtain ⟨hact, hf⟩ := haccess h
      exact .access hact hf (fun _ => hnil) (fun hi => by rw [hpc] at hi; cases hi)
    · rename_i hne
      cases h
      exact .start hpc hne rfl rfl
  · rename_i hpc
    split at h
    · cases h
      exact .push hpc rfl rfl
    · obtain ⟨hlen, h⟩ := Option.ite_none_right_eq_some.mp h
      cases h
      exact .pop _ hpc hlen rfl rfl
    · obtain ⟨hrun, h⟩ := Option.ite_none_right_eq_some.mp h
      cases h
      exact .finish hpc hrun rfl rfl
    · rename_i hcall
      split at h
      · cases h
      · rename_i hno
        obtain ⟨hact, hf⟩ := haccess h
        exact .access hact hf (fun hx => by rw [hpc] at hx; cases hx)
          (fun _ => ⟨hcall, fun hrun hx => hno ⟨hrun, hx⟩⟩)
  · rename_i hx hi
    obtain ⟨hact, hf⟩ := haccess h
    exact .access hact hf (fun h => absurd h hx) (fun h => absurd h hi)

/-! ### The invariant -/

/-- A target that has entered `pthread_exit` is before its first access, or has set
`PT_FLG_EXITING` and unwinds; between two handlers none is running. -/
def Unwinds (m : Mem × Frames) (pc : Pc) : Prop :=
  if pc = .exit then m.2.running = none
  else m.1.flags &&& PT_FLG_EXITING ≠ 0 ∧ pc ≠ .exitThread ∧
    (pc.exits = true ↔ m.2.running = none)

/-- Before the target enters `pthread_exit` it runs no handler, and afterwards it is
spared. -/
structure Phase (spared : Prop) (m : Mem × Frames) (pc : Pc) : Prop where
  before : m.2.begun = 0 → m.2.running = none ∧ (pc.exits = true → pc = .exitThread)
  after : m.2.begun ≠ 0 → m.2.begun = 1 ∧ spared ∧ Unwinds m pc

/-- The invariant: the handlers, the target and its cancellers agree. -/
structure Once (th : T) (s : Global T (Mem × Frames) Local) : Prop where
  stopped : Stopped th (plain s)
  frames : s.mem.2.Ok
  phase : Phase (Spared (plain s)) s.mem (s.loc th).pc

variable {s : Global T (Mem × Frames) Local} {c : Choice × Op} {m : Mem × Frames} {l : Local}

/-- A step of a canceller. -/
theorem Once.other (hs : Once th s) (ht : t ≠ th) (hok : Alone th s (t, c))
    (h : exec th t c.1 s.mem.1 (s.loc t) = some (m.1, l)) (hf : m.2 = s.mem.2) :
    Once th ⟨m, Function.update s.loc t l⟩ := by
  have hloc : Function.update s.loc t l th = s.loc th := Function.update_of_ne (Ne.symm ht) ..
  have hact : act false c.1 s.mem.1 (s.loc t) = some (m.1, l) := by
    rcases exec_cases h with ⟨h1, -⟩ | ⟨-, hact⟩
    · exact absurd h1 ht
    · rwa [decide_eq_false ht] at hact
  refine ⟨hs.stopped.step (fun ht => exec_cancels h ht (hs.stopped.callers t ht)) (exec_stops h),
    hf ▸ hs.frames, ?_⟩
  show Phase (Spared ⟨m.1, Function.update s.loc t l⟩) m (Function.update s.loc t l th).pc
  rw [hloc]
  refine ⟨fun hb => ?_, fun hb => ?_⟩
  · rw [hf] at hb ⊢
    exact hs.phase.before hb
  · rw [hf] at hb ⊢
    obtain ⟨hone, hspared, hunw⟩ := hs.phase.after hb
    -- No canceller swaps the flags of a target that exits.
    have hno : (s.loc t).pc.swaps s.mem.1 = false := by
      by_cases hpc : (s.loc th).pc = .exit
      · rw [Alone, if_neg ht] at hok
        exact hok hpc
      · rw [Unwinds, if_neg hpc] at hunw
        by_contra hsw
        exact hunw.1 (swaps_exiting (Bool.eq_true_of_not_eq_false hsw))
    refine ⟨hone, hspared.act hact hno, ?_⟩
    unfold Unwinds at hunw ⊢
    rw [hf]
    split
    · rename_i hpc
      rwa [if_pos hpc] at hunw
    · rename_i hpc
      rw [if_neg hpc] at hunw
      exact ⟨act_keeps kept_exiting hact hunw.1, hunw.2⟩

/-- A redirected target goes to `exit_thread`, before it has entered `pthread_exit`. -/
theorem Once.redirect (hs : Once th s) (hr : s.mem.1.redirected = true)
    (h : exec th th c.1 s.mem.1 (s.loc th) = some (m.1, l)) (hl : l.pc = .exitThread)
    (hf : m.2 = s.mem.2.leave) : Once th ⟨m, Function.update s.loc th l⟩ := by
  have hb : s.mem.2.begun = 0 := by
    by_contra hb
    obtain ⟨-, hspared, -⟩ := hs.phase.after hb
    rw [show s.mem.1.redirected = false from hspared.1] at hr
    cases hr
  refine ⟨hs.stopped.step (absurd rfl) (exec_stops h), ?_, ?_⟩
  · show m.2.Ok
    rw [hf]
    exact hs.frames.leave (hs.phase.before hb).1
  · show Phase _ m (Function.update s.loc th l th).pc
    rw [Function.update_self, hl]
    refine ⟨fun _ => ⟨by rw [hf]; rfl, fun _ => rfl⟩, ?_⟩
    intro hne
    rw [hf] at hne
    exact absurd hb hne

omit [DecidableEq T] in
/-- An access of a target that has entered `pthread_exit` does not enter it again. -/
theorem Unwinds.not_begins {pc : Pc} (hu : Unwinds m pc)
    (hi : pc = .idle → c.2 = .call ∧ (m.2.running ≠ none → c.1.call ≠ .exit)) :
    begins c m.1 pc = false := by
  by_cases hpc : pc = .exit
  · rw [hpc]
    rfl
  · rw [Unwinds, if_neg hpc] at hu
    obtain ⟨hflag, hsent, hrun⟩ := hu
    by_contra hb
    have hb := Bool.eq_true_of_not_eq_false hb
    by_cases hidle : pc = .idle
    · -- A handler does not call `pthread_exit`.
      subst hidle
      have hne : m.2.running ≠ none := fun h0 => by cases hrun.mpr h0
      simp only [begins, (hi rfl).1, true_and, decide_eq_true_eq] at hb
      exact (hi rfl).2 hne hb
    · exact hflag (begins_exiting hb hidle hsent)

omit [DecidableEq T] in
/-- An access of a target that has entered `pthread_exit`. -/
theorem Unwinds.access {l' : Local} {m' : Mem × Frames} (hu : Unwinds m l.pc)
    (hact : act true c.1 m.1 l = some (m'.1, l')) (hf : m'.2.running = m.2.running)
    (hx : l'.pc ≠ .exit) : Unwinds m' l'.pc := by
  rw [Unwinds, if_neg hx, hf]
  by_cases hpc : l.pc = .exit
  · rw [Unwinds, if_pos hpc] at hu
    simp only [act, hpc, Option.some.injEq, Prod.mk.injEq] at hact
    obtain ⟨hm, rfl⟩ := hact
    refine ⟨?_, by simp, iff_of_true rfl hu⟩
    rw [← hm]
    show (m.1.flags ||| PT_FLG_EXITING) &&& PT_FLG_EXITING ≠ 0
    rw [or_and_self]
    decide
  · rw [Unwinds, if_neg hpc] at hu
    obtain ⟨hflag, -, hrun⟩ := hu
    refine ⟨act_keeps kept_exiting hact hflag, act_sent hact, ?_⟩
    rw [← hrun]
    refine ⟨fun hx' => ?_, (act_exits hact).1⟩
    by_contra hl
    exact hx (act_exit hact (Bool.eq_false_of_not_eq_true hl) hx')

omit [DecidableEq T] in
/-- What the target's own step leaves of its phase. -/
theorem Phase.unwind {spared spared' : Prop} {l' : Local} {m' : Mem × Frames}
    (hp : Phase spared m l.pc) (h : Unwound c m l m' l')
    (hkeep : l.pc.swaps m.1 = false → spared → spared')
    (hnew : l'.pc = .exit → begins c m.1 l.pc = true → spared') : Phase spared' m' l'.pc := by
  cases h with
  | access hact hf hx hi =>
      have hbegins : l'.pc = .exit → begins c m.1 l.pc = true := by
        intro hpc
        have hb := act_begins hact hpc
        cases hl : l.pc <;> simp_all [begins]
      by_cases hpc : l'.pc = .exit
      · have hb : m.2.begun = 0 := by
          by_contra hb
          have hno := (hp.after hb).2.2.not_begins hi
          rw [hbegins hpc] at hno
          cases hno
        have hbegun : m'.2.begun = 1 := by
          rw [hf, Frames.enter, if_pos hpc, hb]
        refine ⟨fun h0 => ?_, fun _ => ⟨hbegun, hnew hpc (hbegins hpc), ?_⟩⟩
        · rw [hbegun] at h0
          cases h0
        · rw [Unwinds, if_pos hpc, hf]
          exact (hp.before hb).1
      · have hbegun : m'.2.begun = m.2.begun := by
          rw [hf, Frames.enter, if_neg hpc]
        have hrun : m'.2.running = m.2.running := by
          rw [hf]
          rfl
        refine ⟨fun hb => ?_, fun hb => ?_⟩
        · rw [hbegun] at hb
          obtain ⟨hnone, hexits⟩ := hp.before hb
          refine ⟨hrun.trans hnone, fun hx' => absurd ?_ hpc⟩
          -- From `exit_thread` the target goes to `pthread_exit`.
          by_cases hl : l.pc.exits = true
          · have hl' := hexits hl
            simp only [act, hl', Option.some.injEq, Prod.mk.injEq] at hact
            exact congrArg Local.pc hact.2.symm
          · exact act_exit hact (Bool.eq_false_of_not_eq_true hl) hx'
        · rw [hbegun] at hb ⊢
          obtain ⟨hone, hspared, hunw⟩ := hp.after hb
          exact ⟨hone, hkeep (swaps_of_begins (hunw.not_begins hi)) hspared,
            hunw.access hact hrun hpc⟩
  | start hpc hne hm hl =>
      subst hm
      rw [hl]
      have hb : m.2.begun ≠ 0 := by
        intro hb
        have hsent := (hp.before hb).2 (by rw [hpc]; rfl)
        rw [hpc] at hsent
        cases hsent
      obtain ⟨hone, hspared, hunw⟩ := hp.after hb
      rw [hpc, Unwinds, if_neg (by simp)] at hunw
      refine ⟨fun h0 => absurd h0 hb, fun _ => ⟨hone, hkeep (by rw [hpc]; rfl) hspared, ?_⟩⟩
      rw [Unwinds, if_neg (by simp)]
      exact ⟨hunw.1, by simp, by simp [Pc.exits, Frames.start]⟩
  | push hpc hm hl | pop execute hpc hlen hm hl =>
      subst hm
      subst hl
      refine ⟨hp.before, ?_⟩
      intro hb
      obtain ⟨hone, hspared, hunw⟩ := hp.after hb
      exact ⟨hone, hkeep (by rw [hpc]; rfl) hspared, hunw⟩
  | finish hpc hrun hm hl =>
      subst hm
      rw [hl]
      have hb : m.2.begun ≠ 0 := by
        intro hb
        have hnone := (hp.before hb).1
        rw [hrun] at hnone
        cases hnone
      obtain ⟨hone, hspared, hunw⟩ := hp.after hb
      rw [hpc, Unwinds, if_neg (by simp)] at hunw
      refine ⟨fun h0 => absurd h0 hb, fun _ => ⟨hone, hkeep (by rw [hpc]; rfl) hspared, ?_⟩⟩
      rw [Unwinds, if_neg (by simp)]
      exact ⟨hunw.1, by simp, by simp [Pc.exits, Frames.finish]⟩

omit [DecidableEq T] in
/-- The target's own step and the suspensions. -/
theorem Unwound.stops {l' : Local} {m' : Mem × Frames} (h : Unwound c m l m' l') :
    (l'.pc.stops = l.pc.stops ∧ m'.1.suspended = m.1.suspended) ∨
    (l'.pc.stops = true ∧ m'.1.suspended = m.1.suspended + 1) ∨
    (l.pc.stops = true ∧ l'.pc.stops = false ∧ m.1.suspended ≤ m'.1.suspended + 1) := by
  cases h with
  | access hact => exact act_stops hact
  | start hpc hne hm hl | finish hpc hrun hm hl =>
      subst hm
      rw [hpc, hl]
      exact .inl ⟨rfl, rfl⟩
  | push hpc hm hl | pop execute hpc hlen hm hl =>
      subst hm
      subst hl
      exact .inl ⟨rfl, rfl⟩

omit [DecidableEq T] in
/-- The target's own step redirects nobody, and takes aim only by a swap. -/
theorem Unwound.aims {l' : Local} {m' : Mem × Frames} (h : Unwound c m l m' l') :
    (l'.pc.aims = true → l.pc.aims = true ∨ l.pc.swaps m.1 = true) ∧
    (m'.1.redirected = true → m.1.redirected = true ∨ l.pc.aims = true) := by
  cases h with
  | access hact => exact act_aims hact
  | start hpc hne hm hl | finish hpc hrun hm hl =>
      subst hm
      rw [hl]
      exact ⟨fun ha => absurd ha (by simp [Pc.aims]), .inl⟩
  | push hpc hm hl | pop execute hpc hlen hm hl =>
      subst hm
      subst hl
      exact ⟨.inl, .inl⟩

omit [DecidableEq T] in
/-- The target's own step and its handlers. -/
theorem Unwound.frames {l' : Local} {m' : Mem × Frames} (h : Unwound c m l m' l')
    (hf : m.2.Ok) (hrun : l.pc.exits = true → l.pc ≠ .exitThread → m.2.running = none) :
    m'.2.Ok := by
  cases h with
  | access hact hm => exact hm ▸ hf.enter l'.pc
  | start hpc hne hm hl => exact hm ▸ hf.start (hrun (by rw [hpc]; rfl) (by simp [hpc])) hne
  | push hpc hm hl => exact hm ▸ hf.push
  | pop execute hpc hlen hm hl => exact hm ▸ hf.pop hlen
  | finish hpc hrun' hm hl => exact hm ▸ hf.finish hrun'

/-- A step of the target's own. -/
theorem Once.unwind (hs : Once th s) (h0 : s.mem.1.suspended = 0)
    (hr : s.mem.1.redirected = false) (hok : Alone th s (th, c))
    (h : Unwound c s.mem (s.loc th) m l) : Once th ⟨m, Function.update s.loc th l⟩ := by
  have hok : begins c s.mem.1 (s.loc th).pc = true → ∀ u, (s.loc u).pc.marks = false := by
    rw [Alone, if_pos rfl] at hok
    exact hok hr
  refine ⟨hs.stopped.step (absurd rfl) h.stops, h.frames hs.frames fun hx hsent => ?_, ?_⟩
  · by_cases hb : s.mem.2.begun = 0
    · exact absurd ((hs.phase.before hb).2 hx) hsent
    · obtain ⟨-, -, hunw⟩ := hs.phase.after hb
      rw [Unwinds] at hunw
      split at hunw
      · exact hunw
      · exact hunw.2.2.mp hx
  · show Phase (Spared ⟨m.1, Function.update s.loc th l⟩) m (Function.update s.loc th l th).pc
    rw [Function.update_self]
    refine hs.phase.unwind h (fun hsw hsp => ?_) fun hx hb => ?_
    · refine Spared.step hsp ?_ h.aims.2
      by_contra ha
      rcases h.aims.1 (Bool.eq_true_of_not_eq_false ha) with h1 | h1
      · rw [show (s.loc th).pc.aims = false from hsp.2 th] at h1
        cases h1
      · rw [hsw] at h1
        cases h1
    · -- The target enters `pthread_exit`, and nobody is about to stop it.
      exact (hs.stopped.spared h0 hr (hok hb)).step (by rw [hx]; rfl) h.aims.2

/-- Every step that meets the condition keeps the invariant. -/
theorem Once.step (hs : Once th s) (hok : Alone th s (t, c))
    (h : execUnwind th t c s.mem (s.loc t) = some (m, l)) :
    Once th ⟨m, Function.update s.loc t l⟩ := by
  unfold execUnwind at h
  split at h
  · rename_i hown
    obtain ⟨rfl, h0, hr⟩ := hown
    exact hs.unwind h0 hr hok (unwind_cases h)
  · rename_i hown
    obtain ⟨r, he, hm⟩ := Option.map_eq_some_iff.mp h
    cases hm
    by_cases ht : t = th
    · subst ht
      rcases exec_cases he with ⟨-, hr, -, hl⟩ | ⟨hred, hact⟩
      · exact hs.redirect hr he (by rw [hl]) (if_pos rfl)
      · -- A target that runs and is not redirected takes its own step.
        have hr : s.mem.1.redirected = true := by
          by_contra hr
          exact hown ⟨rfl, exec_runs he, Bool.eq_false_of_not_eq_true hr⟩
        rw [act, hred rfl hr] at hact
        cases hact
    · exact hs.other ht hok he (if_neg ht)

/-! ### Whole runs -/

/-- The target has entered `pthread_exit` at most once, and each of its handlers was called
at most once. -/
structure TerminatesOnce (s : Global T (Mem × Frames) Local) : Prop where
  begun : s.mem.2.begun ≤ 1
  started : s.mem.2.started.Nodup

/-- Termination starts once, in every run in which no canceller is about to stop the target
while it enters `pthread_exit`. -/
theorem exit_once (h : (unwinding th).ReachVia (Alone th) s) : TerminatesOnce s := by
  have hs : Once th s := by
    refine Exec.invariant (fun s hs => ?_) (fun s t c m p hs hok he => hs.step hok he) h
    obtain ⟨⟨⟨flags, id, -, -, hm⟩, hloc⟩, hf⟩ := hs
    have hpc : ∀ t, s.loc t = ⟨.idle, 0⟩ := hloc
    refine ⟨⟨fun t _ => ?_, ∅, fun t => ?_, Nat.zero_le _⟩, ?_, ?_⟩
    · show (s.loc t).pc.cancels = true
      rw [hpc t]
      rfl
    · show t ∈ (∅ : Finset T) ↔ (s.loc t).pc.stops = true
      rw [hpc t]
      simp [Pc.stops]
    · rw [hf]
      constructor <;> simp [Frames.Fresh]
    · rw [hpc th]
      exact ⟨fun _ => ⟨by rw [hf], nofun⟩, fun hb => absurd (by rw [hf]) hb⟩
  refine ⟨?_, hs.frames.started⟩
  by_cases hb : s.mem.2.begun = 0
  · exact hb.le.trans (Nat.zero_le 1)
  · exact (hs.phase.after hb).1.le

/-- Three threads before any call. -/
def startUnwinding : Global (Fin 3) (Mem × Frames) Local :=
  ⟨(⟨0, 1, 0, false, false, false⟩, ⟨[], 0, none, [], 0⟩), fun _ => ⟨.idle, 0⟩⟩

theorem startUnwinding_init : (unwinding (0 : Fin 3)).init startUnwinding :=
  ⟨⟨⟨0, 1, by decide, by decide, rfl⟩, fun _ => rfl⟩, rfl⟩

/-- The thread 0 has two handlers in place when the thread 1 cancels it. Both are called,
the innermost first, while the thread 2 cancels it once more. -/
theorem exit_once_three : ∃ s, (unwinding (0 : Fin 3)).ReachVia (Alone 0) s ∧
    s.mem.2.started = [0, 1] ∧ (s.loc 0).pc = .dead ∧ (s.loc 2).pc = .storeMtflag ∧
    TerminatesOnce s := by
  obtain ⟨s, hs, hst, hpc, hret⟩ := (unwinding (0 : Fin 3)).exists_reachVia (Alone 0)
    startUnwinding_init
    [(0, {}, .push), (0, {}, .push),
      (0, { call := .set .setcanceltype PTHREAD_CANCEL_ASYNCHRONOUS }, .call), (0, {}, .call),
      (0, {}, .call), (0, {}, .call), (1, {}, .call), (1, {}, .call), (1, {}, .call),
      (1, {}, .call), (1, {}, .call), (1, {}, .call), (1, {}, .call), (1, {}, .call),
      (1, {}, .call), (1, {}, .call), (0, {}, .call), (0, {}, .call), (0, {}, .call),
      (0, {}, .call), (2, {}, .call), (2, {}, .call), (2, {}, .call),
      (0, {}, .handlerReturn), (0, {}, .call), (0, {}, .handlerReturn), (0, {}, .call)]
    (fun s => s.mem.2.started = [0, 1] ∧ (s.loc 0).pc = .dead ∧ (s.loc 2).pc = .storeMtflag)
    (by decide)
  exact ⟨s, hs, hst, hpc, hret, exit_once hs⟩

/-- Both cancellers have swapped the flags when the first one redirects the thread 0. The
second one redirects it out of its handler, and the handler is called again. -/
theorem exit_once_fails : ∃ s, (unwinding (0 : Fin 3)).Reach s ∧ s.mem.2.begun = 2 ∧
    s.mem.2.started = [0, 0] ∧ ¬ TerminatesOnce s := by
  obtain ⟨s, hs, hb, hst⟩ := (unwinding (0 : Fin 3)).exists_reach startUnwinding_init
    [(0, {}, .push), (0, { call := .set .setcanceltype PTHREAD_CANCEL_ASYNCHRONOUS }, .call),
      (0, {}, .call), (0, {}, .call), (0, {}, .call), (1, {}, .call), (1, {}, .call),
      (1, {}, .call), (1, {}, .call), (2, {}, .call), (2, {}, .call), (2, {}, .call),
      (2, {}, .call), (1, {}, .call), (1, {}, .call), (1, {}, .call), (1, {}, .call),
      (1, {}, .call), (1, {}, .call), (0, {}, .call), (0, {}, .call), (0, {}, .call),
      (0, {}, .call), (2, {}, .call), (2, {}, .call), (2, {}, .call), (2, {}, .call),
      (2, {}, .call), (2, {}, .call), (0, {}, .call), (0, {}, .call), (0, {}, .call),
      (0, {}, .call)]
    (fun s => s.mem.2.begun = 2 ∧ s.mem.2.started = [0, 0]) (by decide)
  refine ⟨s, hs, hb, hst, ?_⟩
  intro h
  have hone := h.begun
  rw [hb] at hone
  exact absurd hone (by decide)

end Hlpt.Cancel
