import Hlpt.Cancel.Model

/-!
# `Hlpt.Cancel.Steps`: the accesses of the target and of its cancellers, one by one

Most accesses only read the target's flags and go on, or are a kernel call that fails
(`Moves`). The others change the flags, or one of the other words (`Step`).

* `step_of_act`: every access is one of them.
-/

set_option autoImplicit false

namespace Hlpt.Cancel

/-- An access that changes nothing, with what it has read. -/
inductive Moves (self : Bool) (c : Choice) (m : Mem) : Pc → Pc → Prop
  -- A call begins.
  | cancel : Moves self c m .idle .cancelInvalid
  | set {f : Setter} {arg : BitVec 32} (hself : self = true) (hc : c.call = .set f arg)
      (harg : arg = f.on ∨ arg = f.off) : Moves self c m .idle (.setLoad f arg)
  | setEinval (hself : self = true) : Moves self c m .idle (.setRet .einval)
  | testcancel (hself : self = true) : Moves self c m .idle .test
  | cancelpoint (hself : self = true) : Moves self c m .idle .beginTest
  | callExit (hself : self = true) (hc : c.call = .exit) : Moves self c m .idle .exit
  -- The setters and the cancellation points.
  | setAgain {f : Setter} {arg oldval : BitVec 32} (hm : m.flags ≠ oldval) :
      Moves self c m (.setCas f arg oldval) (.setLoad f arg)
  | setRet {r : Code} : Moves self c m (.setRet r) .idle
  | testExit (hm : CANCELLED_ENABLED_P m.flags = true) : Moves self c m .test .exit
  | test : Moves self c m .test .idle
  | beginOff : Moves self c m .beginTest (.blocked false)
  | beginTest : Moves self c m .beginTest .beginLoad
  | beginNested : Moves self c m .beginLoad (.blocked true)
  | beginLoad : Moves self c m .beginLoad (.beginCas m.flags)
  | beginAgain {oldval : BitVec 32} : Moves self c m (.beginCas oldval) .beginLoad
  | blocked {prev : Bool} : Moves self c m (.blocked prev) (.finish prev)
  | finish : Moves self c m (.finish false) .idle
  -- `pthread_cancel`, up to the swap of the flags.
  | cancelEsrch : Moves self c m .cancelInvalid (.cancelRet .esrch)
  | cancelInvalid : Moves self c m .cancelInvalid .cancelLoad
  | cancelMarked (hm : m.flags = m.flags ||| PT_FLG_CANCELLING ||| PT_FLG_CANCELLED) :
      Moves self c m .cancelLoad .storeMtflag
  | cancelLoad : Moves self c m .cancelLoad (.cancelCas m.flags)
  | cancelAgain {oldval : BitVec 32} : Moves self c m (.cancelCas oldval) .cancelLoad
  -- The kernel calls of `pthread_cancel`.
  | suspendFails {oldval : BitVec 32} : Moves self c m (.suspend oldval) (.cancelRet .esrch)
  | abort {oldval : BitVec 32} : Moves self c m (.abort oldval) (.getState oldval c.fails)
  | getState {oldval : BitVec 32} {err : Bool} :
      Moves self c m (.getState oldval err) (.inspect oldval (err || c.fails))
  | inspect {oldval : BitVec 32} {err : Bool} :
      Moves self c m (.inspect oldval err) (.setState err)
  | inspectPasses {oldval : BitVec 32} {err : Bool} (htrans : oldval &&& PT_FLG_CANCEL_TRANS ≠ 0)
      (hin : c.inPoint = false) : Moves self c m (.inspect oldval err) (.resume err)
  | setStateFails {err : Bool} : Moves self c m (.setState err) (.resume true)
  | resumeFails {err : Bool} : Moves self c m (.resume err) (.cancelRet .esrch)

/-- An access, with what it changes. -/
inductive Step (self : Bool) (c : Choice) (m : Mem) : Local → Mem → Local → Prop
  | move {pc pc' : Pc} {prev : BitVec 32} (hm : Moves self c m pc pc') :
      Step self c m ⟨pc, prev⟩ m ⟨pc', prev⟩
  -- The target swaps its own flags.
  | setSame {f : Setter} {arg prev : BitVec 32} (hm : m.flags = f.newval arg m.flags) :
      Step self c m ⟨.setLoad f arg, prev⟩ m ⟨.setRet .ok, f.prev m.flags⟩
  | setLoad {f : Setter} {arg prev : BitVec 32} :
      Step self c m ⟨.setLoad f arg, prev⟩ m ⟨.setCas f arg m.flags, f.prev m.flags⟩
  | setExit {f : Setter} {arg prev : BitVec 32}
      (hen : CANCELLED_ENABLED_ASYNC_P (f.newval arg m.flags) = true) :
      Step self c m ⟨.setCas f arg m.flags, prev⟩ { m with flags := f.newval arg m.flags }
        ⟨.exit, prev⟩
  | setCas {f : Setter} {arg prev : BitVec 32}
      (hen : ¬ CANCELLED_ENABLED_ASYNC_P (f.newval arg m.flags) = true) :
      Step self c m ⟨.setCas f arg m.flags, prev⟩ { m with flags := f.newval arg m.flags }
        ⟨.setRet .ok, prev⟩
  | beginExit {prev : BitVec 32}
      (hen : CANCELLED_ENABLED_ASYNC_P
        (m.flags ||| PT_FLG_CANCEL_ASYNC ||| PT_FLG_CANCEL_TRANS) = true) :
      Step self c m ⟨.beginCas m.flags, prev⟩
        { m with flags := m.flags ||| PT_FLG_CANCEL_ASYNC ||| PT_FLG_CANCEL_TRANS } ⟨.exit, prev⟩
  | beginCas {prev : BitVec 32}
      (hen : ¬ CANCELLED_ENABLED_ASYNC_P
        (m.flags ||| PT_FLG_CANCEL_ASYNC ||| PT_FLG_CANCEL_TRANS) = true) :
      Step self c m ⟨.beginCas m.flags, prev⟩
        { m with flags := m.flags ||| PT_FLG_CANCEL_ASYNC ||| PT_FLG_CANCEL_TRANS }
        ⟨.blocked true, prev⟩
  | finish {prev : BitVec 32} :
      Step self c m ⟨.finish true, prev⟩
        { m with flags := m.flags &&& ~~~(PT_FLG_CANCEL_ASYNC ||| PT_FLG_CANCEL_TRANS) }
        ⟨.idle, prev⟩
  -- `exit_thread` and `pthread_exit`
  | exitThread {prev : BitVec 32} :
      Step self c m ⟨.exitThread, prev⟩ { m with flags := m.flags ||| PT_FLG_CANCELLED }
        ⟨.exit, prev⟩
  | exit {prev : BitVec 32} :
      Step self c m ⟨.exit, prev⟩ { m with flags := m.flags ||| PT_FLG_EXITING } ⟨.exiting, prev⟩
  | exiting {prev : BitVec 32} :
      Step self c m ⟨.exiting, prev⟩ { m with id := 0 } ⟨.dead, prev⟩
  -- `pthread_cancel` swaps the flags.
  | cancelSelf {prev : BitVec 32} (hself : self = true)
      (hen : CANCELLED_ENABLED_ASYNC_P
        (m.flags ||| PT_FLG_CANCELLING ||| PT_FLG_CANCELLED) = true) :
      Step self c m ⟨.cancelCas m.flags, prev⟩ { m with flags := m.flags ||| PT_FLG_CANCELLING }
        ⟨.exit, prev⟩
  | cancelOther {prev : BitVec 32} (hself : self = false)
      (hen : CANCELLED_ENABLED_ASYNC_P
        (m.flags ||| PT_FLG_CANCELLING ||| PT_FLG_CANCELLED) = true) :
      Step self c m ⟨.cancelCas m.flags, prev⟩ { m with flags := m.flags ||| PT_FLG_CANCELLING }
        ⟨.suspend m.flags, prev⟩
  | cancelMark {prev : BitVec 32}
      (hen : ¬ CANCELLED_ENABLED_ASYNC_P
        (m.flags ||| PT_FLG_CANCELLING ||| PT_FLG_CANCELLED) = true) :
      Step self c m ⟨.cancelCas m.flags, prev⟩
        { m with flags := m.flags ||| PT_FLG_CANCELLING ||| PT_FLG_CANCELLED }
        ⟨.storeMtflag, prev⟩
  -- It stops the target, redirects it and lets it go.
  | suspend {oldval prev : BitVec 32} :
      Step self c m ⟨.suspend oldval, prev⟩ { m with suspended := m.suspended + 1 }
        ⟨.abort oldval, prev⟩
  | setState {err : Bool} {prev : BitVec 32} :
      Step self c m ⟨.setState err, prev⟩ { m with redirected := true } ⟨.resume err, prev⟩
  | resumeErr {prev : BitVec 32} :
      Step self c m ⟨.resume true, prev⟩ { m with suspended := m.suspended - 1 }
        ⟨.cancelRet .esrch, prev⟩
  | resume {prev : BitVec 32} :
      Step self c m ⟨.resume false, prev⟩ { m with suspended := m.suspended - 1 }
        ⟨.storeMtflag, prev⟩
  | storeMtflag {prev : BitVec 32} :
      Step self c m ⟨.storeMtflag, prev⟩ { m with mtflag := true } ⟨.cancelRet .ok, prev⟩
  | cancelRet {r : Code} {prev : BitVec 32} :
      Step self c m ⟨.cancelRet r, prev⟩ { m with acknowledged := m.acknowledged || r = .ok }
        ⟨.idle, prev⟩

variable {self : Bool} {c : Choice} {m m' : Mem} {l l' : Local}

/-- The call of a function. -/
theorem moves_of_enter {pc : Pc} (h : enter self c.call = some pc) : Moves self c m .idle pc := by
  cases self with
  | false =>
    cases hc : c.call with
    | cancel =>
      rw [hc] at h
      cases h
      exact .cancel
    | set f arg | testcancel | cancelpoint | exit =>
      rw [hc] at h
      cases h
  | true =>
    cases hc : c.call with
    | cancel =>
      rw [hc] at h
      cases h
      exact .cancel
    | set f arg =>
      rw [hc] at h
      cases h
      split
      · next harg => exact .set rfl hc harg
      · exact .setEinval rfl
    | testcancel =>
      rw [hc] at h
      cases h
      exact .testcancel rfl
    | cancelpoint =>
      rw [hc] at h
      cases h
      exact .cancelpoint rfl
    | exit =>
      rw [hc] at h
      cases h
      exact .callExit rfl hc

/-- Every access is one of them. -/
theorem step_of_act (h : act self c m l = some (m', l')) : Step self c m l m' l' := by
  rcases l with ⟨pc, prev⟩
  cases pc with
  | idle =>
    obtain ⟨pc, hpc, heq⟩ := Option.map_eq_some_iff.mp h
    cases heq
    exact .move (moves_of_enter hpc)
  | setLoad f arg =>
    cases h
    split
    · next hm => exact .setSame hm
    · exact .setLoad
  | setCas f arg oldval =>
    simp only [act] at h
    split at h
    · next hm =>
      subst hm
      cases h
      split
      · next hen => exact .setExit hen
      · next hen => exact .setCas hen
    · next hm =>
      cases h
      exact .move (.setAgain hm)
  | setRet r =>
    cases h
    exact .move .setRet
  | test =>
    cases h
    refine .move ?_
    split
    · next hm => exact .testExit hm
    · exact .test
  | beginTest =>
    cases h
    refine .move ?_
    split
    · exact .beginOff
    · exact .beginTest
  | beginLoad =>
    cases h
    refine .move ?_
    split
    · exact .beginNested
    · exact .beginLoad
  | beginCas oldval =>
    simp only [act] at h
    split at h
    · next hm =>
      subst hm
      cases h
      split
      · next hen => exact .beginExit hen
      · next hen => exact .beginCas hen
    · cases h
      exact .move .beginAgain
  | blocked prev =>
    cases h
    exact .move .blocked
  | finish prev =>
    cases prev with
    | true =>
      cases h
      exact .finish
    | false =>
      cases h
      exact .move .finish
  | exitThread =>
    cases h
    exact .exitThread
  | exit =>
    cases h
    exact .exit
  | exiting =>
    cases h
    exact .exiting
  | dead => cases h
  | cancelInvalid =>
    cases h
    refine .move ?_
    split
    · exact .cancelEsrch
    · exact .cancelInvalid
  | cancelLoad =>
    cases h
    refine .move ?_
    split
    · next hm => exact .cancelMarked hm
    · exact .cancelLoad
  | cancelCas oldval =>
    simp only [act] at h
    split at h
    · next hm =>
      subst hm
      split at h
      · next hen =>
        cases h
        cases self with
        | true => exact .cancelSelf rfl hen
        | false => exact .cancelOther rfl hen
      · next hen =>
        cases h
        exact .cancelMark hen
    · cases h
      exact .move .cancelAgain
  | suspend oldval =>
    simp only [act] at h
    split at h
    · cases h
      exact .move .suspendFails
    · cases h
      exact .suspend
  | abort oldval =>
    cases h
    exact .move .abort
  | getState oldval err =>
    cases h
    exact .move .getState
  | inspect oldval err =>
    cases h
    refine .move ?_
    split
    · exact .inspect
    · next hno =>
      obtain ⟨htrans, hin⟩ := not_or.mp hno
      exact .inspectPasses htrans (Bool.eq_false_of_not_eq_true hin)
  | setState err =>
    simp only [act] at h
    split at h
    · cases h
      exact .move .setStateFails
    · cases h
      exact .setState
  | resume err =>
    simp only [act] at h
    split at h
    · cases h
      exact .move .resumeFails
    · cases h
      cases err with
      | true => exact .resumeErr
      | false => exact .resume
  | storeMtflag =>
    cases h
    exact .storeMtflag
  | cancelRet r =>
    cases h
    exact .cancelRet

end Hlpt.Cancel
