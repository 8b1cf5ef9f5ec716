import Hlpt.Termination.Model

/-!
# `Hlpt.Termination.Moves`: the steps of a thread, one by one

Most steps only read the descriptor and go on (`Moves`). The others change one field of it,
or the queue on the id (`Step`).

* `step_of_exec`: every step is one of them.
-/

set_option autoImplicit false

namespace Hlpt.Termination

open Hlpt.Lib

universe u

variable {T : Type u} [DecidableEq T]

/-- A step that leaves the descriptor, with what it has read. -/
inductive Moves (tgt : Target T) (c : Choice T) (m : Mem T) : Pc → Pc → Prop
  -- `__pthread_cleanup`
  | sample : Moves tgt c m .sample (.mark (m.detachedP tgt))
  | cleanup (hm : m.flags &&& PT_FLG_USR_STACK = 0) :
      Moves tgt c m (.cleanup true) (.kernelFree true tgt.range.1 tgt.range.2)
  | cleanupEvent {d : Bool} (hm : ¬ (d = true ∧ m.flags &&& PT_FLG_USR_STACK = 0)) :
      Moves tgt c m (.cleanup d) (.kernelFree d 0 0)
  -- A call begins, and looks at the descriptor.
  | detach : Moves tgt c m .idle .detachInvalid
  | joinDetached {k : JoinCall} : Moves tgt c m (.joinDetached k) (.ret .joiner .einval)
  | joinJoinable {k : JoinCall} : Moves tgt c m (.joinDetached k) (.joinSelf k)
  | joinDeadlk {k : JoinCall} : Moves tgt c m (.joinSelf k) (.ret .joiner .edeadlk)
  | joinSelf {k : JoinCall} (hk : k ≠ .tryjoin) : Moves tgt c m (.joinSelf k) (.joinLook k)
  | trySelf : Moves tgt c m (.joinSelf .tryjoin) .joinBusy
  | joinBusy : Moves tgt c m .joinBusy (.ret .joiner .ebusy)
  | joinNotBusy (hm : m.id = 0) : Moves tgt c m .joinBusy (.joinLook .tryjoin)
  | joinTaken {k : JoinCall} : Moves tgt c m (.joinLook k) (.ret .joiner .einval)
  | joinLook {k : JoinCall} : Moves tgt c m (.joinLook k) (.joinCas k)
  | joinLost {k : JoinCall} : Moves tgt c m (.joinCas k) (.ret .joiner .einval)
  -- A joiner in its cancellation point.
  | joinBegin {k : JoinCall} : Moves tgt c m (.joinBegin k) (.joinLoad k)
  | joinLoad {k : JoinCall} : Moves tgt c m (.joinLoad k) (.joinWait k m.id)
  | joinDead {k : JoinCall} (hm : m.id = 0) : Moves tgt c m (.joinLoad k) (.joinEnd false)
  | joinExpired {k : JoinCall} {id : BitVec 32} : Moves tgt c m (.joinWait k id) (.joinEnd true)
  | joinChanged {k : JoinCall} {id : BitVec 32} : Moves tgt c m (.joinWait k id) (.joinLoad k)
  | timedChanged {tsp : Timespec} {id : BitVec 32} (hc : c.cancel = false)
      (he : Hlpt.expired tsp c.now = false) (hm : m.id ≠ id) :
      Moves tgt c m (.joinWait (.timedjoin tsp) id) (.joinEnd false)
  -- It is cancelled.
  | cancelBegin {k : JoinCall} : Moves tgt c m (.joinBegin k) .joinCancel
  | cancelLoad {k : JoinCall} : Moves tgt c m (.joinLoad k) .joinCancel
  | cancelWait {k : JoinCall} {id : BitVec 32} : Moves tgt c m (.joinWait k id) .joinCancel
  | cancelEnd {timedout : Bool} : Moves tgt c m (.joinEnd timedout) .joinCancel
  -- It leaves the cancellation point.
  | joinTimedout : Moves tgt c m (.joinEnd true) .joinUndo
  | joinEndRetval : Moves tgt c m (.joinEnd false) .joinRetval
  | joinEnd : Moves tgt c m (.joinEnd false) (.deallocate .joiner)
  -- `pthread_detach`
  | detachEsrch : Moves tgt c m .detachInvalid (.ret .detacher .esrch)
  | detachInvalid : Moves tgt c m .detachInvalid .detachDetached
  | detachDetached : Moves tgt c m .detachDetached (.ret .detacher .einval)
  | detachJoinable : Moves tgt c m .detachDetached .detachCas
  | detachRunning (hm : m.flags &&& PT_FLG_EXITING = 0) :
      Moves tgt c m .detachFlags (.ret .detacher .ok)
  | detachExiting (hm : m.flags &&& PT_FLG_EXITING ≠ 0) : Moves tgt c m .detachFlags .detachLoad
  | detachLoad : Moves tgt c m .detachLoad (.detachWait m.id)
  | detachDead (hm : m.id = 0) : Moves tgt c m .detachLoad (.deallocate .detacher)
  | detachChanged {id : BitVec 32} : Moves tgt c m (.detachWait id) .detachLoad
  -- `free_stack`
  | userStack {w : Who} (hm : m.flags &&& PT_FLG_USR_STACK ≠ 0) :
      Moves tgt c m (.freeStack w) (.ret w .ok)
  | freeStack {w : Who} (hm : m.flags &&& PT_FLG_USR_STACK = 0) :
      Moves tgt c m (.freeStack w) (.vmDeallocate w tgt.range.1 tgt.range.2)

/-- A step, with what it changes. -/
inductive Step (tgt : Target T) (t : T) (c : Choice T) (m : Mem T) : Local → Mem T → Local → Prop
  | move {pc pc' : Pc} {retpp : Bool} {out : Option (BitVec 32)} (hm : Moves tgt c m pc pc') :
      Step tgt t c m ⟨pc, retpp, out⟩ m ⟨pc', retpp, out⟩
  | join {k : JoinCall} {retpp retpp' : Bool} {out : Option (BitVec 32)} :
      Step tgt t c m ⟨.idle, retpp, out⟩ m ⟨.joinDetached k, retpp', none⟩
  -- The target and the kernel.
  | entry {retpp : Bool} {out : Option (BitVec 32)} :
      Step tgt t c m ⟨.entry, retpp, out⟩ { m with id := tgt.id } ⟨.run, retpp, out⟩
  | runExits {retpp : Bool} {out : Option (BitVec 32)} :
      Step tgt t c m ⟨.run, retpp, out⟩ { m with retval := c.retval } ⟨.exit, retpp, out⟩
  | runReturns {retpp : Bool} {out : Option (BitVec 32)} :
      Step tgt t c m ⟨.run, retpp, out⟩ { m with retval := c.retval } ⟨.sample, retpp, out⟩
  | exit {retpp : Bool} {out : Option (BitVec 32)} :
      Step tgt t c m ⟨.exit, retpp, out⟩ { m with flags := m.flags ||| PT_FLG_EXITING }
        ⟨.sample, retpp, out⟩
  | mark {d : Bool} {retpp : Bool} {out : Option (BitVec 32)} :
      Step tgt t c m ⟨.mark d, retpp, out⟩ { m with flags := m.flags ||| PT_FLG_EXITING }
        ⟨.cleanup d, retpp, out⟩
  | kernelFree {d : Bool} {stack size : BitVec 32} {retpp : Bool} {out : Option (BitVec 32)} :
      Step tgt t c m ⟨.kernelFree d stack size, retpp, out⟩
        { m with
          releases := if stack ≠ 0 ∨ size ≠ 0 then (stack, size) :: m.releases else m.releases }
        ⟨if d then .dead d else .kernelEvent, retpp, out⟩
  | kernelEvent {q : Finset T} {retpp : Bool} {out : Option (BitVec 32)}
      (hq : wakeOne m.sleepers c.pick = some q) :
      Step tgt t c m ⟨.kernelEvent, retpp, out⟩ { m with id := 0, sleepers := q }
        ⟨.dead false, retpp, out⟩
  -- A join, up to its return or its cancellation.
  | joinClaim {k : JoinCall} {retpp : Bool} {out : Option (BitVec 32)} (hk : k ≠ .tryjoin)
      (hm : m.joinpt = none) :
      Step tgt t c m ⟨.joinCas k, retpp, out⟩ { m with joinpt := some t } ⟨.joinBegin k, retpp, out⟩
  | tryClaimRetval {retpp : Bool} {out : Option (BitVec 32)} (hm : m.joinpt = none) :
      Step tgt t c m ⟨.joinCas .tryjoin, retpp, out⟩ { m with joinpt := some t }
        ⟨.joinRetval, retpp, out⟩
  | tryClaim {retpp : Bool} {out : Option (BitVec 32)} (hm : m.joinpt = none) :
      Step tgt t c m ⟨.joinCas .tryjoin, retpp, out⟩ { m with joinpt := some t }
        ⟨.deallocate .joiner, retpp, out⟩
  | joinSleep {k : JoinCall} {retpp : Bool} {out : Option (BitVec 32)} :
      Step tgt t c m ⟨.joinWait k m.id, retpp, out⟩ { m with sleepers := insert t m.sleepers }
        ⟨.joinAsleep k, retpp, out⟩
  | cancelAsleep {k : JoinCall} {retpp : Bool} {out : Option (BitVec 32)} :
      Step tgt t c m ⟨.joinAsleep k, retpp, out⟩ { m with sleepers := m.sleepers.erase t }
        ⟨.joinCancel, retpp, out⟩
  | asleepTimedout {k : JoinCall} {retpp : Bool} {out : Option (BitVec 32)} :
      Step tgt t c m ⟨.joinAsleep k, retpp, out⟩ { m with sleepers := m.sleepers.erase t }
        ⟨.joinEnd true, retpp, out⟩
  | asleepAgain {k : JoinCall} {retpp : Bool} {out : Option (BitVec 32)} :
      Step tgt t c m ⟨.joinAsleep k, retpp, out⟩ { m with sleepers := m.sleepers.erase t }
        ⟨.joinLoad k, retpp, out⟩
  | timedWoken {tsp : Timespec} {retpp : Bool} {out : Option (BitVec 32)} (hs : t ∉ m.sleepers) :
      Step tgt t c m ⟨.joinAsleep (.timedjoin tsp), retpp, out⟩
        { m with sleepers := m.sleepers.erase t } ⟨.joinEnd false, retpp, out⟩
  | joinCancel {retpp : Bool} {out : Option (BitVec 32)} :
      Step tgt t c m ⟨.joinCancel, retpp, out⟩
        { m with joinpt := if m.joinpt = some t then none else m.joinpt } ⟨.gone, retpp, out⟩
  | joinUndo {retpp : Bool} {out : Option (BitVec 32)} :
      Step tgt t c m ⟨.joinUndo, retpp, out⟩
        { m with joinpt := if m.joinpt = some t then none else m.joinpt }
        ⟨.ret .joiner .etimedout, retpp, out⟩
  | joinRetval {retpp : Bool} {out : Option (BitVec 32)} :
      Step tgt t c m ⟨.joinRetval, retpp, out⟩ m ⟨.deallocate .joiner, retpp, some m.retval⟩
  -- `pthread_detach`
  | detachClaim {retpp : Bool} {out : Option (BitVec 32)} (hm : m.joinpt = none) :
      Step tgt t c m ⟨.detachCas, retpp, out⟩ { m with joinpt := some tgt.th }
        ⟨.detachFlags, retpp, out⟩
  | detachLost {retpp : Bool} {out : Option (BitVec 32)} (hm : m.joinpt ≠ none) :
      Step tgt t c m ⟨.detachCas, retpp, out⟩ { m with lost := m.lost || !m.detachedP tgt }
        ⟨.ret .detacher .ok, retpp, out⟩
  | detachSleep {retpp : Bool} {out : Option (BitVec 32)} :
      Step tgt t c m ⟨.detachWait m.id, retpp, out⟩ { m with sleepers := insert t m.sleepers }
        ⟨.detachAsleep, retpp, out⟩
  | detachAwake {retpp : Bool} {out : Option (BitVec 32)} :
      Step tgt t c m ⟨.detachAsleep, retpp, out⟩ { m with sleepers := m.sleepers.erase t }
        ⟨.detachLoad, retpp, out⟩
  -- `__pthread_deallocate`
  | deallocate {w : Who} {retpp : Bool} {out : Option (BitVec 32)} :
      Step tgt t c m ⟨.deallocate w, retpp, out⟩
        { m with flags := m.flags ||| PT_FLG_TERMINATED }
        ⟨if m.flags &&& PT_FLG_TERMINATED = 0 then .freeStack w else .ret w .ok, retpp, out⟩
  | vmDeallocate {w : Who} {addr size : BitVec 32} {retpp : Bool} {out : Option (BitVec 32)} :
      Step tgt t c m ⟨.vmDeallocate w addr size, retpp, out⟩
        { m with releases := (addr, size) :: m.releases } ⟨.ret w .ok, retpp, out⟩
  | ret {w : Who} {r : Code} {retpp : Bool} {out : Option (BitVec 32)} :
      Step tgt t c m ⟨.ret w r, retpp, out⟩
        { m with
          joined := m.joined || (w = .joiner ∧ r = .ok)
          detached := m.detached || (w = .detacher ∧ r = .ok) }
        ⟨.idle, retpp, out⟩

variable {tgt : Target T} {t : T} {c : Choice T} {m m' : Mem T} {l l' : Local}

/-- A join whose compare-and-swap succeeds. -/
theorem JoinCall.step_claim {k : JoinCall} {retpp : Bool} {out : Option (BitVec 32)}
    (hm : m.joinpt = none) :
    Step tgt t c m ⟨.joinCas k, retpp, out⟩ { m with joinpt := some t }
      ⟨k.afterCas retpp, retpp, out⟩ := by
  cases k with
  | join => exact .joinClaim nofun hm
  | timedjoin tsp => exact .joinClaim nofun hm
  | tryjoin =>
    cases retpp with
    | true => exact .tryClaimRetval hm
    | false => exact .tryClaim hm

/-- A join whose sleep has ended. -/
theorem JoinCall.step_asleep {k : JoinCall} {timedout retpp : Bool} {out : Option (BitVec 32)} :
    Step tgt t c m ⟨.joinAsleep k, retpp, out⟩ { m with sleepers := m.sleepers.erase t }
      ⟨if timedout then .joinEnd true else if t ∈ m.sleepers then .joinLoad k else k.afterWait,
        retpp, out⟩ := by
  cases timedout with
  | true => exact .asleepTimedout
  | false =>
    by_cases hs : t ∈ m.sleepers
    · simp only [Bool.false_eq_true, if_false, if_pos hs]
      exact .asleepAgain
    · simp only [Bool.false_eq_true, if_false, if_neg hs]
      cases k with
      | timedjoin tsp => exact .timedWoken hs
      | join | tryjoin => exact .asleepAgain

/-- Every step is one of them. -/
theorem step_of_exec (h : exec tgt t c m l = some (m', l')) : Step tgt t c m l m' l' := by
  rcases l with ⟨pc, retpp, out⟩
  cases pc with
  | entry =>
    cases h
    exact .entry
  | run =>
    cases h
    cases c.exits with
    | true => exact .runExits
    | false => exact .runReturns
  | exit =>
    cases h
    exact .exit
  | sample =>
    cases h
    exact .move .sample
  | mark d =>
    cases h
    exact .mark
  | cleanup d =>
    cases h
    refine .move ?_
    split
    · next hm =>
      obtain ⟨rfl, hm⟩ := hm
      exact .cleanup hm
    · next hm => exact .cleanupEvent hm
  | kernelFree d stack size =>
    cases h
    exact .kernelFree
  | kernelEvent =>
    obtain ⟨q, hq, heq⟩ := Option.map_eq_some_iff.mp h
    cases heq
    exact .kernelEvent hq
  | dead d => cases h
  | gone => cases h
  | idle =>
    cases hc : c.call with
    | join k retpp' =>
      simp only [exec, hc] at h
      cases h
      exact .join
    | detach =>
      simp only [exec, hc] at h
      cases h
      exact .move .detach
  | joinDetached k =>
    cases h
    refine .move ?_
    split
    · exact .joinDetached
    · exact .joinJoinable
  | joinSelf k =>
    cases h
    refine .move ?_
    split
    · exact .joinDeadlk
    · cases k with
      | tryjoin => exact .trySelf
      | join | timedjoin tsp => exact .joinSelf nofun
  | joinBusy =>
    cases h
    refine .move ?_
    split
    · exact .joinBusy
    · next hm => exact .joinNotBusy (not_not.mp hm)
  | joinLook k =>
    cases h
    refine .move ?_
    split
    · exact .joinTaken
    · exact .joinLook
  | joinCas k =>
    simp only [exec] at h
    split at h
    · next hm =>
      cases h
      exact JoinCall.step_claim hm
    · cases h
      exact .move .joinLost
  | joinBegin k =>
    cases h
    refine .move ?_
    split
    · exact .cancelBegin
    · exact .joinBegin
  | joinLoad k =>
    cases h
    refine .move ?_
    split
    · exact .cancelLoad
    · split
      · exact .joinLoad
      · next hm => exact .joinDead (not_not.mp hm)
  | joinWait k id =>
    simp only [exec] at h
    split at h
    · cases h
      exact .move .cancelWait
    · next hc =>
      split at h
      · cases h
        exact .move .joinExpired
      · next he =>
        split at h
        · next hm =>
          subst hm
          cases h
          exact .joinSleep
        · next hm =>
          cases h
          refine .move ?_
          cases k with
          | timedjoin tsp =>
            exact .timedChanged (Bool.eq_false_of_not_eq_true hc) (Bool.eq_false_of_not_eq_true he)
              hm
          | join | tryjoin => exact .joinChanged
  | joinAsleep k =>
    simp only [exec] at h
    split at h
    · cases h
      exact .cancelAsleep
    · obtain ⟨timedout, -, heq⟩ := Option.map_eq_some_iff.mp h
      cases heq
      exact JoinCall.step_asleep
  | joinEnd timedout =>
    cases h
    refine .move ?_
    split
    · exact .cancelEnd
    · cases timedout with
      | true => exact .joinTimedout
      | false =>
        cases retpp with
        | true => exact .joinEndRetval
        | false => exact .joinEnd
  | joinCancel =>
    cases h
    exact .joinCancel
  | joinUndo =>
    cases h
    exact .joinUndo
  | joinRetval =>
    cases h
    exact .joinRetval
  | detachInvalid =>
    cases h
    refine .move ?_
    split
    · exact .detachEsrch
    · exact .detachInvalid
  | detachDetached =>
    cases h
    refine .move ?_
    split
    · exact .detachDetached
    · exact .detachJoinable
  | detachCas =>
    simp only [exec] at h
    split at h
    · next hm =>
      cases h
      exact .detachClaim hm
    · next hm =>
      cases h
      exact .detachLost hm
  | detachFlags =>
    cases h
    refine .move ?_
    split
    · next hm => exact .detachExiting hm
    · next hm => exact .detachRunning (not_not.mp hm)
  | detachLoad =>
    cases h
    refine .move ?_
    split
    · exact .detachLoad
    · next hm => exact .detachDead (not_not.mp hm)
  | detachWait id =>
    simp only [exec] at h
    split at h
    · next hm =>
      subst hm
      cases h
      exact .detachSleep
    · cases h
      exact .move .detachChanged
  | detachAsleep =>
    obtain ⟨out', -, heq⟩ := Option.map_eq_some_iff.mp h
    cases heq
    exact .detachAwake
  | deallocate w =>
    cases h
    exact .deallocate
  | freeStack w =>
    cases h
    refine .move ?_
    split
    · next hm => exact .userStack hm
    · next hm => exact .freeStack (not_not.mp hm)
  | vmDeallocate w addr size =>
    cases h
    exact .vmDeallocate
  | ret w r =>
    cases h
    exact .ret

end Hlpt.Termination
