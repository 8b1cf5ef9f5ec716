import Hlpt.RobustLock.Model

/-!
# `Hlpt.RobustLock.Steps`: the accesses to the word, one by one

An access reads the word, or asks for the process in it, and goes on (`Moves`). Or it takes,
marks or releases the word, or changes the set of the sleepers (`Step`).

* `step_of_exec`: every step is one of them, or the death of a process.
-/

set_option autoImplicit false

namespace Hlpt.RobustLock

open Hlpt.Lib
open Hlpt.Robust (LLL_OWNER_MASK LLL_WAITERS)

universe u

variable {T : Type u}

/-- An access that changes nothing, with what it has read. -/
inductive Moves (m : Mem T) : Pc → Pc → Prop
  | lock {d : Deadline} : Moves m .idle (.spinLoad d)
  | trylock : Moves m .idle .tryLoad
  -- The first loop.
  | spinFree {d : Deadline} (hm : m.word = 0) : Moves m (.spinLoad d) (.spinCas d)
  | spinHeld {d : Deadline} (hm : m.word ≠ 0) : Moves m (.spinLoad d) (.spinMark d m.word)
  | spinLost {d : Deadline} (hm : m.word ≠ 0) : Moves m (.spinCas d) (.spinLoad d)
  | spinAgain {d : Deadline} {val : BitVec 32} : Moves m (.spinMark d val) (.spinLoad d)
  -- The second loop.
  | waitFree {d : Deadline} (hm : m.word = 0) : Moves m (.waitLoad d) (.waitCas d)
  | waitHeld {d : Deadline} (hm : m.word ≠ 0) : Moves m (.waitLoad d) (.waitValid d m.word)
  | waitLost {d : Deadline} : Moves m (.waitCas d) (beforeSleep 0 d)
  | waitDead {d : Deadline} {val : BitVec 32} (hm : m.dead (val &&& LLL_OWNER_MASK) = true) :
      Moves m (.waitValid d val) (.waitSteal d val)
  | waitLive {d : Deadline} {val : BitVec 32} : Moves m (.waitValid d val) (beforeSleep val d)
  | stealLost {d : Deadline} {val : BitVec 32} : Moves m (.waitSteal d val) (.waitLoad d)
  | expired {tsp : Timespec} {val : BitVec 32} : Moves m (.waitClock tsp val) (.ret .etimedout)
  | clock {tsp : Timespec} {val : BitVec 32} :
      Moves m (.waitClock tsp val) (.waitSleep (some tsp) val)
  | waitChanged {d : Deadline} {val : BitVec 32} (hm : m.word ≠ val) :
      Moves m (.waitSleep d val) (.waitLoad d)
  -- `lll_robust_trylock`
  | tryFree (hm : m.word = 0) : Moves m .tryLoad .tryCas
  | tryHeld (hm : m.word ≠ 0) : Moves m .tryLoad (.tryValid m.word)
  | tryLost (hm : m.word ≠ 0) : Moves m .tryCas (.ret .ebusy)
  | tryDead {val : BitVec 32} (hm : m.dead (val &&& LLL_OWNER_MASK) = true) :
      Moves m (.tryValid val) (.trySteal val)
  | tryLive {val : BitVec 32} : Moves m (.tryValid val) (.ret .ebusy)
  | tryStealLost {val : BitVec 32} (hm : m.word ≠ val) : Moves m (.trySteal val) (.ret .ebusy)
  -- `lll_robust_unlock`
  | unWaited : Moves m .unLoad .unSetWake
  | unWord : Moves m .unLoad (.unCas m.word)
  | unAgain {val : BitVec 32} : Moves m (.unCas val) .unLoad
  | ret {r : Code} : Moves m (.ret r) .idle

variable [DecidableEq T]

/-- An access, with what it changes. -/
inductive Step (E : Env T) (t : T) (m : Mem T) : Local → Mem T → Local → Prop
  | move {pc pc' : Pc} {holds : Bool} (hm : Moves m pc pc') :
      Step E t m ⟨pc, holds⟩ m ⟨pc', holds⟩
  | unlock : Step E t m ⟨.idle, true⟩ m ⟨.unLoad, true⟩
  -- The word is taken, when it is free or when its process died.
  | spinTake {d : Deadline} {holds : Bool} (hm : m.word = 0) :
      Step E t m ⟨.spinCas d, holds⟩ (m.take t (E.pid t)) ⟨.ret .ok, true⟩
  | waitTake {d : Deadline} {holds : Bool} (hm : m.word = 0) :
      Step E t m ⟨.waitCas d, holds⟩ (m.take t (E.pid t ||| LLL_WAITERS)) ⟨.ret .ok, true⟩
  | tryTake {holds : Bool} (hm : m.word = 0) :
      Step E t m ⟨.tryCas, holds⟩ (m.take t (E.pid t)) ⟨.ret .ok, true⟩
  | waitSteal {d : Deadline} {holds : Bool} :
      Step E t m ⟨.waitSteal d m.word, holds⟩ (m.take t (E.pid t ||| LLL_WAITERS))
        ⟨.ret .eownerdead, true⟩
  | trySteal {holds : Bool} :
      Step E t m ⟨.trySteal m.word, holds⟩ (m.take t (E.pid t)) ⟨.ret .eownerdead, true⟩
  -- It is marked, and the thread sleeps.
  | spinMark {d : Deadline} {holds : Bool} :
      Step E t m ⟨.spinMark d m.word, holds⟩ { m with word := m.word ||| LLL_WAITERS }
        ⟨.waitLoad d, holds⟩
  | sleep {d : Deadline} {holds : Bool} :
      Step E t m ⟨.waitSleep d m.word, holds⟩ { m with sleepers := insert t m.sleepers }
        ⟨.asleep d, holds⟩
  | awake {d : Deadline} {holds timedout : Bool} :
      Step E t m ⟨.asleep d, holds⟩ { m with sleepers := m.sleepers.erase t }
        ⟨afterSleep timedout d, holds⟩
  -- It is released.
  | unSetWake {holds : Bool} {q : Finset T} (hq : q ⊆ m.sleepers) :
      Step E t m ⟨.unSetWake, holds⟩ (m.release q) ⟨.ret .ok, false⟩
  | unCas {holds : Bool} :
      Step E t m ⟨.unCas m.word, holds⟩ (m.release m.sleepers) ⟨.ret .ok, false⟩

variable {E : Env T} {t : T} {c : Choice T} {m m' : Mem T} {l l' : Local}

/-- The entry of a function. -/
theorem step_of_enter {holds : Bool} (h : enter ⟨.idle, holds⟩ c.call = some l') :
    Step E t m ⟨.idle, holds⟩ m l' := by
  cases hc : c.call with
  | lllRobustLock | lllRobustAbstimedLock tsp =>
      rw [hc] at h
      cases h
      exact .move .lock
  | lllRobustTrylock =>
      rw [hc] at h
      cases h
      exact .move .trylock
  | lllRobustUnlock =>
      cases holds with
      | false =>
          rw [hc] at h
          cases h
      | true =>
          rw [hc] at h
          cases h
          exact .unlock

/-- Every access is one of the steps. -/
theorem step_of_act (h : act E t c m l = some (m', l')) : Step E t m l m' l' := by
  obtain ⟨pc, holds⟩ := l
  cases pc with
  | idle =>
      obtain ⟨l₁, henter, heq⟩ := Option.map_eq_some_iff.mp h
      cases heq
      exact step_of_enter henter
  | spinLoad d =>
      cases h
      refine .move ?_
      split
      · next hm => exact .spinFree hm
      · next hm => exact .spinHeld hm
  | waitLoad d =>
      cases h
      refine .move ?_
      split
      · next hm => exact .waitFree hm
      · next hm => exact .waitHeld hm
  | waitValid d val =>
      cases h
      refine .move ?_
      split
      · next hm => exact .waitDead hm
      · exact .waitLive
  | waitClock tsp val =>
      cases h
      refine .move ?_
      split
      · exact .expired
      · exact .clock
  | tryLoad =>
      cases h
      refine .move ?_
      split
      · next hm => exact .tryFree hm
      · next hm => exact .tryHeld hm
  | tryValid val =>
      cases h
      refine .move ?_
      split
      · next hm => exact .tryDead hm
      · exact .tryLive
  | unLoad =>
      cases h
      refine .move ?_
      split
      · exact .unWaited
      · exact .unWord
  | ret r =>
      cases h
      exact .move .ret
  | asleep d =>
      obtain ⟨timedout, hwake, heq⟩ := Option.map_eq_some_iff.mp h
      cases heq
      exact .awake
  | unSetWake =>
      obtain ⟨q, hwake, heq⟩ := Option.map_eq_some_iff.mp h
      cases heq
      exact .unSetWake (wakeOne_subset hwake)
  -- What is left compares the word, and writes when it is as expected.
  | spinCas d =>
      simp only [act] at h
      split at h <;> cases h
      · next hm => exact .spinTake hm
      · next hm => exact .move (.spinLost hm)
  | spinMark d val =>
      simp only [act] at h
      split at h <;> cases h
      · next hm =>
          subst hm
          exact .spinMark
      · exact .move .spinAgain
  | waitCas d =>
      simp only [act] at h
      split at h <;> cases h
      · next hm => exact .waitTake hm
      · exact .move .waitLost
  | waitSteal d val =>
      simp only [act] at h
      split at h <;> cases h
      · next hm =>
          subst hm
          exact .waitSteal
      · exact .move .stealLost
  | waitSleep d val =>
      simp only [act] at h
      split at h <;> cases h
      · next hm =>
          subst hm
          exact .sleep
      · next hm => exact .move (.waitChanged hm)
  | tryCas =>
      simp only [act] at h
      split at h <;> cases h
      · next hm => exact .tryTake hm
      · next hm => exact .move (.tryLost hm)
  | trySteal val =>
      simp only [act] at h
      split at h <;> cases h
      · next hm =>
          subst hm
          exact .trySteal
      · next hm => exact .move (.tryStealLost hm)
  | unCas val =>
      simp only [act] at h
      split at h <;> cases h
      · next hm =>
          subst hm
          exact .unCas
      · exact .move .unAgain

/-- Every step is an access of a thread whose process lives, or the death of its process. -/
theorem step_of_exec (h : exec E t c m l = some (m', l')) :
    Alive E m t ∧ (c.dies = true ∧ m' = m.die E t ∧ l' = l ∨
      c.dies = false ∧ Step E t m l m' l') := by
  unfold exec at h
  split at h
  · cases h
  · next hdead =>
      refine ⟨Bool.eq_false_iff.mpr hdead, ?_⟩
      split at h
      · next hdies =>
          cases h
          exact .inl ⟨hdies, rfl, rfl⟩
      · next hdies => exact .inr ⟨Bool.eq_false_iff.mpr hdies, step_of_act h⟩

end Hlpt.RobustLock
