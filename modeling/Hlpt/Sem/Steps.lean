import Hlpt.Sem.Model

/-!
# `Hlpt.Sem.Steps`: what one step of a semaphore can do

Most steps only read the word and go on (`Moves`). The others change one half of the word, or
the queue (`Step`). The invariants of the semaphore look at a step through these two
relations.

* `step_of_exec`: every step is one of them.
-/

set_option autoImplicit false

namespace Hlpt.Sem

open Hlpt.Lib

universe u

variable {T : Type u}

/-- A step that changes neither the word nor the queue, with what it has read. -/
inductive Moves (c : Choice T) (m : Mem T) : Pc → Pc → Prop
  | call : Moves c m .idle (enter c.call)
  -- `sem_post`
  | overflow : Moves c m .postLoad (.ret .eoverflow)
  | postLoad (hm : m.lo ≠ SEM_VALUE_MAX) : Moves c m .postLoad (.postCas m.lo m.hi)
  | postAgain {lo hi : BitVec 32} : Moves c m (.postCas lo hi) .postLoad
  -- `__sem_trywait`
  | tryFails (hm : m.lo = 0) : Moves c m (.tryLoad .trywait) (.ret .eagain)
  | firstFails {k : WaitCall} (hm : m.lo = 0) : Moves c m (.tryLoad (.first k)) (.addLoad k)
  | tryLoad {k : TryCall} (hm : m.lo ≠ 0) : Moves c m (.tryLoad k) (.tryCas k m.lo)
  | tryAgain {k : TryCall} {val : BitVec 32} : Moves c m (.tryCas k val) (.tryLoad k)
  -- The slow path, up to the cancellation point.
  | addLoad {k : WaitCall} : Moves c m (.addLoad k) (.addCas k m.lo m.hi)
  | addAgain {k : WaitCall} {lo hi : BitVec 32} : Moves c m (.addCas k lo hi) (.addLoad k)
  | look {k : WaitCall} (hm : m.lo ≠ 0) : Moves c m (.look k) (.take k m.lo m.hi)
  | badNsec {k : WaitCall} (hm : m.lo = 0) : Moves c m (.look k) (.cleanLoad (some .etimedout))
  | blocked {k : WaitCall} (hm : m.lo = 0) : Moves c m (.look k) (.cancelpointBegin k)
  | takeAgain {k : WaitCall} {lo hi : BitVec 32} : Moves c m (.take k lo hi) (.look k)
  -- The cancellation point around the sleep.
  | block : Moves c m (.cancelpointBegin .wait) (.wait .wait)
  | blockTimed {tsp : Timespec} : Moves c m (.cancelpointBegin (.timedwait tsp)) (.clock tsp)
  | late {tsp : Timespec} : Moves c m (.clock tsp) (.cancelpointEnd (.timedwait tsp) .timedout)
  | early {tsp : Timespec} : Moves c m (.clock tsp) (.wait (.timedwait tsp))
  | changed {k : WaitCall} (hm : m.lo ≠ 0) :
      Moves c m (.wait k) (.cancelpointEnd k .invalidArgument)
  | interrupted {k : WaitCall} :
      Moves c m (.cancelpointEnd k .interrupted) (.cleanLoad (some .eintr))
  | timedout {k : WaitCall} :
      Moves c m (.cancelpointEnd k .timedout) (.cleanLoad (some .etimedout))
  | resume {k : WaitCall} (res : KernReturn) : Moves c m (.cancelpointEnd k res) (.look k)
  -- `cleanup`
  | cleanLoad {r : Option Code} : Moves c m (.cleanLoad r) (.cleanCas r m.lo m.hi)
  | cleanAgain {r : Option Code} {lo hi : BitVec 32} :
      Moves c m (.cleanCas r lo hi) (.cleanLoad r)
  | ret {r : Code} : Moves c m (.ret r) .idle

variable [DecidableEq T]

/-- A step, with what it changes. -/
inductive Step (t : T) (c : Choice T) (m : Mem T) : Pc → Mem T → Pc → Prop
  | move {pc pc' : Pc} (hm : Moves c m pc pc') : Step t c m pc m pc'
  | cancel {pc : Pc} (hc : c.cancel = true) (hin : InCancelpoint pc = true) :
      Step t c m pc { m with sleepers := m.sleepers.erase t } (.cleanLoad none)
  -- The count goes up, and one waiter is woken.
  | post (hm : m.hi ≠ 0) :
      Step t c m (.postCas m.lo m.hi) { m with lo := m.lo + 1 } .postWake
  | postAlone (hm : m.hi = 0) :
      Step t c m (.postCas m.lo m.hi) { m with lo := m.lo + 1 } (.ret .ok)
  | postWake {q : Finset T} (hq : wakeOne m.sleepers c.pick = some q) :
      Step t c m .postWake { m with sleepers := q } (.ret .ok)
  -- The count goes down.
  | tryTake {k : TryCall} :
      Step t c m (.tryCas k m.lo) { m with lo := m.lo - 1 } (.ret .ok)
  | add {k : WaitCall} : Step t c m (.addCas k m.lo m.hi) { m with hi := m.hi + 1 } (.look k)
  | take {k : WaitCall} :
      Step t c m (.take k m.lo m.hi) { m with lo := m.lo - 1, hi := m.hi - 1 } (.ret .ok)
  -- A waiter sleeps, and leaves the count of the waiters.
  | sleep {k : WaitCall} (hm : m.lo = 0) :
      Step t c m (.wait k) { m with sleepers := insert t m.sleepers } (.asleep k)
  | awake {k : WaitCall} {res : KernReturn}
      (hres : sleepEnd (t ∈ m.sleepers) k.timed c.ends = some res) :
      Step t c m (.asleep k) { m with sleepers := m.sleepers.erase t } (.cancelpointEnd k res)
  | clean {r : Option Code} :
      Step t c m (.cleanCas r m.lo m.hi) { m with hi := m.hi - 1 } (cleaned r)

variable {t : T} {c : Choice T} {m m' : Mem T} {pc pc' : Pc}

/-- Every step is one of them. -/
theorem step_of_act (h : act t c m pc = some (m', pc')) : Step t c m pc m' pc' := by
  cases pc with
  | idle =>
    cases h
    exact .move .call
  | postLoad =>
    cases h
    split
    · exact .move .overflow
    · next hm => exact .move (.postLoad hm)
  | postCas lo hi =>
    simp only [act] at h
    split at h
    · next hm =>
      obtain ⟨rfl, rfl⟩ := hm
      cases h
      split
      · next hhi => exact .post hhi
      · next hhi => exact .postAlone (not_not.mp hhi)
    · cases h
      exact .move .postAgain
  | postWake =>
    obtain ⟨q, hq, heq⟩ := Option.map_eq_some_iff.mp h
    cases heq
    exact .postWake hq
  | tryLoad k =>
    cases h
    split
    · next hm =>
      cases k with
      | trywait => exact .move (.tryFails hm)
      | first k => exact .move (.firstFails hm)
    · next hm => exact .move (.tryLoad hm)
  | tryCas k val =>
    simp only [act] at h
    split at h
    · next hm =>
      subst hm
      cases h
      exact .tryTake
    · cases h
      exact .move .tryAgain
  | addLoad k =>
    cases h
    exact .move .addLoad
  | addCas k lo hi =>
    simp only [act] at h
    split at h
    · next hm =>
      obtain ⟨rfl, rfl⟩ := hm
      cases h
      exact .add
    · cases h
      exact .move .addAgain
  | look k =>
    cases h
    split
    · next hm => exact .move (.look hm)
    · next hm =>
      have h0 : m.lo = 0 := not_not.mp hm
      cases k with
      | wait => exact .move (.blocked h0)
      | timedwait tsp =>
        simp only [WaitCall.blocked]
        split
        · exact .move (.badNsec h0)
        · exact .move (.blocked h0)
  | take k lo hi =>
    simp only [act] at h
    split at h
    · next hm =>
      obtain ⟨rfl, rfl⟩ := hm
      cases h
      exact .take
    · cases h
      exact .move .takeAgain
  | cancelpointBegin k =>
    cases h
    cases k with
    | wait => exact .move .block
    | timedwait tsp => exact .move .blockTimed
  | clock tsp =>
    cases h
    split
    · exact .move .late
    · exact .move .early
  | wait k =>
    simp only [act] at h
    split at h
    · next hm =>
      cases h
      exact .sleep hm
    · next hm =>
      cases h
      exact .move (.changed hm)
  | asleep k =>
    obtain ⟨res, hres, heq⟩ := Option.map_eq_some_iff.mp h
    cases heq
    exact .awake hres
  | cancelpointEnd k res =>
    cases h
    cases res with
    | interrupted => exact .move .interrupted
    | timedout =>
      simp only [WaitCall.resume]
      split
      · exact .move .timedout
      · exact .move (.resume _)
    | success => exact .move (.resume _)
    | invalidArgument => exact .move (.resume _)
  | cleanLoad r =>
    cases h
    exact .move .cleanLoad
  | cleanCas r lo hi =>
    simp only [act] at h
    split at h
    · next hm =>
      obtain ⟨rfl, rfl⟩ := hm
      cases h
      exact .clean
    · cases h
      exact .move .cleanAgain
  | ret r =>
    cases h
    exact .move .ret
  | gone => cases h

/-- Every step, a cancellation as well. -/
theorem step_of_exec (h : exec t c m pc = some (m', pc')) : Step t c m pc m' pc' := by
  unfold exec at h
  split at h
  · next hc =>
    split at h
    · next hin =>
      cases h
      exact .cancel hc hin
    · cases h
  · exact step_of_act h

end Hlpt.Sem
