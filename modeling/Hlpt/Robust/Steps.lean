import Hlpt.Robust.Model

/-!
# `Hlpt.Robust.Steps`: the accesses to a robust mutex, one by one

Most accesses only read the fields and go on (`Moves`). The others change one field, or the
holds of the thread (`Step`).

* `step_of_act`: every access is one of them.
-/

set_option autoImplicit false

namespace Hlpt.Robust

universe u

variable {T : Type u}

/-- An access that changes nothing, with what it has read. -/
inductive Moves (E : Env T) (t : T) (m : Mem T) : Pc → Pc → Prop
  -- `ROBUST_LOCK`, up to the acquisition of the lock word.
  | call {k : LockCall} : Moves E t m .idle (.checkUnrecoverable k)
  | unrecoverable {k : LockCall} (hm : m.ownerId = NOTRECOVERABLE_ID) :
      Moves E t m (.checkUnrecoverable k) (.lockRet .enotrecoverable)
  | checkUnrecoverable {k : LockCall} (hm : m.ownerId ≠ NOTRECOVERABLE_ID) :
      Moves E t m (.checkUnrecoverable k) (.checkOwner k)
  | checkOwner {k : LockCall} (hm : m.ownerId = E.id t) :
      Moves E t m (.checkOwner k) (.checkPid k)
  | spinOwner {k : LockCall} : Moves E t m (.checkOwner k) (.spinLoad k)
  | tryOwner : Moves E t m (.checkOwner .trylock) .tryLoad
  | spinPid {k : LockCall} : Moves E t m (.checkPid k) (.spinLoad k)
  | tryPid : Moves E t m (.checkPid .trylock) .tryLoad
  | deadlk {k : LockCall} (hk : E.kind = .errorcheck) (hm : m.lock &&& LLL_OWNER_MASK = E.pid t) :
      Moves E t m (.checkPid k) (.lockRet .edeadlk)
  | relock {k : LockCall} (hk : E.kind = .recursive) (hm : m.lock &&& LLL_OWNER_MASK = E.pid t) :
      Moves E t m (.checkPid k) .relockTest
  | relockFull : Moves E t m .relockTest (.lockRet .eagain)
  | relockTest (hm : m.cnt + 1 ≠ 0) : Moves E t m .relockTest .relockLoad
  | relockLoad : Moves E t m .relockLoad (.relockStore m.cnt)
  -- The first loop of `lll_robust_lock` and `__lll_robust_abstimed_lock`.
  | spinFree {k : LockCall} : Moves E t m (.spinLoad k) (.spinCas k)
  | spinHeld {k : LockCall} (hm : m.lock ≠ 0) : Moves E t m (.spinLoad k) (.spinMark k m.lock)
  | spinLost {k : LockCall} : Moves E t m (.spinCas k) (.spinLoad k)
  | spinAgain {k : LockCall} {val : BitVec 32} : Moves E t m (.spinMark k val) (.spinLoad k)
  -- Their second loop.
  | waitFree {k : LockCall} : Moves E t m (.waitLoad k) (.waitCas k)
  | waitHeld {k : LockCall} (hm : m.lock ≠ 0) : Moves E t m (.waitLoad k) (.waitValid k m.lock)
  | waitLost {k : LockCall} : Moves E t m (.waitCas k) (.waitSleep k 0)
  | waitDead {k : LockCall} {val : BitVec 32} (hm : m.dead (val &&& LLL_OWNER_MASK) = true) :
      Moves E t m (.waitValid k val) (.waitSteal k val)
  | waitLive {k : LockCall} {val : BitVec 32} : Moves E t m (.waitValid k val) (.waitSleep k val)
  | stealLost {k : LockCall} {val : BitVec 32} : Moves E t m (.waitSteal k val) (.waitLoad k)
  | expired {tsp : Timespec} {val : BitVec 32} :
      Moves E t m (.waitSleep (.timedlock tsp) val) (.lockRet .etimedout)
  | waitSleep {k : LockCall} {val : BitVec 32} : Moves E t m (.waitSleep k val) (.asleep k)
  | waitChanged {k : LockCall} {val : BitVec 32} : Moves E t m (.waitSleep k val) (.waitLoad k)
  | timedout {tsp : Timespec} : Moves E t m (.asleep (.timedlock tsp)) (.lockRet .etimedout)
  | awake {k : LockCall} : Moves E t m (.asleep k) (.waitLoad k)
  -- `lll_robust_trylock`
  | tryFree : Moves E t m .tryLoad .tryCas
  | tryHeld (hm : m.lock ≠ 0) : Moves E t m .tryLoad (.tryValid m.lock)
  | tryLost : Moves E t m .tryCas (.lockRet .ebusy)
  | tryDead {val : BitVec 32} (hm : m.dead (val &&& LLL_OWNER_MASK) = true) :
      Moves E t m (.tryValid val) (.trySteal val)
  | tryLive {val : BitVec 32} : Moves E t m (.tryValid val) (.lockRet .ebusy)
  | tryStealLost {val : BitVec 32} : Moves E t m (.trySteal val) (.lockRet .ebusy)
  -- `ROBUST_LOCK`, after the acquisition.
  | refused {d : Bool} (hm : m.ownerId = NOTRECOVERABLE_ID) :
      Moves E t m (.taken d) (.lockRet .enotrecoverable)
  | taken {d : Bool} (hm : m.ownerId ≠ NOTRECOVERABLE_ID) : Moves E t m (.taken d) (.setOwner d)
  | deadLoad : Moves E t m .deadLoad (.deadStore (m.lock ||| LLL_DEAD_OWNER))
  -- `pthread_mutex_unlock`
  | unRefused (hm : m.ownerId = NOTRECOVERABLE_ID) : Moves E t m .unUnrecoverable (.unRet .ok)
  | unUnrecoverable : Moves E t m .unUnrecoverable .unOwner
  | unNotOwner (hm : m.ownerId ≠ E.id t) : Moves E t m .unOwner (.unRet .eperm)
  | unOwner : Moves E t m .unOwner .unPid
  | unNotPid (hm : m.lock &&& LLL_OWNER_MASK ≠ E.pid t) : Moves E t m .unPid (.unRet .eperm)
  | unPid : Moves E t m .unPid .unLoad
  | unLoad : Moves E t m .unLoad (.unStore m.cnt)
  | unDead (hm : m.lock &&& LLL_DEAD_OWNER ≠ 0) :
      Moves E t m .unDead (.unSetOwner NOTRECOVERABLE_ID)
  | unClean (hm : m.lock &&& LLL_DEAD_OWNER = 0) : Moves E t m .unDead (.unSetOwner 0)
  -- `lll_robust_unlock`
  | unWaited : Moves E t m .unWord .unSetWake
  | unWord : Moves E t m .unWord (.unCas m.lock)
  | unAgain {val : BitVec 32} : Moves E t m (.unCas val) .unWord

/-- An access, with what it changes. -/
inductive Step (E : Env T) (t : T) (m : Mem T) : Local → Mem T → Local → Prop
  | move {pc pc' : Pc} {depth : ℕ} (hm : Moves E t m pc pc') :
      Step E t m ⟨pc, depth⟩ m ⟨pc', depth⟩
  | relockStore {v : BitVec 32} {depth : ℕ} :
      Step E t m ⟨.relockStore v, depth⟩ { m with cnt := v + 1 } ⟨.lockRet .ok, depth⟩
  -- The word is taken, or marked.
  | spinTake {k : LockCall} {depth : ℕ} (hm : m.lock = 0) :
      Step E t m ⟨.spinCas k, depth⟩ { m with lock := E.pid t, taker := some t }
        ⟨.taken false, depth⟩
  | spinMark {k : LockCall} {depth : ℕ} :
      Step E t m ⟨.spinMark k m.lock, depth⟩ { m with lock := m.lock ||| LLL_WAITERS }
        ⟨.waitLoad k, depth⟩
  | waitTake {k : LockCall} {depth : ℕ} (hm : m.lock = 0) :
      Step E t m ⟨.waitCas k, depth⟩ { m with lock := E.pid t ||| LLL_WAITERS, taker := some t }
        ⟨.taken false, depth⟩
  | waitSteal {k : LockCall} {depth : ℕ} :
      Step E t m ⟨.waitSteal k m.lock, depth⟩
        { m with lock := E.pid t ||| LLL_WAITERS, taker := some t } ⟨.taken true, depth⟩
  | tryTake {depth : ℕ} (hm : m.lock = 0) :
      Step E t m ⟨.tryCas, depth⟩ { m with lock := E.pid t, taker := some t } ⟨.taken false, depth⟩
  | trySteal {depth : ℕ} :
      Step E t m ⟨.trySteal m.lock, depth⟩ { m with lock := E.pid t, taker := some t }
        ⟨.taken true, depth⟩
  -- The other fields of a mutex that was taken.
  | setOwner {d : Bool} {depth : ℕ} :
      Step E t m ⟨.setOwner d, depth⟩ { m with ownerId := E.id t } ⟨.setCnt d, depth⟩
  | setCntDead {depth : ℕ} :
      Step E t m ⟨.setCnt true, depth⟩ { m with cnt := 1 } ⟨.deadLoad, depth⟩
  | setCnt {depth : ℕ} :
      Step E t m ⟨.setCnt false, depth⟩ { m with cnt := 1 } ⟨.lockRet .ok, depth⟩
  | deadStore {v : BitVec 32} {depth : ℕ} :
      Step E t m ⟨.deadStore v, depth⟩ { m with lock := v } ⟨.lockRet .eownerdead, depth⟩
  | lockTaken {r : Code} {depth : ℕ} (hr : r = .ok ∨ r = .eownerdead) :
      Step E t m ⟨.lockRet r, depth⟩ m ⟨.idle, depth + 1⟩
  | lockFails {r : Code} {depth : ℕ} (hr : ¬ (r = .ok ∨ r = .eownerdead)) :
      Step E t m ⟨.lockRet r, depth⟩ m ⟨.idle, depth⟩
  -- An unlock gives a hold back, and with the last one the fields and the word.
  | unlock {depth : ℕ} (hd : 0 < depth) :
      Step E t m ⟨.idle, depth⟩ m ⟨.unUnrecoverable, depth - 1⟩
  | unStoreLast {v : BitVec 32} {depth : ℕ} (hv : v - 1 = 0) :
      Step E t m ⟨.unStore v, depth⟩ { m with cnt := v - 1 } ⟨.unDead, depth⟩
  | unStore {v : BitVec 32} {depth : ℕ} (hv : v - 1 ≠ 0) :
      Step E t m ⟨.unStore v, depth⟩ { m with cnt := v - 1 } ⟨.unRet .ok, depth⟩
  | unSetOwner {v : BitVec 32} {depth : ℕ} :
      Step E t m ⟨.unSetOwner v, depth⟩ { m with ownerId := v } ⟨.unWord, depth⟩
  | unSetWake {depth : ℕ} :
      Step E t m ⟨.unSetWake, depth⟩ { m with lock := 0, taker := none } ⟨.unRet .ok, depth⟩
  | unCas {depth : ℕ} :
      Step E t m ⟨.unCas m.lock, depth⟩ { m with lock := 0, taker := none } ⟨.unRet .ok, depth⟩
  | unFails {depth : ℕ} : Step E t m ⟨.unRet .eperm, depth⟩ m ⟨.idle, depth + 1⟩
  | unRet {r : Code} {depth : ℕ} (hr : r ≠ .eperm) : Step E t m ⟨.unRet r, depth⟩ m ⟨.idle, depth⟩

variable {E : Env T} {t : T} {c : Choice} {m m' : Mem T} {l l' : Local}

/-- A lock call that is not decided yet goes to its own functions. -/
theorem LockCall.moves_acquire (k : LockCall) :
    Moves E t m (.checkOwner k) k.acquire ∧ Moves E t m (.checkPid k) k.acquire := by
  cases k with
  | trylock => exact ⟨.tryOwner, .tryPid⟩
  | lock => exact ⟨.spinOwner, .spinPid⟩
  | timedlock tsp => exact ⟨.spinOwner, .spinPid⟩

/-- Every access is one of them. -/
theorem step_of_act (h : act E t c m l = some (m', l')) : Step E t m l m' l' := by
  rcases l with ⟨pc, depth⟩
  cases pc with
  | idle =>
    cases hc : c.call with
    | lock k =>
      simp only [act, hc] at h
      cases h
      exact .move .call
    | unlock =>
      simp only [act, hc] at h
      split at h
      · next hd =>
        cases h
        exact .unlock hd
      · cases h
  | checkUnrecoverable k =>
    cases h
    refine .move ?_
    split
    · next hm => exact .unrecoverable hm
    · next hm => exact .checkUnrecoverable hm
  | checkOwner k =>
    cases h
    refine .move ?_
    split
    · next hm => exact .checkOwner hm
    · exact k.moves_acquire.1
  | checkPid k =>
    cases h
    refine .move ?_
    split
    · next hm =>
      cases hk : E.kind with
      | recursive => exact .relock hk hm
      | errorcheck => exact .deadlk hk hm
      | normal => exact k.moves_acquire.2
    · exact k.moves_acquire.2
  | relockTest =>
    cases h
    refine .move ?_
    split
    · exact .relockFull
    · next hm => exact .relockTest hm
  | relockLoad =>
    cases h
    exact .move .relockLoad
  | relockStore v =>
    cases h
    exact .relockStore
  | spinLoad k =>
    cases h
    refine .move ?_
    split
    · exact .spinFree
    · next hm => exact .spinHeld hm
  | spinCas k =>
    simp only [act] at h
    split at h
    · next hm =>
      cases h
      exact .spinTake hm
    · cases h
      exact .move .spinLost
  | spinMark k val =>
    simp only [act] at h
    split at h
    · next hm =>
      subst hm
      cases h
      exact .spinMark
    · cases h
      exact .move .spinAgain
  | waitLoad k =>
    cases h
    refine .move ?_
    split
    · exact .waitFree
    · next hm => exact .waitHeld hm
  | waitCas k =>
    simp only [act] at h
    split at h
    · next hm =>
      cases h
      exact .waitTake hm
    · cases h
      exact .move .waitLost
  | waitValid k val =>
    cases h
    refine .move ?_
    split
    · next hm => exact .waitDead hm
    · exact .waitLive
  | waitSteal k val =>
    simp only [act] at h
    split at h
    · next hm =>
      subst hm
      cases h
      exact .waitSteal
    · cases h
      exact .move .stealLost
  | waitSleep k val =>
    cases h
    refine .move ?_
    split
    · next he =>
      -- Only a timed lock has a deadline.
      cases k with
      | timedlock tsp => exact .expired
      | lock | trylock => cases he
    · split
      · exact .waitSleep
      · exact .waitChanged
  | asleep k =>
    cases h
    refine .move ?_
    split
    · cases k with
      | timedlock tsp => exact .timedout
      | lock | trylock => exact .awake
    · exact .awake
    · exact .awake
  | tryLoad =>
    cases h
    refine .move ?_
    split
    · exact .tryFree
    · next hm => exact .tryHeld hm
  | tryCas =>
    simp only [act] at h
    split at h
    · next hm =>
      cases h
      exact .tryTake hm
    · cases h
      exact .move .tryLost
  | tryValid val =>
    cases h
    refine .move ?_
    split
    · next hm => exact .tryDead hm
    · exact .tryLive
  | trySteal val =>
    simp only [act] at h
    split at h
    · next hm =>
      subst hm
      cases h
      exact .trySteal
    · cases h
      exact .move .tryStealLost
  | taken d =>
    cases h
    refine .move ?_
    split
    · next hm => exact .refused hm
    · next hm => exact .taken hm
  | setOwner d =>
    cases h
    exact .setOwner
  | setCnt d =>
    cases h
    cases d with
    | true => exact .setCntDead
    | false => exact .setCnt
  | deadLoad =>
    cases h
    exact .move .deadLoad
  | deadStore v =>
    cases h
    exact .deadStore
  | lockRet r =>
    cases h
    split
    · next hr => exact .lockTaken hr
    · next hr => exact .lockFails hr
  | unUnrecoverable =>
    cases h
    refine .move ?_
    split
    · next hm => exact .unRefused hm
    · exact .unUnrecoverable
  | unOwner =>
    cases h
    refine .move ?_
    split
    · next hm => exact .unNotOwner hm
    · exact .unOwner
  | unPid =>
    cases h
    refine .move ?_
    split
    · next hm => exact .unNotPid hm
    · exact .unPid
  | unLoad =>
    cases h
    exact .move .unLoad
  | unStore v =>
    cases h
    split
    · next hv => exact .unStoreLast hv
    · next hv => exact .unStore hv
  | unDead =>
    cases h
    refine .move ?_
    split
    · next hm => exact .unDead hm
    · next hm => exact .unClean (not_not.mp hm)
  | unSetOwner v =>
    cases h
    exact .unSetOwner
  | unWord =>
    cases h
    refine .move ?_
    split
    · exact .unWaited
    · exact .unWord
  | unSetWake =>
    cases h
    exact .unSetWake
  | unCas val =>
    simp only [act] at h
    split at h
    · next hm =>
      subst hm
      cases h
      exact .unCas
    · cases h
      exact .move .unAgain
  | unRet r =>
    cases h
    split
    · next hr =>
      subst hr
      exact .unFails
    · next hr => exact .unRet hr

end Hlpt.Robust
