import Hlpt.Requeue.Model

/-!
# `Hlpt.Requeue.Steps`: the steps of the waits and of their mutex, one by one

A step of a call reads a word and goes on (`Reads`), or it is an access to the lock word, or
it writes. A cancellation takes a sleeper out of both queues (`Step`).

* `step_of_exec`: every step is one of them.
-/

set_option autoImplicit false

namespace Hlpt.Requeue

open Hlpt.Lib

universe u

variable {T : Type u}

/-- A step that changes nothing, with what it has read. -/
inductive Reads (m : Mem T) : Pc T → Pc T → Prop
  -- `pt_hurd_cond_wait`, and the part that the three waits share.
  | testPending {k : WaitCall} : Reads m (.testPending k) (.checkMutex k)
  | checkMutex {k : WaitCall} (hm : m.mutex = true) :
      Reads m (.checkMutex k) (.unlock k .unlockSwap)
  | noMutex {k : WaitCall} (hm : m.mutex = false) : Reads m (.checkMutex k) (.storeMutex k)
  | regLoad {k : WaitCall} : Reads m (.regLoad k) (.regCas k m.lo m.hi)
  | regAgain {k : WaitCall} {lo hi : BitVec 32} : Reads m (.regCas k lo hi) (.regLoad k)
  -- The sleep.
  | cancelpointBegin {k : WaitCall} {sw : BitVec 32} :
      Reads m (.cancelpointBegin k sw) (k.block sw)
  | past {k : WaitCall} {tsp : Timespec} {sw : BitVec 32} :
      Reads m (.clock k tsp sw) (k.awake sw .timedout)
  | clock {k : WaitCall} {tsp : Timespec} {sw : BitVec 32} :
      Reads m (.clock k tsp sw) (.wait k sw)
  | changed {k : WaitCall} {sw : BitVec 32} :
      Reads m (.wait k sw) (k.awake sw .invalidArgument)
  | cancelpointEnd {k : WaitCall} {sw : BitVec 32} {ret : KernReturn} :
      Reads m (.cancelpointEnd k sw ret) (k.ended ret)
  -- `cleanup`
  | cleanLoad {sw : BitVec 32} : Reads m (.cleanLoad sw) (.cleanCas sw m.lo m.hi)
  | cleanAgain {sw lo hi : BitVec 32} : Reads m (.cleanCas sw lo hi) (.cleanLoad sw)
  -- `pthread_cond_signal` and `pthread_cond_broadcast`
  | sigLoad : Reads m .sigLoad (.sigCas m.lo m.hi)
  | sigAgain {lo hi : BitVec 32} : Reads m (.sigCas lo hi) .sigLoad
  | bcLoad : Reads m .bcLoad (.bcCas m.lo m.hi)
  | bcAgain {lo hi : BitVec 32} : Reads m (.bcCas lo hi) .bcLoad
  | bcMutex (hm : m.mutex = true) : Reads m .bcMutex .bcRequeue
  | bcNoMutex (hm : m.mutex = false) : Reads m .bcMutex .bcWake
  | ret {r : Cond.Ret} : Reads m (.ret r) .idle

variable [DecidableEq T]

/-- A step, with what it changes. -/
inductive Step (t : T) (c : Choice T) (m : Mem T) : Local T → Mem T → Local T → Prop
  | call {pc : Pc T} {b : Bool} (h : enter ⟨.idle, b⟩ c.call = some pc) :
      Step t c m ⟨.idle, b⟩ m ⟨pc, b⟩
  | read {pc pc' : Pc T} {b : Bool} (hm : Reads m pc pc') : Step t c m ⟨pc, b⟩ m ⟨pc', b⟩
  -- The accesses to the lock word.
  | mutex {p : LowLevelLock.Pc} {b : Bool} {m' : Mem T} {l' : Local T}
      (h : onWord t c m ⟨.mutex p, b⟩ p afterMutex = some (m', l')) :
      Step t c m ⟨.mutex p, b⟩ m' l'
  | unlock {k : WaitCall} {p : LowLevelLock.Pc} {b : Bool} {m' : Mem T} {l' : Local T}
      (h : onWord t c m ⟨.unlock k p, b⟩ p (afterUnlock k) = some (m', l')) :
      Step t c m ⟨.unlock k p, b⟩ m' l'
  | relock {r : Option Cond.Ret} {p : LowLevelLock.Pc} {b : Bool} {m' : Mem T} {l' : Local T}
      (h : onWord t c m ⟨.relock r p, b⟩ p (afterRelock r) = some (m', l')) :
      Step t c m ⟨.relock r p, b⟩ m' l'
  -- `pt_hurd_cond_wait`, up to the unlock of the mutex.
  | spinLock {k : WaitCall} {b : Bool} :
      Step t c m ⟨.spinLock k, b⟩ { m with spin := Function.update m.spin t true }
        ⟨.testPending k, b⟩
  | pending {k : WaitCall} {b : Bool} :
      Step t c m ⟨.testPending k, b⟩ { m with cancel := Function.update m.cancel t false }
        ⟨.refuse, b⟩
  | refuse {b : Bool} :
      Step t c m ⟨.refuse, b⟩ { m with spin := Function.update m.spin t false }
        ⟨.ret (.code .eintr), b⟩
  -- The three waits store the mutex and count themselves.
  | storeMutex {k : WaitCall} {b : Bool} :
      Step t c m ⟨.storeMutex k, b⟩ { m with mutex := true } ⟨.unlock k .unlockSwap, b⟩
  | regCas {k : WaitCall} {b : Bool} :
      Step t c m ⟨.regCas k m.lo m.hi, b⟩ { m with hi := m.hi + 1 } ⟨k.registered m.lo, b⟩
  | setHook {k : WaitCall} {sw : BitVec 32} {b : Bool} :
      Step t c m ⟨.setHook k sw, b⟩ { m with hook := Function.update m.hook t true }
        ⟨.spinUnlock k sw, b⟩
  | spinUnlock {k : WaitCall} {sw : BitVec 32} {b : Bool} :
      Step t c m ⟨.spinUnlock k sw, b⟩ { m with spin := Function.update m.spin t false }
        ⟨k.block sw, b⟩
  -- The sleep, and its end.
  | wait {k : WaitCall} {b : Bool} :
      Step t c m ⟨.wait k m.lo, b⟩ { m with queue := insert t m.queue } ⟨.asleep k m.lo, b⟩
  | awake {k : WaitCall} {sw : BitVec 32} {ret : KernReturn} {b : Bool} :
      Step t c m ⟨.asleep k sw, b⟩ (m.out t) ⟨k.awake sw ret, b⟩
  | uncount {k : WaitCall} {ret : KernReturn} {b : Bool} :
      Step t c m ⟨.uncount k ret, b⟩ { m with hi := m.hi - 1 } ⟨k.uncounted ret, b⟩
  -- `pt_hurd_cond_wait`, after the sleep.
  | spinRelock {k : WaitCall} {b : Bool} :
      Step t c m ⟨.spinRelock k, b⟩ { m with spin := Function.update m.spin t true }
        ⟨.clearHook k, b⟩
  | clearHook {k : WaitCall} {b : Bool} :
      Step t c m ⟨.clearHook k, b⟩ { m with hook := Function.update m.hook t false }
        ⟨.testCancel k, b⟩
  | testCancel {k : WaitCall} {b : Bool} :
      Step t c m ⟨.testCancel k, b⟩ { m with cancel := Function.update m.cancel t false }
        ⟨.leave k (m.cancel t), b⟩
  | leaveCancelled {k : WaitCall} {b : Bool} :
      Step t c m ⟨.leave k true, b⟩ { m with spin := Function.update m.spin t false }
        ⟨.ret (.code .eintr), b⟩
  | leave {k : WaitCall} {b : Bool} :
      Step t c m ⟨.leave k false, b⟩ { m with spin := Function.update m.spin t false }
        ⟨.relock (some (.code .ok)) (.lockTest none), b⟩
  -- The end of `__pthread_mutex_cond_lock`, in `cleanup` and in a wait.
  | markClean {b : Bool} :
      Step t c m ⟨.mark none, b⟩ { m with lock := { m.lock with word := 2 } } ⟨.idle, b⟩
  | mark {r : Cond.Ret} {b : Bool} :
      Step t c m ⟨.mark (some r), b⟩ { m with lock := { m.lock with word := 2 } } ⟨.ret r, b⟩
  -- `cleanup`, for a thread that was cancelled.
  | cancelled {pc : Pc T} {sw : BitVec 32} {b : Bool} (h : cancelSw pc = some sw) :
      Step t c m ⟨pc, b⟩ (m.out t) ⟨.cleanLoad sw, b⟩
  | cleanCas {sw : BitVec 32} {b : Bool} :
      Step t c m ⟨.cleanCas sw m.lo m.hi, b⟩ { m with hi := m.hi - 1 } ⟨.cleanWake, b⟩
  | cleanSame {sw : BitVec 32} {b : Bool} :
      Step t c m ⟨.cleanCas sw m.lo m.hi, b⟩ { m with hi := m.hi - 1 }
        ⟨.relock none (.lockTest none), b⟩
  | cleanWake {b : Bool} :
      Step t c m ⟨.cleanWake, b⟩ { m with queue := ∅ } ⟨.relock none (.lockTest none), b⟩
  -- `pthread_cond_signal` and `pthread_cond_broadcast`
  | sigCas {b : Bool} :
      Step t c m ⟨.sigCas m.lo m.hi, b⟩ { m with lo := m.lo + 1 } ⟨.sigWake, b⟩
  | sigNobody {b : Bool} (hm : m.hi = 0) :
      Step t c m ⟨.sigCas m.lo m.hi, b⟩ { m with lo := m.lo + 1 } ⟨.ret (.code .ok), b⟩
  | sigWake {q : Finset T} {b : Bool} (h : wakeOne m.queue c.pick = some q) :
      Step t c m ⟨.sigWake, b⟩ { m with queue := q } ⟨.ret (.code .ok), b⟩
  | bcCas {b : Bool} :
      Step t c m ⟨.bcCas m.lo m.hi, b⟩ { m with lo := m.lo + 1 } ⟨.bcMutex, b⟩
  | bcNobody {b : Bool} (hm : m.hi = 0) :
      Step t c m ⟨.bcCas m.lo m.hi, b⟩ { m with lo := m.lo + 1 } ⟨.ret (.code .ok), b⟩
  | bcRequeue {m' : Mem T} {b : Bool} (h : m.requeue c.pick = some m') :
      Step t c m ⟨.bcRequeue, b⟩ m' ⟨.ret (.code .ok), b⟩
  | bcWake {b : Bool} : Step t c m ⟨.bcWake, b⟩ { m with queue := ∅ } ⟨.ret (.code .ok), b⟩
  -- The cancellation of another thread on the Hurd.
  | cancelSet {u : T} {b : Bool} :
      Step t c m ⟨.cancelSet u, b⟩ { m with cancel := Function.update m.cancel u true }
        ⟨.hookAdd, b⟩
  | cancelOnly {u : T} {b : Bool} :
      Step t c m ⟨.cancelSet u, b⟩ { m with cancel := Function.update m.cancel u true }
        ⟨.ret (.code .ok), b⟩
  | hookAdd {b : Bool} : Step t c m ⟨.hookAdd, b⟩ { m with lo := m.lo + 1 } ⟨.hookWake, b⟩
  | hookWake {b : Bool} :
      Step t c m ⟨.hookWake, b⟩ { m with queue := ∅ } ⟨.ret (.code .ok), b⟩

variable {t : T} {c : Choice T} {m m' : Mem T} {l l' : Local T}

/-- The steps that are no cancellation. -/
theorem step_of_act (h : act t c m l = some (m', l')) : Step t c m l m' l' := by
  rcases l with ⟨pc, b⟩
  cases pc with
  | idle =>
    obtain ⟨p, hp, hr⟩ := Option.map_eq_some_iff.mp h
    cases hr
    exact .call hp
  | mutex p => exact .mutex h
  | unlock k p => exact .unlock h
  | relock r p => exact .relock h
  | spinLock k =>
    obtain ⟨-, h⟩ := Option.ite_none_left_eq_some.mp h
    cases h
    exact .spinLock
  | spinRelock k =>
    obtain ⟨-, h⟩ := Option.ite_none_left_eq_some.mp h
    cases h
    exact .spinRelock
  | testPending k =>
    simp only [act] at h
    split at h
    · cases h
      exact .pending
    · cases h
      exact .read .testPending
  | refuse =>
    cases h
    exact .refuse
  | checkMutex k =>
    cases h
    refine .read ?_
    split
    · next hm => exact .checkMutex hm
    · next hm => exact .noMutex (Bool.not_eq_true _ ▸ hm)
  | storeMutex k =>
    cases h
    exact .storeMutex
  | regLoad k =>
    cases h
    exact .read .regLoad
  | regCas k lo hi =>
    simp only [act] at h
    split at h
    · next hm =>
      obtain ⟨rfl, rfl⟩ := hm
      cases h
      exact .regCas
    · cases h
      exact .read .regAgain
  | setHook k sw =>
    cases h
    exact .setHook
  | spinUnlock k sw =>
    cases h
    exact .spinUnlock
  | cancelpointBegin k sw =>
    cases h
    exact .read .cancelpointBegin
  | clock k tsp sw =>
    cases h
    refine .read ?_
    split
    · exact .past
    · exact .clock
  | wait k sw =>
    simp only [act] at h
    split at h
    · next hm =>
      subst hm
      cases h
      exact .wait
    · cases h
      exact .read .changed
  | asleep k sw =>
    obtain ⟨ret, -, hr⟩ := Option.map_eq_some_iff.mp h
    cases hr
    exact .awake
  | cancelpointEnd k sw ret =>
    cases h
    exact .read .cancelpointEnd
  | uncount k ret =>
    cases h
    exact .uncount
  | clearHook k =>
    cases h
    exact .clearHook
  | testCancel k =>
    cases h
    exact .testCancel
  | leave k cancelled =>
    cases h
    cases cancelled with
    | true => exact .leaveCancelled
    | false => exact .leave
  | mark r =>
    cases h
    cases r with
    | none => exact .markClean
    | some r => exact .mark
  | cleanLoad sw =>
    cases h
    exact .read .cleanLoad
  | cleanCas sw lo hi =>
    simp only [act] at h
    split at h
    · next hm =>
      obtain ⟨rfl, rfl⟩ := hm
      cases h
      split
      · exact .cleanCas
      · exact .cleanSame
    · cases h
      exact .read .cleanAgain
  | cleanWake =>
    cases h
    exact .cleanWake
  | sigLoad =>
    cases h
    exact .read .sigLoad
  | sigCas lo hi =>
    simp only [act] at h
    split at h
    · next hm =>
      obtain ⟨rfl, rfl⟩ := hm
      cases h
      split
      · exact .sigCas
      · next hhi => exact .sigNobody (not_not.mp hhi)
    · cases h
      exact .read .sigAgain
  | sigWake =>
    obtain ⟨q, hq, hr⟩ := Option.map_eq_some_iff.mp h
    cases hr
    exact .sigWake hq
  | bcLoad =>
    cases h
    exact .read .bcLoad
  | bcCas lo hi =>
    simp only [act] at h
    split at h
    · next hm =>
      obtain ⟨rfl, rfl⟩ := hm
      cases h
      split
      · exact .bcCas
      · next hhi => exact .bcNobody (not_not.mp hhi)
    · cases h
      exact .read .bcAgain
  | bcMutex =>
    cases h
    refine .read ?_
    split
    · next hm => exact .bcMutex hm
    · next hm => exact .bcNoMutex (Bool.not_eq_true _ ▸ hm)
  | bcRequeue =>
    obtain ⟨m₁, hreq, hr⟩ := Option.map_eq_some_iff.mp h
    cases hr
    exact .bcRequeue hreq
  | bcWake =>
    cases h
    exact .bcWake
  | cancelSet u =>
    obtain ⟨-, h⟩ := Option.ite_none_left_eq_some.mp h
    cases h
    split
    · exact .cancelSet
    · exact .cancelOnly
  | hookAdd =>
    cases h
    exact .hookAdd
  | hookWake =>
    cases h
    exact .hookWake
  | ret r =>
    cases h
    exact .read .ret

/-- Every step is one of them. -/
theorem step_of_exec (h : exec t c m l = some (m', l')) : Step t c m l m' l' := by
  rw [exec] at h
  split at h
  · obtain ⟨sw, hsw, hr⟩ := Option.map_eq_some_iff.mp h
    cases hr
    exact .cancelled hsw
  · exact step_of_act h

end Hlpt.Requeue
