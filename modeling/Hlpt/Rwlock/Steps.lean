import Hlpt.Rwlock.Model

/-!
# `Hlpt.Rwlock.Steps`: what one step of a read-write lock can do

Most steps only read the lock and go on (`Moves`). The others change one word or one queue
(`Step`). The invariants of the lock look at a step through these two relations.

* `step_of_exec`: every step is one of them.
-/

set_option autoImplicit false

namespace Hlpt.Rwlock

open Hlpt.Lib

universe u

variable {T : Type u}

/-- A step that changes neither the lock nor the holds, with what it has read. -/
inductive Moves (I : Ids T) (t : T) (c : Choice T) (m : Mem T) : Pc → Pc → Prop
  -- A call begins.
  | rdCall {k : RdCall} (hc : c.call = .rd k) : Moves I t c m .idle (.rdOwned k)
  | wrCall (k : WrCall) : Moves I t c m .idle (.wrOwned k)
  | tryCall : Moves I t c m .idle .tryLoad
  -- The read locks. The owner word tells a free lock or one of readers from a writer.
  | rdDeadlk {k : RdCall} (hm : m.oid = I.id t) : Moves I t c m (.rdOwned k) (.ret .edeadlk)
  | rdEnter {k : RdCall} (hm : m.oid ≠ I.id t) : Moves I t c m (.rdOwned k) (.rdLoad k)
  | rdFree {k : RdCall} (hm : m.oid &&& PTHREAD_ID_MASK = 0) :
      Moves I t c m (.rdLoad k) (.rdCas k m.oid m.nrd)
  | rdFails {k : RdCall} (r : Code) (hm : m.oid &&& PTHREAD_ID_MASK ≠ 0) :
      Moves I t c m (.rdLoad k) (.ret r)
  | rdQueue {k : RdCall} (hm : m.oid &&& PTHREAD_ID_MASK ≠ 0) :
      Moves I t c m (.rdLoad k) (.rdAdd k m.oid)
  | rdAgain {k : RdCall} {oid nrd : BitVec 32} (hm : ¬ (m.oid = oid ∧ m.nrd = nrd)) :
      Moves I t c m (.rdCas k oid nrd) (.rdLoad k)
  | rdLate {abstime : Timespec} {oid : BitVec 32} :
      Moves I t c m (.rdClock abstime oid) (.rdDec (.timedrdlock abstime) true)
  | rdEarly {abstime : Timespec} {oid : BitVec 32} :
      Moves I t c m (.rdClock abstime oid) (.rdWait (.timedrdlock abstime) oid)
  | rdChanged {k : RdCall} {oid : BitVec 32} (hm : m.oid ≠ oid) :
      Moves I t c m (.rdWait k oid) (.rdDec k false)
  -- The write locks that wait.
  | wrDeadlk {k : WrCall} (hm : m.oid = I.id t) : Moves I t c m (.wrOwned k) (.ret .edeadlk)
  | wrEnter {k : WrCall} (hm : m.oid ≠ I.id t) : Moves I t c m (.wrOwned k) (.wrLoad k)
  | wrFree {k : WrCall} (hm : m.oid = RWLOCK_UNOWNED) : Moves I t c m (.wrLoad k) (.wrCas k)
  | wrFails {k : WrCall} (r : Code) (hm : m.oid ≠ RWLOCK_UNOWNED) :
      Moves I t c m (.wrLoad k) (.ret r)
  | wrQueue {k : WrCall} (hm : m.oid ≠ RWLOCK_UNOWNED) :
      Moves I t c m (.wrLoad k) (.wrAdd k m.oid)
  | wrAgain {k : WrCall} (hm : m.oid ≠ RWLOCK_UNOWNED) : Moves I t c m (.wrCas k) (.wrLoad k)
  | wrLate {abstime : Timespec} {owner nw : BitVec 32} :
      Moves I t c m (.wrClock abstime owner nw) (.wrDec (.timedwrlock abstime) true)
  | wrEarly {abstime : Timespec} {owner nw : BitVec 32} :
      Moves I t c m (.wrClock abstime owner nw) (.wrWait (.timedwrlock abstime) owner nw)
  | wrChanged {k : WrCall} {owner nw : BitVec 32} (hm : ¬ (m.nwr = nw + 1 ∧ m.oid = owner)) :
      Moves I t c m (.wrWait k owner nw) (.wrDec k false)
  | wrHandOn (hrd : m.nrd ≠ 0) (hm : m.oid = RWLOCK_UNOWNED) : Moves I t c m (.wrCheck 1) .wrWake
  | wrGivesUp {nw : BitVec 32} (hm : ¬ (nw = 1 ∧ m.nrd ≠ 0 ∧ m.oid = RWLOCK_UNOWNED)) :
      Moves I t c m (.wrCheck nw) (.ret .etimedout)
  -- `pthread_rwlock_trywrlock`
  | tryLoad : Moves I t c m .tryLoad (.tryOwned m.oid)
  | tryDeadlk {owner : BitVec 32} (hm : m.oid = I.id t) :
      Moves I t c m (.tryOwned owner) (.ret .edeadlk)
  | tryFree (hm : m.oid ≠ I.id t) : Moves I t c m (.tryOwned RWLOCK_UNOWNED) .tryCas
  | tryBusy {owner : BitVec 32} (hm : m.oid ≠ I.id t) :
      Moves I t c m (.tryOwned owner) (.ret .ebusy)
  | tryLost (hm : m.oid ≠ RWLOCK_UNOWNED) : Moves I t c m .tryCas (.ret .ebusy)
  -- `pthread_rwlock_unlock`
  | unOfWriter (hm : m.oid &&& PTHREAD_ID_MASK ≠ 0) : Moves I t c m .unLoad .unOwned
  | unOfReader (hm : m.oid &&& PTHREAD_ID_MASK = 0) : Moves I t c m .unLoad .unCount
  | unOwned (hm : m.oid = I.id t) : Moves I t c m .unOwned .unStore
  | unNotOwned (hm : m.oid ≠ I.id t) : Moves I t c m .unOwned (.unRet .eperm)
  | unSomeWr (hm : m.nwr ≠ 0) : Moves I t c m .unTestWr .unWakeWr
  | unNoWr (hm : m.nwr = 0) : Moves I t c m .unTestWr .unTestRd
  | unSomeRd (hm : m.nrd ≠ 0) : Moves I t c m .unTestRd .unWakeRd
  | unNoRd (hm : m.nrd = 0) : Moves I t c m .unTestRd (.unRet .ok)
  | unUncounted (hm : m.nrd = 0) : Moves I t c m .unCount (.unRet .eperm)
  | unCounted (hm : m.nrd ≠ 0) : Moves I t c m .unCount .unLoadx
  | unLoadx : Moves I t c m .unLoadx (.unCas m.oid m.nrd)
  | unAgain {oid nrd : BitVec 32} : Moves I t c m (.unCas oid nrd) .unLoadx
  | unSomeQwr (hm : m.nwr ≠ 0) : Moves I t c m .unTestQwr .unWakeWr
  | unNoQwr (hm : m.nwr = 0) : Moves I t c m .unTestQwr (.unRet .ok)
  -- A call ends.
  | ret {r : Code} : Moves I t c m (.ret r) .idle
  | unRet {r : Code} : Moves I t c m (.unRet r) .idle

variable [DecidableEq T]

/-- A step, with what it changes. -/
inductive Step (I : Ids T) (t : T) (c : Choice T) (m : Mem T) : Local → Mem T → Local → Prop
  | move {pc pc' : Pc} {reads : ℕ} {writes : Bool} (hm : Moves I t c m pc pc') :
      Step I t c m ⟨pc, reads, writes⟩ m ⟨pc', reads, writes⟩
  | unlock {reads : ℕ} {writes : Bool} (hold : writes = true ∨ 0 < reads) :
      Step I t c m ⟨.idle, reads, writes⟩ m ⟨.unLoad, reads, writes⟩
  -- A read lock takes its hold, or queues.
  | rdTake {k : RdCall} {reads : ℕ} {writes : Bool} :
      Step I t c m ⟨.rdCas k m.oid m.nrd, reads, writes⟩
        { m with oid := RWLOCK_RO, nrd := m.nrd + 1 }
        ⟨if m.oid = RWLOCK_UNOWNED ∧ m.nrd ≠ 0 then .rdWake else .ret .ok, reads + 1, writes⟩
  | rdWake {reads : ℕ} {writes : Bool} :
      Step I t c m ⟨.rdWake, reads, writes⟩ { m with rdSleepers := ∅ } ⟨.ret .ok, reads, writes⟩
  | rdAdd {k : RdCall} {oid : BitVec 32} {reads : ℕ} {writes : Bool} :
      Step I t c m ⟨.rdAdd k oid, reads, writes⟩ { m with nrd := m.nrd + 1 }
        ⟨k.wait oid, reads, writes⟩
  | rdSleep {k : RdCall} {reads : ℕ} {writes : Bool} :
      Step I t c m ⟨.rdWait k m.oid, reads, writes⟩
        { m with rdSleepers := insert t m.rdSleepers } ⟨.rdAsleep k, reads, writes⟩
  | rdAwake {k : RdCall} {out : Bool} {reads : ℕ} {writes : Bool}
      (hout : wakeUp (t ∈ m.rdSleepers) k.timed c.ends = some out) :
      Step I t c m ⟨.rdAsleep k, reads, writes⟩
        { m with rdSleepers := m.rdSleepers.erase t } ⟨.rdDec k out, reads, writes⟩
  | rdDec {k : RdCall} {out : Bool} {reads : ℕ} {writes : Bool} :
      Step I t c m ⟨.rdDec k out, reads, writes⟩ { m with nrd := m.nrd - 1 }
        ⟨if out then .ret .etimedout else .rdLoad k, reads, writes⟩
  -- A write lock takes its hold, or queues.
  | wrTake {k : WrCall} {reads : ℕ} {writes : Bool} (hm : m.oid = RWLOCK_UNOWNED) :
      Step I t c m ⟨.wrCas k, reads, writes⟩ { m with oid := I.id t } ⟨.ret .ok, reads, true⟩
  | wrAdd {k : WrCall} {owner : BitVec 32} {reads : ℕ} {writes : Bool} :
      Step I t c m ⟨.wrAdd k owner, reads, writes⟩ { m with nwr := m.nwr + 1 }
        ⟨k.wait owner m.nwr, reads, writes⟩
  | wrSleep {k : WrCall} {nw : BitVec 32} {reads : ℕ} {writes : Bool} (hm : m.nwr = nw + 1) :
      Step I t c m ⟨.wrWait k m.oid nw, reads, writes⟩
        { m with wrSleepers := insert t m.wrSleepers } ⟨.wrAsleep k, reads, writes⟩
  | wrAwake {k : WrCall} {out : Bool} {reads : ℕ} {writes : Bool}
      (hout : wakeUp (t ∈ m.wrSleepers) k.timed c.ends = some out) :
      Step I t c m ⟨.wrAsleep k, reads, writes⟩
        { m with wrSleepers := m.wrSleepers.erase t } ⟨.wrDec k out, reads, writes⟩
  | wrDec {k : WrCall} {out : Bool} {reads : ℕ} {writes : Bool} :
      Step I t c m ⟨.wrDec k out, reads, writes⟩ { m with nwr := m.nwr - 1 }
        ⟨if out then .wrCheck m.nwr else .wrLoad k, reads, writes⟩
  | wrWake {reads : ℕ} {writes : Bool} :
      Step I t c m ⟨.wrWake, reads, writes⟩ { m with rdSleepers := ∅ }
        ⟨.ret .etimedout, reads, writes⟩
  | tryTake {reads : ℕ} {writes : Bool} (hm : m.oid = RWLOCK_UNOWNED) :
      Step I t c m ⟨.tryCas, reads, writes⟩ { m with oid := I.id t } ⟨.ret .ok, reads, true⟩
  -- An unlock gives a hold back, and wakes.
  | wrLeave {reads : ℕ} {writes : Bool} :
      Step I t c m ⟨.unStore, reads, writes⟩ { m with oid := RWLOCK_UNOWNED }
        ⟨.unTestWr, reads, false⟩
  | unWakeRd {reads : ℕ} {writes : Bool} :
      Step I t c m ⟨.unWakeRd, reads, writes⟩ { m with rdSleepers := ∅ } ⟨.unRet .ok, reads, writes⟩
  | rdLeave {reads : ℕ} {writes : Bool} (hm : m.nrd ≠ 1) :
      Step I t c m ⟨.unCas m.oid m.nrd, reads, writes⟩ { m with nrd := m.nrd - 1 }
        ⟨.unRet .ok, reads - 1, writes⟩
  | rdLeaveLast {reads : ℕ} {writes : Bool} (hm : m.nrd = 1) :
      Step I t c m ⟨.unCas m.oid m.nrd, reads, writes⟩
        { m with oid := RWLOCK_UNOWNED, nrd := m.nrd - 1 } ⟨.unTestQwr, reads - 1, writes⟩
  | unWakeWr {q : Finset T} {reads : ℕ} {writes : Bool}
      (hq : wakeOne m.wrSleepers c.pick = some q) :
      Step I t c m ⟨.unWakeWr, reads, writes⟩ { m with wrSleepers := q }
        ⟨.unRet .ok, reads, writes⟩

variable {I : Ids T} {t : T} {c : Choice T} {m m' : Mem T} {l l' : Local}

omit [DecidableEq T] in
/-- A read lock that finds a writer fails or queues. -/
theorem RdCall.moves_blocked {k : RdCall} (hm : m.oid &&& PTHREAD_ID_MASK ≠ 0) :
    Moves I t c m (.rdLoad k) (k.blocked m.oid) := by
  cases k with
  | rdlock => exact .rdQueue hm
  | tryrdlock => exact .rdFails _ hm
  | timedrdlock abstime =>
    show Moves I t c m _ (if abstime.badNsec then _ else _)
    split
    · exact .rdFails _ hm
    · exact .rdQueue hm

omit [DecidableEq T] in
/-- A write lock that finds an owner fails or queues. -/
theorem WrCall.moves_blocked {k : WrCall} (hm : m.oid ≠ RWLOCK_UNOWNED) :
    Moves I t c m (.wrLoad k) (k.blocked m.oid) := by
  cases k with
  | wrlock => exact .wrQueue hm
  | timedwrlock abstime =>
    show Moves I t c m _ (if abstime.badNsec then _ else _)
    split
    · exact .wrFails _ hm
    · exact .wrQueue hm

/-- Every step is one of them. -/
theorem step_of_exec (h : exec I t c m l = some (m', l')) : Step I t c m l m' l' := by
  rcases l with ⟨pc, reads, writes⟩
  cases pc with
  | idle =>
    cases hc : c.call with
    | unlock =>
      simp only [exec, enter, hc] at h
      split at h
      · next hold =>
        cases h
        exact .unlock hold
      · cases h
    | rd k =>
      simp only [exec, enter, hc] at h
      cases h
      exact .move (.rdCall hc)
    | wr k =>
      simp only [exec, enter, hc] at h
      cases h
      exact .move (.wrCall k)
    | trywrlock =>
      simp only [exec, enter, hc] at h
      cases h
      exact .move .tryCall
  | rdOwned k =>
    cases h
    refine .move ?_
    split
    · next hm => exact .rdDeadlk hm
    · next hm => exact .rdEnter hm
  | rdLoad k =>
    cases h
    refine .move ?_
    split
    · next hm => exact .rdFree hm
    · next hm => exact RdCall.moves_blocked hm
  | rdCas k oid nrd =>
    simp only [exec] at h
    split at h
    · next hm =>
      obtain ⟨rfl, rfl⟩ := hm
      cases h
      exact .rdTake
    · next hm =>
      cases h
      exact .move (.rdAgain hm)
  | rdWake =>
    cases h
    exact .rdWake
  | rdAdd k oid =>
    cases h
    exact .rdAdd
  | rdClock abstime oid =>
    cases h
    refine .move ?_
    split
    · exact .rdLate
    · exact .rdEarly
  | rdWait k oid =>
    simp only [exec] at h
    split at h
    · next hm =>
      subst hm
      cases h
      exact .rdSleep
    · next hm =>
      cases h
      exact .move (.rdChanged hm)
  | rdAsleep k =>
    obtain ⟨out, hout, heq⟩ := Option.map_eq_some_iff.mp h
    cases heq
    exact .rdAwake hout
  | rdDec k out =>
    cases h
    exact .rdDec
  | wrOwned k =>
    cases h
    refine .move ?_
    split
    · next hm => exact .wrDeadlk hm
    · next hm => exact .wrEnter hm
  | wrLoad k =>
    cases h
    refine .move ?_
    split
    · next hm => exact .wrFree hm
    · next hm => exact WrCall.moves_blocked hm
  | wrCas k =>
    simp only [exec] at h
    split at h
    · next hm =>
      cases h
      exact .wrTake hm
    · next hm =>
      cases h
      exact .move (.wrAgain hm)
  | wrAdd k owner =>
    cases h
    exact .wrAdd
  | wrClock abstime owner nw =>
    cases h
    refine .move ?_
    split
    · exact .wrLate
    · exact .wrEarly
  | wrWait k owner nw =>
    simp only [exec] at h
    split at h
    · next hm =>
      obtain ⟨hnw, rfl⟩ := hm
      cases h
      exact .wrSleep hnw
    · next hm =>
      cases h
      exact .move (.wrChanged hm)
  | wrAsleep k =>
    obtain ⟨out, hout, heq⟩ := Option.map_eq_some_iff.mp h
    cases heq
    exact .wrAwake hout
  | wrDec k out =>
    cases h
    exact .wrDec
  | wrCheck nw =>
    cases h
    refine .move ?_
    split
    · next hm =>
      obtain ⟨rfl, hrd, ho⟩ := hm
      exact .wrHandOn hrd ho
    · next hm => exact .wrGivesUp hm
  | wrWake =>
    cases h
    exact .wrWake
  | tryLoad =>
    cases h
    exact .move .tryLoad
  | tryOwned owner =>
    cases h
    refine .move ?_
    split
    · next hm => exact .tryDeadlk hm
    · next hm =>
      split
      · next ho =>
        subst ho
        exact .tryFree hm
      · exact .tryBusy hm
  | tryCas =>
    simp only [exec] at h
    split at h
    · next hm =>
      cases h
      exact .tryTake hm
    · next hm =>
      cases h
      exact .move (.tryLost hm)
  | unLoad =>
    cases h
    refine .move ?_
    split
    · next hm => exact .unOfWriter hm
    · next hm => exact .unOfReader (not_not.mp hm)
  | unOwned =>
    cases h
    refine .move ?_
    split
    · next hm => exact .unOwned hm
    · next hm => exact .unNotOwned hm
  | unStore =>
    cases h
    exact .wrLeave
  | unTestWr =>
    cases h
    refine .move ?_
    split
    · next hm => exact .unSomeWr hm
    · next hm => exact .unNoWr (not_not.mp hm)
  | unTestRd =>
    cases h
    refine .move ?_
    split
    · next hm => exact .unSomeRd hm
    · next hm => exact .unNoRd (not_not.mp hm)
  | unWakeRd =>
    cases h
    exact .unWakeRd
  | unCount =>
    cases h
    refine .move ?_
    split
    · next hm => exact .unUncounted hm
    · next hm => exact .unCounted hm
  | unLoadx =>
    cases h
    exact .move .unLoadx
  | unCas oid nrd =>
    simp only [exec] at h
    split at h
    · next hm =>
      obtain ⟨rfl, rfl⟩ := hm
      by_cases hone : m.nrd = 1
      · simp only [if_pos hone] at h
        cases h
        exact .rdLeaveLast hone
      · simp only [if_neg hone] at h
        cases h
        exact .rdLeave hone
    · cases h
      exact .move .unAgain
  | unTestQwr =>
    cases h
    refine .move ?_
    split
    · next hm => exact .unSomeQwr hm
    · next hm => exact .unNoQwr (not_not.mp hm)
  | unWakeWr =>
    obtain ⟨q, hq, heq⟩ := Option.map_eq_some_iff.mp h
    cases heq
    exact .unWakeWr hq
  | ret r =>
    cases h
    exact .move .ret
  | unRet r =>
    cases h
    exact .move .unRet

end Hlpt.Rwlock
