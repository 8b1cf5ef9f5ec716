import Hlpt.MutexCall.Accesses

/-!
# `Hlpt.MutexCall.RobustAccesses`: the whole calls on a robust mutex, access by access

As in `Hlpt.MutexCall.Accesses`, for the robust mutexes of `Hlpt.Robust`: the others move
only in the sleeps of the call. `valid_pid` has the same answers from the start of the call
to its end, so no process dies in between, and the one of the caller lives.

* `robust_lock_accesses`: the three ways to lock.
* `robust_lock_alone`: a lock without a sleep.
* `robust_unlock_accesses`: the unlock.
-/

set_option autoImplicit false

namespace Hlpt.MutexCall

open Hlpt.Lib
open Hlpt.Robust (Env Mem Local Pc LockCall Kind LLL_WAITERS LLL_DEAD_OWNER LLL_OWNER_MASK
  NOTRECOVERABLE_ID)

universe u

variable {T : Type u}

/-- The call of `Hlpt.Mutex` that is the same. -/
def ownCall : LockCall → Hlpt.Mutex.LockCall
  | .lock => .lock
  | .trylock => .trylock
  | .timedlock tsp => .timedlock tsp

/-- The deadline of the call. -/
def deadline : LockCall → Option Timespec
  | .lock | .trylock => none
  | .timedlock tsp => some tsp

/-- `cb` of `ROBUST_LOCK` -/
def cbCall (self : Self) (k : LockCall) (naps : List Nap) (m : Mutex) : Option (Code × Mutex) :=
  match k with
  | .lock => lllRobustLock self naps m
  | .trylock => some (lllRobustTrylock self m)
  | .timedlock tsp => lllRobustAbstimedLock self tsp naps m

/-- The type of a robust mutex. -/
def typeOf : Kind → BitVec 32
  | .normal => PTHREAD_MUTEX_NORMAL
  | .recursive => PTHREAD_MUTEX_RECURSIVE
  | .errorcheck => PTHREAD_MUTEX_ERRORCHECK

/-- The attributes of the mutex, in `Hlpt.Robust` and here. -/
structure SameRobustAttr (E : Env T) (a : Attr) : Prop where
  robust : a.mtxType = .robust
  type : a.type = typeOf E.kind

/-- The thread `t` as it makes its calls, when these processes are dead. -/
def Self.ofEnv (E : Env T) (t : T) (dead : BitVec 32 → Bool) : Self :=
  ⟨E.id t, E.pid t, fun p => !dead p⟩

/-- The three words of a robust mutex, and the processes that are dead. -/
structure SameRobust (dead : BitVec 32 → Bool) (m : Mem T) (mx : Mutex) : Prop where
  lock : m.lock = mx.lock
  ownerId : m.ownerId = mx.ownerId
  cnt : m.cnt = mx.cnt
  dead : m.dead = dead

/-- Between the entry of a function of the mutex and its return. -/
def RobustInside (l : Local) : Prop :=
  match l.pc with
  | .idle | .lockRet _ | .unRet _ => False
  | _ => True

/-- In a sleep the others leave the mutex of the nap, and nobody dies. -/
def RobustNap (n : Nap) (l : Local) (m m' : Mem T) : Prop :=
  (∃ k, l.pc = .asleep k) ∧ SameRobust m.dead m' n.after

variable {E : Env T} {t : T} {dead : BitVec 32 → Bool} {a : Attr} {k : LockCall}
  {naps : List Nap} {m : Mem T} {mx mx' : Mutex} {c : Code} {n : ℕ} {l l' : Local}

/-- A run of `t` inside of a function of the mutex. -/
abbrev RobustRun (E : Env T) (t : T) : List Nap → Mem T × Local → Mem T × Local → Prop :=
  (Hlpt.Robust.exec E).Naps RobustInside RobustNap t

/-- An access of a thread whose process lives. -/
theorem robust_step {c : Hlpt.Robust.Choice} {y : Mem T × Local}
    (hm : SameRobust dead m mx) (hlive : dead (E.pid t) = false)
    (h : Hlpt.Robust.act E t c m l = some y) (hin : RobustInside l) (hc : c.dies = false) :
    RobustRun E t [] (m, l) y := by
  have hexec : Hlpt.Robust.exec E t c m l = some y := by
    rw [Hlpt.Robust.exec, if_neg (by simp [hm.dead, hlive]), if_neg (by simp [hc]), h]
  exact .single hin hexec

/-- What a call comes to: it used some of the naps, and the accesses agree. -/
def RobustCall (E : Env T) (t : T) (dead : BitVec 32 → Bool) (naps : List Nap) (x : Mem T × Local)
    (l : Local) (mx' : Mutex) : Prop :=
  ∃ used, used <+: naps ∧ ∃ m', RobustRun E t used x (m', l) ∧ SameRobust dead m' mx'

namespace RobustCall

variable {x y : Mem T × Local}

/-- A call that does not sleep. -/
theorem awake {m' : Mem T} (h : RobustRun E t [] x (m', l)) (hm : SameRobust dead m' mx') :
    RobustCall E t dead naps x l mx' :=
  ⟨[], List.nil_prefix, m', h, hm⟩

/-- The first accesses of a call. -/
theorem after (h : RobustRun E t [] x y) (hcall : RobustCall E t dead naps y l mx') :
    RobustCall E t dead naps x l mx' := by
  obtain ⟨used, hused, m', hrun, hm⟩ := hcall
  exact ⟨used, hused, m', h.awake hrun, hm⟩

/-- A nap, and the rest of the call. -/
theorem sleep {nap : Nap} {m₁ : Mem T} (hnap : RobustNap nap l m m₁)
    (hcall : RobustCall E t dead naps (m₁, l) l' mx') :
    RobustCall E t dead (nap :: naps) (m, l) l' mx' := by
  obtain ⟨used, hused, m', hrun, hm⟩ := hcall
  exact ⟨nap :: used, (List.prefix_cons_inj nap).mpr hused, m', .sleep hnap hrun, hm⟩

/-- The last accesses of a call. -/
theorem before (hcall : RobustCall E t dead naps x l mx)
    (h : ∀ m, SameRobust dead m mx → ∃ m', RobustRun E t [] (m, l) (m', l') ∧
      SameRobust dead m' mx') : RobustCall E t dead naps x l' mx' := by
  obtain ⟨used, hused, m, hrun, hm⟩ := hcall
  obtain ⟨m', hrun', hm'⟩ := h m hm
  exact ⟨used, hused, m', by simpa using hrun.trans hrun', hm'⟩

end RobustCall

/-! ### The word -/

/-- Where `ROBUST_LOCK` is after `cb` has returned. -/
def acquired : Code → Pc
  | .ok => .taken false
  | .eownerdead => .taken true
  | r => .lockRet r

/-- Whether the deadline is past. -/
theorem deadline_any (now : Timespec) : (deadline k).any (expired · now) = k.expired now := by
  cases k <;> rfl

/-- A wait that finds the word free takes it. -/
theorem wait_free (hlive : dead (E.pid t) = false) (hm : SameRobust dead m mx)
    (hfree : m.lock = 0) : RobustRun E t [] (m, ⟨.waitLoad k, n⟩)
      ({ m with lock := E.pid t ||| LLL_WAITERS, taker := some t }, ⟨.taken false, n⟩) := by
  have hload : Hlpt.Robust.act E t {} m ⟨.waitLoad k, n⟩ = some (m, ⟨.waitCas k, n⟩) := by
    simp only [Hlpt.Robust.act, if_pos hfree]
  have hcas : Hlpt.Robust.act E t {} m ⟨.waitCas k, n⟩ =
      some ({ m with lock := E.pid t ||| LLL_WAITERS, taker := some t }, ⟨.taken false, n⟩) :=
    if_pos hfree
  exact (robust_step hm hlive hload trivial rfl).awake (robust_step hm hlive hcas trivial rfl)

/-- One that finds the word taken looks for the process in it. -/
theorem wait_taken (hlive : dead (E.pid t) = false) (hm : SameRobust dead m mx)
    (htaken : m.lock ≠ 0) : RobustRun E t [] (m, ⟨.waitLoad k, n⟩)
      (m, ⟨if dead (m.lock &&& LLL_OWNER_MASK) then .waitSteal k m.lock
        else .waitSleep k m.lock, n⟩) := by
  have hload : Hlpt.Robust.act E t {} m ⟨.waitLoad k, n⟩ = some (m, ⟨.waitValid k m.lock, n⟩) := by
    simp only [Hlpt.Robust.act, if_neg htaken]
  have hvalid : Hlpt.Robust.act E t {} m ⟨.waitValid k m.lock, n⟩ =
      some (m, ⟨if dead (m.lock &&& LLL_OWNER_MASK) then .waitSteal k m.lock
        else .waitSleep k m.lock, n⟩) := by
    rw [← hm.dead]
    rfl
  exact (robust_step hm hlive hload trivial rfl).awake (robust_step hm hlive hvalid trivial rfl)

/-- A wait for a dead process takes the word. -/
theorem wait_steals (hlive : dead (E.pid t) = false) (hm : SameRobust dead m mx)
    (htaken : m.lock ≠ 0) (hdead : dead (m.lock &&& LLL_OWNER_MASK) = true) :
    RobustRun E t [] (m, ⟨.waitLoad k, n⟩)
      ({ m with lock := E.pid t ||| LLL_WAITERS, taker := some t }, ⟨.taken true, n⟩) := by
  have hvalid := wait_taken (E := E) (t := t) (k := k) (n := n) hlive hm htaken
  rw [if_pos hdead] at hvalid
  have hsteal : Hlpt.Robust.act E t {} m ⟨.waitSteal k m.lock, n⟩ =
      some ({ m with lock := E.pid t ||| LLL_WAITERS, taker := some t }, ⟨.taken true, n⟩) :=
    if_pos rfl
  exact hvalid.awake (robust_step hm hlive hsteal trivial rfl)

/-- A wait for a process that lives ends with its deadline, or goes to sleep. -/
theorem wait_sleeps (now : Timespec) (hlive : dead (E.pid t) = false) (hm : SameRobust dead m mx)
    (htaken : m.lock ≠ 0) (hvalid : dead (m.lock &&& LLL_OWNER_MASK) = false) :
    RobustRun E t [] (m, ⟨.waitLoad k, n⟩)
      (m, ⟨if k.expired now then .lockRet .etimedout else .asleep k, n⟩) := by
  have hload := wait_taken (E := E) (t := t) (k := k) (n := n) hlive hm htaken
  rw [if_neg (by simp [hvalid])] at hload
  have hsleep : Hlpt.Robust.act E t { now := now } m ⟨.waitSleep k m.lock, n⟩ =
      some (m, ⟨if k.expired now then .lockRet .etimedout else .asleep k, n⟩) := by
    simp only [Hlpt.Robust.act, if_true]
  exact hload.awake (robust_step hm hlive hsleep trivial rfl)

/-- The others leave the mutex of the nap. -/
theorem exists_nap (hm : SameRobust dead m mx) (nap : Nap) :
    ∃ m₁, RobustNap nap ⟨.asleep k, n⟩ m m₁ ∧ SameRobust dead m₁ nap.after :=
  ⟨{ m with lock := nap.after.lock, ownerId := nap.after.ownerId, cnt := nap.after.cnt },
    ⟨⟨k, rfl⟩, rfl, rfl, rfl, rfl⟩, rfl, rfl, rfl, hm.dead⟩

/-- The second loop of the robust locks. -/
theorem lllRobustLoop_accesses (hlive : dead (E.pid t) = false)
    (h : lllRobustLoop (.ofEnv E t dead) (deadline k) naps mx = some (c, mx'))
    (hm : SameRobust dead m mx) :
    RobustCall E t dead naps (m, ⟨.waitLoad k, n⟩) ⟨acquired c, n⟩ mx' := by
  -- A turn of the loop that finds a process that lives.
  have hturn : ∀ {mx m} (now : Timespec), SameRobust dead m mx → mx.lock ≠ 0 →
      (Self.ofEnv E t dead).validPid (mx.lock &&& LLL_OWNER_MASK) = true →
      RobustRun E t [] (m, ⟨.waitLoad k, n⟩)
        (m, ⟨if (deadline k).any (expired · now) then .lockRet .etimedout else .asleep k, n⟩) := by
    intro mx m now hm htaken hvalid
    rw [← hm.lock] at htaken hvalid
    rw [deadline_any]
    exact wait_sleeps now hlive hm htaken (by simpa [Self.ofEnv] using hvalid)
  fun_induction lllRobustLoop (.ofEnv E t dead) (deadline k) naps mx generalizing m with
  | case1 naps mx hfree =>
      cases h
      exact .awake (wait_free hlive hm (hm.lock.trans hfree)) ⟨rfl, hm.ownerId, hm.cnt, hm.dead⟩
  | case2 mx htaken hvalid => cases h
  | case3 mx htaken hvalid nap naps hlate =>
      cases h
      have hsleep := hturn nap.now hm htaken hvalid
      rw [if_pos hlate] at hsleep
      exact .awake hsleep hm
  | case4 mx htaken hvalid nap naps hearly hends =>
      cases h
      have hsleep := hturn nap.now hm htaken hvalid
      rw [if_neg hearly] at hsleep
      obtain ⟨m₁, hnap, hm₁⟩ := exists_nap (k := k) (n := n) hm nap
      have hout : Hlpt.Robust.act E t { ends := some .timedout } m₁ ⟨.asleep k, n⟩ =
          some (m₁, ⟨.lockRet .etimedout, n⟩) := by
        cases k <;> first | rfl | cases hends
      exact .after hsleep (.sleep hnap (.awake (robust_step hm₁ hlive hout trivial rfl) hm₁))
  | case5 mx htaken hvalid nap naps hearly hends ih =>
      have hsleep := hturn nap.now hm htaken hvalid
      rw [if_neg hearly] at hsleep
      obtain ⟨m₁, hnap, hm₁⟩ := exists_nap (k := k) (n := n) hm nap
      have hwoken : Hlpt.Robust.act E t {} m₁ ⟨.asleep k, n⟩ = some (m₁, ⟨.waitLoad k, n⟩) := rfl
      exact .after hsleep
        (.sleep hnap (.after (robust_step hm₁ hlive hwoken trivial rfl) (ih h hm₁)))
  | case6 naps mx htaken hdead =>
      cases h
      rw [← hm.lock] at htaken hdead
      exact .awake (wait_steals hlive hm htaken (by simpa [Self.ofEnv] using hdead))
        ⟨rfl, hm.ownerId, hm.cnt, hm.dead⟩

/-- `lll_robust_lock` and `lll_robust_abstimed_lock` -/
theorem lllRobustAcquire_accesses (hlive : dead (E.pid t) = false)
    (h : lllRobustAcquire (.ofEnv E t dead) (deadline k) naps mx = some (c, mx'))
    (hm : SameRobust dead m mx) :
    RobustCall E t dead naps (m, ⟨.spinLoad k, n⟩) ⟨acquired c, n⟩ mx' := by
  unfold lllRobustAcquire at h
  rw [← hm.lock] at h
  split at h
  · next hfree =>
      cases h
      have hload : Hlpt.Robust.act E t {} m ⟨.spinLoad k, n⟩ = some (m, ⟨.spinCas k, n⟩) := by
        simp only [Hlpt.Robust.act, if_pos hfree]
      have hcas : Hlpt.Robust.act E t {} m ⟨.spinCas k, n⟩ =
          some ({ m with lock := E.pid t, taker := some t }, ⟨.taken false, n⟩) := if_pos hfree
      exact .awake ((robust_step hm hlive hload trivial rfl).awake
        (robust_step hm hlive hcas trivial rfl)) ⟨rfl, hm.ownerId, hm.cnt, hm.dead⟩
  · next htaken =>
      have hload : Hlpt.Robust.act E t {} m ⟨.spinLoad k, n⟩ =
          some (m, ⟨.spinMark k m.lock, n⟩) := by
        simp only [Hlpt.Robust.act, if_neg htaken]
      have hmark : Hlpt.Robust.act E t {} m ⟨.spinMark k m.lock, n⟩ =
          some ({ m with lock := m.lock ||| LLL_WAITERS }, ⟨.waitLoad k, n⟩) := if_pos rfl
      exact .after ((robust_step hm hlive hload trivial rfl).awake
        (robust_step hm hlive hmark trivial rfl))
        (lllRobustLoop_accesses hlive h ⟨rfl, hm.ownerId, hm.cnt, hm.dead⟩)

/-- `lll_robust_trylock` -/
theorem lllRobustTrylock_accesses (hlive : dead (E.pid t) = false)
    (h : lllRobustTrylock (.ofEnv E t dead) mx = (c, mx')) (hm : SameRobust dead m mx) :
    RobustCall E t dead naps (m, ⟨.tryLoad, n⟩) ⟨acquired c, n⟩ mx' := by
  unfold lllRobustTrylock at h
  rw [← hm.lock] at h
  split at h
  · next hfree =>
      cases h
      have hload : Hlpt.Robust.act E t {} m ⟨.tryLoad, n⟩ = some (m, ⟨.tryCas, n⟩) := by
        simp only [Hlpt.Robust.act, if_pos hfree]
      have hcas : Hlpt.Robust.act E t {} m ⟨.tryCas, n⟩ =
          some ({ m with lock := E.pid t, taker := some t }, ⟨.taken false, n⟩) := if_pos hfree
      exact .awake ((robust_step hm hlive hload trivial rfl).awake
        (robust_step hm hlive hcas trivial rfl)) ⟨rfl, hm.ownerId, hm.cnt, hm.dead⟩
  · next htaken =>
      have hload : Hlpt.Robust.act E t {} m ⟨.tryLoad, n⟩ = some (m, ⟨.tryValid m.lock, n⟩) := by
        simp only [Hlpt.Robust.act, if_neg htaken]
      have hvalid : Hlpt.Robust.act E t {} m ⟨.tryValid m.lock, n⟩ =
          some (m, ⟨if dead (m.lock &&& LLL_OWNER_MASK) then .trySteal m.lock
            else .lockRet .ebusy, n⟩) := by
        rw [← hm.dead]
        rfl
      have hlook := (robust_step hm hlive hload trivial rfl).awake
        (robust_step hm hlive hvalid trivial rfl)
      split at h
      · next halive =>
          cases h
          rw [if_neg (by simpa [Self.ofEnv] using halive)] at hlook
          exact .awake hlook hm
      · next hdead =>
          cases h
          rw [if_pos (by simpa [Self.ofEnv] using hdead)] at hlook
          have hsteal : Hlpt.Robust.act E t {} m ⟨.trySteal m.lock, n⟩ =
              some ({ m with lock := E.pid t, taker := some t }, ⟨.taken true, n⟩) := if_pos rfl
          exact .awake (hlook.awake (robust_step hm hlive hsteal trivial rfl))
            ⟨rfl, hm.ownerId, hm.cnt, hm.dead⟩

/-- `cb` of the three ways to lock. -/
theorem cbCall_accesses (hlive : dead (E.pid t) = false)
    (h : cbCall (.ofEnv E t dead) k naps mx = some (c, mx')) (hm : SameRobust dead m mx) :
    RobustCall E t dead naps (m, ⟨k.acquire, n⟩) ⟨acquired c, n⟩ mx' := by
  cases k with
  | lock => exact lllRobustAcquire_accesses (k := .lock) hlive h hm
  | trylock => exact lllRobustTrylock_accesses hlive (Option.some.inj h) hm
  | timedlock tsp => exact lllRobustAcquire_accesses (k := .timedlock tsp) hlive h hm

/-! ### `ROBUST_LOCK` -/

/-- The owner of a recursive mutex locks it again. -/
theorem robust_relock_accesses (hlive : dead (E.pid t) = false) (hm : SameRobust dead m mx) :
    ∃ m', RobustRun E t [] (m, ⟨.relockTest, n⟩) (m', ⟨.lockRet (relock mx).1, n⟩) ∧
      SameRobust dead m' (relock mx).2 := by
  unfold relock
  rw [← hm.cnt]
  by_cases hmax : m.cnt + 1 = 0
  · have htest : Hlpt.Robust.act E t {} m ⟨.relockTest, n⟩ = some (m, ⟨.lockRet .eagain, n⟩) := by
      simp only [Hlpt.Robust.act, if_pos hmax]
    rw [if_pos hmax]
    exact ⟨m, robust_step hm hlive htest trivial rfl, hm⟩
  · have htest : Hlpt.Robust.act E t {} m ⟨.relockTest, n⟩ = some (m, ⟨.relockLoad, n⟩) := by
      simp only [Hlpt.Robust.act, if_neg hmax]
    have hload : Hlpt.Robust.act E t {} m ⟨.relockLoad, n⟩ = some (m, ⟨.relockStore m.cnt, n⟩) :=
      rfl
    have hstore : Hlpt.Robust.act E t {} m ⟨.relockStore m.cnt, n⟩ =
        some ({ m with cnt := m.cnt + 1 }, ⟨.lockRet .ok, n⟩) := rfl
    rw [if_neg hmax]
    exact ⟨_, (robust_step hm hlive htest trivial rfl).awake
      ((robust_step hm hlive hload trivial rfl).awake (robust_step hm hlive hstore trivial rfl)),
      hm.lock, hm.ownerId, rfl, hm.dead⟩

/-- The owner and the count are written after the word was taken. -/
theorem setOwner_robust {b : Bool} (hlive : dead (E.pid t) = false)
    (hm : SameRobust dead m mx) (hrec : mx.ownerId ≠ NOTRECOVERABLE_ID) :
    ∃ m', RobustRun E t [] (m, ⟨.taken b, n⟩)
        (m', ⟨if b then .deadLoad else .lockRet .ok, n⟩) ∧
      SameRobust dead m' { mx with ownerId := E.id t, cnt := 1 } := by
  rw [← hm.ownerId] at hrec
  have hcheck : Hlpt.Robust.act E t {} m ⟨.taken b, n⟩ =
      some (m, ⟨.setOwner b, n⟩) := by
    simp only [Hlpt.Robust.act, if_neg hrec]
  have howner : Hlpt.Robust.act E t {} m ⟨.setOwner b, n⟩ =
      some ({ m with ownerId := E.id t }, ⟨.setCnt b, n⟩) := rfl
  have hcnt : Hlpt.Robust.act E t {} { m with ownerId := E.id t } ⟨.setCnt b, n⟩ =
      some ({ m with ownerId := E.id t, cnt := 1 },
        ⟨if b then .deadLoad else .lockRet .ok, n⟩) := rfl
  have hm₁ : SameRobust dead { m with ownerId := E.id t } { mx with ownerId := E.id t } :=
    ⟨hm.lock, rfl, hm.cnt, hm.dead⟩
  exact ⟨_, (robust_step hm hlive hcheck trivial rfl).awake
    ((robust_step hm hlive howner trivial rfl).awake (robust_step hm₁ hlive hcnt trivial rfl)),
    hm.lock, rfl, rfl, hm.dead⟩

/-- The end of `ROBUST_LOCK`, with what `cb` returned. -/
theorem robustTaken_accesses (hlive : dead (E.pid t) = false) (hm : SameRobust dead m mx) :
    ∃ m', RobustRun E t [] (m, ⟨acquired c, n⟩)
        (m', ⟨.lockRet (robustTaken (.ofEnv E t dead) c mx).1, n⟩) ∧
      SameRobust dead m' (robustTaken (.ofEnv E t dead) c mx).2 := by
  unfold robustTaken
  by_cases htaken : c = .ok ∨ c = .eownerdead
  · rw [if_pos htaken]
    by_cases hrec : mx.ownerId = NOTRECOVERABLE_ID
    · rw [if_pos hrec]
      have hcheck : ∀ b, Hlpt.Robust.act E t {} m ⟨.taken b, n⟩ =
          some (m, ⟨.lockRet .enotrecoverable, n⟩) := by
        intro b
        simp only [Hlpt.Robust.act, if_pos (hm.ownerId.trans hrec)]
      rcases htaken with rfl | rfl
      · exact ⟨m, robust_step hm hlive (hcheck false) trivial rfl, hm⟩
      · exact ⟨m, robust_step hm hlive (hcheck true) trivial rfl, hm⟩
    · rw [if_neg hrec]
      rcases htaken with rfl | rfl
      · obtain ⟨m', hrun, hm'⟩ := setOwner_robust (n := n) (b := false) hlive hm hrec
        exact ⟨m', hrun, hm'⟩
      · obtain ⟨m₁, hrun, hm₁⟩ := setOwner_robust (n := n) (b := true) hlive hm hrec
        have hload : Hlpt.Robust.act E t {} m₁ ⟨.deadLoad, n⟩ =
            some (m₁, ⟨.deadStore (m₁.lock ||| LLL_DEAD_OWNER), n⟩) := rfl
        have hstore : Hlpt.Robust.act E t {} m₁ ⟨.deadStore (m₁.lock ||| LLL_DEAD_OWNER), n⟩ =
            some ({ m₁ with lock := m₁.lock ||| LLL_DEAD_OWNER }, ⟨.lockRet .eownerdead, n⟩) := rfl
        refine ⟨_, hrun.awake ((robust_step hm₁ hlive hload trivial rfl).awake
          (robust_step hm₁ hlive hstore trivial rfl)), ?_, hm₁.ownerId, hm₁.cnt, hm₁.dead⟩
        exact congrArg (· ||| LLL_DEAD_OWNER) hm₁.lock
  · rw [if_neg htaken]
    have hret : acquired c = .lockRet c := by
      cases c <;> first | rfl | simp at htaken
    rw [hret]
    exact ⟨m, .refl _, hm⟩

/-- The thread holds the mutex already. -/
def Holds (E : Env T) (t : T) (mx : Mutex) : Prop :=
  mx.ownerId = E.id t ∧ E.pid t = mx.lock &&& LLL_OWNER_MASK

/-- Where `ROBUST_LOCK` is when its tests found that. -/
def holdsPlace (κ : Kind) (k : LockCall) : Pc :=
  match κ with
  | .recursive => .relockTest
  | .errorcheck => .lockRet .edeadlk
  | .normal => k.acquire

/-- The tests of the owner and of the process. -/
theorem holds_accesses (hlive : dead (E.pid t) = false) (hm : SameRobust dead m mx) :
    (Holds E t mx → RobustRun E t [] (m, ⟨.checkOwner k, n⟩) (m, ⟨holdsPlace E.kind k, n⟩)) ∧
    (¬ Holds E t mx → RobustRun E t [] (m, ⟨.checkOwner k, n⟩) (m, ⟨k.acquire, n⟩)) := by
  have howner : Hlpt.Robust.act E t {} m ⟨.checkOwner k, n⟩ =
      some (m, ⟨if mx.ownerId = E.id t then .checkPid k else k.acquire, n⟩) := by
    rw [← hm.ownerId]
    rfl
  have hpid : Hlpt.Robust.act E t {} m ⟨.checkPid k, n⟩ =
      some (m, ⟨if mx.lock &&& LLL_OWNER_MASK = E.pid t then holdsPlace E.kind k
        else k.acquire, n⟩) := by
    rw [← hm.lock]
    rfl
  constructor
  · rintro ⟨hid, hown⟩
    rw [if_pos hid] at howner
    rw [if_pos hown.symm] at hpid
    exact (robust_step hm hlive howner trivial rfl).awake (robust_step hm hlive hpid trivial rfl)
  · intro hno
    by_cases hid : mx.ownerId = E.id t
    · rw [if_pos hid] at howner
      rw [if_neg fun h => hno ⟨hid, h.symm⟩] at hpid
      exact (robust_step hm hlive howner trivial rfl).awake (robust_step hm hlive hpid trivial rfl)
    · rw [if_neg hid] at howner
      exact robust_step hm hlive howner trivial rfl

/-- What `ROBUST_LOCK` does after its first test. -/
theorem robustLock_cases {self : Self} {cb : Mutex → Option (Code × Mutex)}
    (hE : SameRobustAttr E a) (hid : self.id = E.id t) (hpid : self.pid = E.pid t)
    (hrec : mx.ownerId ≠ NOTRECOVERABLE_ID) (h : robustLock self a cb mx = some (c, mx')) :
    (Holds E t mx ∧ E.kind = .recursive ∧ relock mx = (c, mx')) ∨
    (Holds E t mx ∧ E.kind = .errorcheck ∧ c = .edeadlk ∧ mx' = mx) ∨
    ((Holds E t mx → E.kind = .normal) ∧ ∃ c₀ m₀, cb mx = some (c₀, m₀) ∧
      robustTaken self c₀ m₀ = (c, mx')) := by
  unfold robustLock at h
  rw [if_neg hrec, hid, hpid, hE.type] at h
  have hcb : ∀ {r : Option (Code × Mutex)}, (cb mx).map (fun r => robustTaken self r.1 r.2) = r →
      r = some (c, mx') → ∃ c₀ m₀, cb mx = some (c₀, m₀) ∧ robustTaken self c₀ m₀ = (c, mx') := by
    rintro r rfl hr
    obtain ⟨⟨c₀, m₀⟩, h₀, hend⟩ := Option.map_eq_some_iff.mp hr
    exact ⟨c₀, m₀, h₀, hend⟩
  by_cases hown : Holds E t mx
  · obtain ⟨howner, hword⟩ := hown
    simp only [howner, ← hword, true_and] at h
    cases hκ : E.kind with
    | recursive =>
        rw [if_pos (by rw [hκ]; rfl)] at h
        exact .inl ⟨⟨howner, hword⟩, rfl, Option.some.inj h⟩
    | errorcheck =>
        rw [if_neg (by rw [hκ]; decide), if_pos (by rw [hκ]; rfl)] at h
        cases h
        exact .inr (.inl ⟨⟨howner, hword⟩, rfl, rfl, rfl⟩)
    | normal =>
        rw [if_neg (by rw [hκ]; decide), if_neg (by rw [hκ]; decide)] at h
        exact .inr (.inr ⟨fun _ => rfl, hcb rfl h⟩)
  · rw [if_neg fun h => hown ⟨h.1, h.2.1⟩, if_neg fun h => hown ⟨h.1, h.2.1⟩] at h
    exact .inr (.inr ⟨fun h => absurd h hown, hcb rfl h⟩)

/-- The three ways to lock a robust mutex are `ROBUST_LOCK`. -/
theorem lockCall_robust {self : Self} (ha : a.mtxType = .robust) :
    lockCall self a (ownCall k) naps mx = robustLock self a (cbCall self k naps) mx := by
  cases k with
  | lock =>
      unfold lockCall ownCall pthreadMutexLock
      simp only [ha]
      rfl
  | trylock =>
      unfold lockCall ownCall pthreadMutexTrylock
      simp only [ha]
      rfl
  | timedlock tsp =>
      unfold lockCall ownCall pthreadMutexTimedlock
      simp only [ha]
      rfl

/-- The three ways to lock a robust mutex. -/
theorem robust_lock_accesses (hE : SameRobustAttr E a) (hlive : dead (E.pid t) = false)
    (hm : SameRobust dead m mx)
    (h : lockCall (.ofEnv E t dead) a (ownCall k) naps mx = some (c, mx')) :
    RobustCall E t dead naps (m, ⟨.checkUnrecoverable k, n⟩) ⟨.lockRet c, n⟩ mx' := by
  rw [lockCall_robust hE.robust] at h
  have hcheck : Hlpt.Robust.act E t {} m ⟨.checkUnrecoverable k, n⟩ =
      some (m, ⟨if mx.ownerId = NOTRECOVERABLE_ID then .lockRet .enotrecoverable
        else .checkOwner k, n⟩) := by
    rw [← hm.ownerId]
    rfl
  refine .after (robust_step hm hlive hcheck trivial rfl) ?_
  by_cases hrec : mx.ownerId = NOTRECOVERABLE_ID
  · unfold robustLock at h
    rw [if_pos hrec] at h
    cases h
    rw [if_pos hrec]
    exact .awake (.refl _) hm
  · rw [if_neg hrec]
    obtain ⟨hmine, hother⟩ := holds_accesses (k := k) (n := n) hlive hm
    rcases robustLock_cases hE rfl rfl hrec h with
      ⟨hown, hκ, hrelock⟩ | ⟨hown, hκ, rfl, rfl⟩ | ⟨hnormal, c₀, m₀, hcb, htaken⟩
    · have hrun := hmine hown
      rw [hκ] at hrun
      obtain ⟨m', hrest, hm'⟩ := robust_relock_accesses (n := n) hlive hm
      rw [hrelock] at hrest hm'
      exact .awake (hrun.awake hrest) hm'
    · have hrun := hmine hown
      rw [hκ] at hrun
      exact .awake hrun hm
    -- The word is asked for, by a thread that does not hold it or does not look.
    · have hrun : RobustRun E t [] (m, ⟨.checkOwner k, n⟩) (m, ⟨k.acquire, n⟩) := by
        by_cases hown : Holds E t mx
        · have hrun := hmine hown
          rwa [hnormal hown] at hrun
        · exact hother hown
      refine .after hrun (.before (cbCall_accesses hlive hcb hm) fun m₁ hm₁ => ?_)
      have htail := robustTaken_accesses (c := c₀) (n := n) hlive hm₁
      rwa [htaken] at htail

/-- A lock that does not sleep is what its thread does alone. -/
theorem robust_lock_alone (hE : SameRobustAttr E a) (hlive : dead (E.pid t) = false)
    (hm : SameRobust dead m mx)
    (h : lockCall (.ofEnv E t dead) a (ownCall k) [] mx = some (c, mx')) :
    ∃ cs m', (Hlpt.Robust.exec E).alone t cs (m, ⟨.checkUnrecoverable k, n⟩) =
      some (m', ⟨.lockRet c, n⟩) ∧ SameRobust dead m' mx' := by
  obtain ⟨used, hused, m', hrun, hm'⟩ := robust_lock_accesses (n := n) hE hlive hm h
  obtain rfl := List.prefix_nil.mp hused
  obtain ⟨cs, hcs⟩ := hrun.alone
  exact ⟨cs, m', hcs, hm'⟩

/-- The release of the word at the end of `pthread_mutex_unlock`. -/
theorem lllRobustUnlock_accesses (hlive : dead (E.pid t) = false) (hm : SameRobust dead m mx) :
    ∃ m', RobustRun E t [] (m, ⟨.unWord, n⟩) (m', ⟨.unRet .ok, n⟩) ∧
      SameRobust dead m' (lllRobustUnlock mx) := by
  have hend : SameRobust dead ({ m with lock := 0, taker := none } : Mem T) (lllRobustUnlock mx) :=
    ⟨rfl, hm.ownerId, hm.cnt, hm.dead⟩
  by_cases hwaiters : m.lock &&& LLL_WAITERS ≠ 0
  · have hload : Hlpt.Robust.act E t {} m ⟨.unWord, n⟩ = some (m, ⟨.unSetWake, n⟩) := by
      simp only [Hlpt.Robust.act, if_pos hwaiters]
    have hstore : Hlpt.Robust.act E t {} m ⟨.unSetWake, n⟩ =
        some ({ m with lock := 0, taker := none }, ⟨.unRet .ok, n⟩) := rfl
    exact ⟨_, (robust_step hm hlive hload trivial rfl).awake
      (robust_step hm hlive hstore trivial rfl), hend⟩
  · have hload : Hlpt.Robust.act E t {} m ⟨.unWord, n⟩ = some (m, ⟨.unCas m.lock, n⟩) := by
      simp only [Hlpt.Robust.act, if_neg hwaiters]
    have hcas : Hlpt.Robust.act E t {} m ⟨.unCas m.lock, n⟩ =
        some ({ m with lock := 0, taker := none }, ⟨.unRet .ok, n⟩) := if_pos rfl
    exact ⟨_, (robust_step hm hlive hload trivial rfl).awake
      (robust_step hm hlive hcas trivial rfl), hend⟩

/-- The last unlock gives up the owner, or the mutex, and then releases the word. -/
theorem unlockLast_accesses (hlive : dead (E.pid t) = false) (hm : SameRobust dead m mx) :
    ∃ m', RobustRun E t [] (m, ⟨.unDead, n⟩) (m', ⟨.unRet .ok, n⟩) ∧
      SameRobust dead m' (lllRobustUnlock { mx with
        ownerId := if mx.lock &&& LLL_DEAD_OWNER ≠ 0 then NOTRECOVERABLE_ID else 0 }) := by
  have hdead : Hlpt.Robust.act E t {} m ⟨.unDead, n⟩ =
      some (m, ⟨.unSetOwner (if mx.lock &&& LLL_DEAD_OWNER ≠ 0 then NOTRECOVERABLE_ID else 0),
        n⟩) := by
    rw [← hm.lock]
    rfl
  generalize (if mx.lock &&& LLL_DEAD_OWNER ≠ 0 then NOTRECOVERABLE_ID else 0) = v at hdead ⊢
  have howner : Hlpt.Robust.act E t {} m ⟨.unSetOwner v, n⟩ =
      some ({ m with ownerId := v }, ⟨.unWord, n⟩) := rfl
  have hm₁ : SameRobust dead { m with ownerId := v } { mx with ownerId := v } :=
    ⟨hm.lock, rfl, hm.cnt, hm.dead⟩
  obtain ⟨m', hrun, hm'⟩ := lllRobustUnlock_accesses (E := E) (t := t) (n := n) hlive hm₁
  exact ⟨m', (robust_step hm hlive hdead trivial rfl).awake
    ((robust_step hm hlive howner trivial rfl).awake hrun), hm'⟩

/-- `pthread_mutex_unlock` of a robust mutex -/
theorem robust_unlock_accesses (hE : SameRobustAttr E a) (hlive : dead (E.pid t) = false)
    (hm : SameRobust dead m mx) (h : pthreadMutexUnlock (.ofEnv E t dead) a mx = (c, mx')) :
    ∃ m', RobustRun E t [] (m, ⟨.unUnrecoverable, n⟩) (m', ⟨.unRet c, n⟩) ∧
      SameRobust dead m' mx' := by
  have hcheck : Hlpt.Robust.act E t {} m ⟨.unUnrecoverable, n⟩ =
      some (m, ⟨if mx.ownerId = NOTRECOVERABLE_ID then .unRet .ok else .unOwner, n⟩) := by
    rw [← hm.ownerId]
    rfl
  have howner : Hlpt.Robust.act E t {} m ⟨.unOwner, n⟩ =
      some (m, ⟨if mx.ownerId ≠ E.id t then .unRet .eperm else .unPid, n⟩) := by
    rw [← hm.ownerId]
    rfl
  have hpid : Hlpt.Robust.act E t {} m ⟨.unPid, n⟩ =
      some (m, ⟨if mx.lock &&& LLL_OWNER_MASK ≠ E.pid t then .unRet .eperm else .unLoad, n⟩) := by
    rw [← hm.lock]
    rfl
  have hload : Hlpt.Robust.act E t {} m ⟨.unLoad, n⟩ = some (m, ⟨.unStore mx.cnt, n⟩) := by
    rw [← hm.cnt]
    rfl
  have hstore : Hlpt.Robust.act E t {} m ⟨.unStore mx.cnt, n⟩ =
      some ({ m with cnt := mx.cnt - 1 }, ⟨if mx.cnt - 1 = 0 then .unDead else .unRet .ok, n⟩) :=
    rfl
  have hm₁ : SameRobust dead { m with cnt := mx.cnt - 1 } { mx with cnt := mx.cnt - 1 } :=
    ⟨hm.lock, hm.ownerId, rfl, hm.dead⟩
  have hfirst := robust_step hm hlive hcheck trivial rfl
  unfold pthreadMutexUnlock at h
  simp only [hE.robust] at h
  split at h
  · next hrec =>
      cases h
      rw [if_pos hrec] at hfirst
      exact ⟨m, hfirst, hm⟩
  · next hrec =>
      rw [if_neg hrec] at hfirst
      have hsecond := hfirst.awake (robust_step hm hlive howner trivial rfl)
      split at h
      · next hno =>
          replace hno : mx.ownerId ≠ E.id t ∨ mx.lock &&& LLL_OWNER_MASK ≠ E.pid t := hno
          cases h
          by_cases hid : mx.ownerId ≠ E.id t
          · rw [if_pos hid] at hsecond
            exact ⟨m, hsecond, hm⟩
          · rw [if_neg hid] at hsecond
            rw [if_pos (hno.resolve_left hid)] at hpid
            exact ⟨m, hsecond.awake (robust_step hm hlive hpid trivial rfl), hm⟩
      · next hown =>
          replace hown : ¬ (mx.ownerId ≠ E.id t ∨ mx.lock &&& LLL_OWNER_MASK ≠ E.pid t) := hown
          obtain ⟨hid, hword⟩ := not_or.mp hown
          rw [if_neg hid] at hsecond
          rw [if_neg hword] at hpid
          have hdec := hsecond.awake ((robust_step hm hlive hpid trivial rfl).awake
            ((robust_step hm hlive hload trivial rfl).awake
              (robust_step hm hlive hstore trivial rfl)))
          split at h
          · next hlast =>
              cases h
              rw [if_pos hlast] at hdec
              obtain ⟨m', hrest, hm'⟩ := unlockLast_accesses (E := E) (t := t) (n := n) hlive hm₁
              exact ⟨m', hdec.awake hrest, hm'⟩
          · next hmore =>
              cases h
              rw [if_neg hmore] at hdec
              exact ⟨_, hdec, hm₁⟩

end Hlpt.MutexCall
