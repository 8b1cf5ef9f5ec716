import Hlpt.Timeouts.Model

/-!
# `Hlpt.Timeouts.Invalid`: timeouts with invalid nanoseconds

A timed operation looks at its timeout only when it has to wait. It then compares `tv_nsec`
with its range, and fails with `EINVAL`. So do the two timed locks of a read-write lock and
the timed lock of a mutex that is not robust.

Three places differ. `sem_timedwait` makes the comparison and sets `errno` to `ETIMEDOUT`.
`__lll_robust_abstimed_lock` and `pthread_timedjoin_np` never make it, and pass the timeout
to `compute_reltime`.

* `Rejects`: what every operation should do with an invalid timeout.
* `invalid_timeout_iff`: in which states each of the five does.
* `timeouts_not_rejected`: a semaphore and a robust mutex.
-/

set_option autoImplicit false

namespace Hlpt.Timeouts

open Hlpt.Lib
open Hlpt.MutexCall (Self Mutex Attr pthreadMutexTimedlock lllAbstimedLock
  lllRobustAbstimedLock PTHREAD_MUTEX_RECURSIVE PTHREAD_MUTEX_ERRORCHECK)
open Hlpt.Rwlock (RWLOCK_UNOWNED RWLOCK_RO)
open Hlpt.Robust (LLL_WAITERS LLL_OWNER_MASK NOTRECOVERABLE_ID)

universe u v w

/-- An operation on the object `s` treats an invalid timeout as it should. When it can
complete without a nap, it does the same as with a valid one. When it cannot, it fails with
`EINVAL`, without a nap and without a change of the view. -/
structure Rejects {σ : Type u} {η : Type v} {ν : Type w} (op : TimedOp σ η ν) (s : σ) : Prop where
  complete : ∀ bad valid naps r, bad.badNsec = true → valid.badNsec = false →
    op.call valid [] s = some r → op.call bad naps s = some r
  reject : ∀ bad valid naps, bad.badNsec = true → valid.badNsec = false →
    op.call valid [] s = none →
      ∃ s', op.call bad naps s = some (.einval, s') ∧ op.view s' = op.view s

/-- A lock of a robust mutex waits: a process that is alive has the word, and the call does
not end with what `ROBUST_LOCK` tests first. -/
structure RobustWaits (th : Self) (a : Attr) (m : Mutex) : Prop where
  robust : a.mtxType = .robust
  recoverable : m.ownerId ≠ NOTRECOVERABLE_ID
  other : ¬ (m.ownerId = th.id ∧ th.pid = m.lock &&& LLL_OWNER_MASK ∧
    (a.type = PTHREAD_MUTEX_RECURSIVE ∨ a.type = PTHREAD_MUTEX_ERRORCHECK))
  taken : m.lock ≠ 0
  alive : th.validPid (m.lock &&& LLL_OWNER_MASK) = true

/-- A join waits: the thread has not terminated, and the call does not fail at once. -/
structure JoinWaits {T : Type u} (joiner : T) (selfJoinpt th : Option T) (d : Joinee T) :
    Prop where
  valid : th ≠ none
  other : th ≠ some joiner ∧ selfJoinpt ≠ th
  unjoined : d.joinpt = none
  alive : d.id ≠ 0

variable {σ : Type u} {η : Type v} {ν : Type w} {op : TimedOp σ η ν} {s : σ}

/-! ### The three ways to treat a timeout -/

/-- The timeout does not matter. -/
theorem Rejects.of_const {r : Code × σ} (h : ∀ tsp naps, op.call tsp naps s = some r) :
    Rejects op s := by
  constructor
  · intro bad valid naps r' _ _ hvalid
    rw [h, ← h valid [], hvalid]
  · intro bad valid naps _ _ hvalid
    rw [h] at hvalid
    cases hvalid

/-- A valid timeout leads to a nap, and an invalid one to `EINVAL`. -/
theorem Rejects.of_checked
    (hvalid : ∀ valid, valid.badNsec = false → op.call valid [] s = none)
    (hbad : ∀ bad naps, bad.badNsec = true →
      ∃ s', op.call bad naps s = some (.einval, s') ∧ op.view s' = op.view s) :
    Rejects op s := by
  constructor
  · intro bad valid naps r _ hv h
    rw [hvalid valid hv] at h
    cases h
  · intro bad valid naps hb _ _
    exact hbad bad naps hb

/-- A valid timeout leads to a nap, and an invalid one to something other than `EINVAL`. -/
theorem not_rejects (hvalid : ∀ valid, valid.badNsec = false → op.call valid [] s = none)
    (hbad : ∀ bad s', bad.badNsec = true → op.call bad [] s ≠ some (.einval, s')) :
    ¬ Rejects op s := by
  intro h
  have hv : Timespec.badNsec ⟨0, 0⟩ = false := by decide
  have hb : Timespec.badNsec ⟨0, -1⟩ = true := by decide
  obtain ⟨s', hcall, -⟩ := h.reject ⟨0, -1⟩ ⟨0, 0⟩ [] hb hv (hvalid _ hv)
  exact hbad _ s' hb hcall

/-! ### The mutexes -/

section Mutex

variable {self : Self} {a : Attr} {m : Mutex}

/-- A free word is taken. -/
theorem lllAbstimedLock_free (h : m.lock = 0) (tsp : Timespec) (naps : List MutexCall.Nap) :
    lllAbstimedLock tsp naps m = some (.ok, { m with lock := 1 }) := by
  rw [lllAbstimedLock, MutexCall.lllAcquire, if_pos h]

/-- For a word that is taken, the timeout is checked before the wait. -/
theorem lllAbstimedLock_taken (h : m.lock ≠ 0) (tsp : Timespec) (naps : List MutexCall.Nap) :
    (tsp.badNsec = true → lllAbstimedLock tsp naps m = some (.einval, { m with lock := 2 })) ∧
      (tsp.badNsec = false → lllAbstimedLock tsp [] m = none) := by
  unfold lllAbstimedLock MutexCall.lllAcquire
  rw [if_neg h, if_neg h]
  constructor
  · intro hbad
    unfold MutexCall.lllLockLoop
    rw [if_neg h, Option.any_some, if_pos hbad]
  · intro hvalid
    unfold MutexCall.lllLockLoop
    rw [if_neg h, Option.any_some, hvalid]
    rfl

/-- A robust word that is free, or of a process that has died, is taken. -/
theorem lllRobustAbstimedLock_done
    (h : m.lock = 0 ∨ self.validPid (m.lock &&& LLL_OWNER_MASK) = false) :
    ∃ r, ∀ tsp naps, lllRobustAbstimedLock self tsp naps m = some r := by
  have hwait := Robust.waiters_ne_zero m.lock
  have hmask := Robust.waiters_masked m.lock
  by_cases h0 : m.lock = 0
  · exact ⟨_, fun tsp naps => if_pos h0⟩
  · have hdead := h.resolve_left h0
    refine ⟨(.eownerdead, { m with lock := self.pid ||| LLL_WAITERS }), fun tsp naps => ?_⟩
    unfold lllRobustAbstimedLock MutexCall.lllRobustAcquire MutexCall.lllRobustLoop
    simp only [h0, hwait, hmask, hdead, Bool.false_eq_true, if_false]

/-- For any other word the lock waits, whatever the timeout. -/
theorem lllRobustAbstimedLock_waits (h : m.lock ≠ 0)
    (halive : self.validPid (m.lock &&& LLL_OWNER_MASK) = true) (tsp : Timespec) :
    lllRobustAbstimedLock self tsp [] m = none := by
  have hwait := Robust.waiters_ne_zero m.lock
  have hmask := Robust.waiters_masked m.lock
  unfold lllRobustAbstimedLock MutexCall.lllRobustAcquire MutexCall.lllRobustLoop
  simp only [h, hwait, hmask, halive, if_true, if_false]

/-- What a call does with a word that it has taken. -/
def onOk (g : Mutex → Mutex) (r : Code × Mutex) : Code × Mutex :=
  if r.1 = .ok then (.ok, g r.2) else r

/-- A call that takes the word with `lll_abstimed_lock`. -/
theorem rejects_of_abstimed (g : Mutex → Mutex) (hk : a.mtxType ≠ .robust)
    (hcall : ∀ tsp naps,
      pthreadMutexTimedlock self a tsp naps m = (lllAbstimedLock tsp naps m).map (onOk g)) :
    Rejects (mutexOp self a) m := by
  by_cases h : m.lock = 0
  · apply Rejects.of_const (r := (.ok, g { m with lock := 1 }))
    intro tsp naps
    refine (hcall tsp naps).trans ?_
    rw [lllAbstimedLock_free h, Option.map_some, onOk, if_pos rfl]
  · refine Rejects.of_checked (fun valid hvalid => ?_) fun bad naps hbad => ?_
    · refine (hcall valid []).trans ?_
      rw [(lllAbstimedLock_taken h valid []).2 hvalid, Option.map_none]
    · refine ⟨{ m with lock := 2 }, (hcall bad naps).trans ?_, ?_⟩
      · rw [(lllAbstimedLock_taken h bad naps).1 hbad]
        rfl
      · -- The word says now that somebody waits, and the view does not tell.
        have hheld : (m.lock != 0) = true := bne_iff_ne.mpr h
        have hplain : (a.mtxType == MutexCall.Case.robust) = false := beq_eq_false_iff_ne.mpr hk
        simp only [mutexOp, Mutex.view, hk, if_false, hplain, Bool.false_and, hheld]
        rfl

/-- `ROBUST_LOCK` with a deadline waits in these states. -/
theorem RobustWaits.timedlock (h : RobustWaits self a m) (tsp : Timespec) :
    pthreadMutexTimedlock self a tsp [] m = none := by
  have hrec : ¬ (m.ownerId = self.id ∧ self.pid = m.lock &&& LLL_OWNER_MASK ∧
      a.type = PTHREAD_MUTEX_RECURSIVE) := fun ⟨hid, hpid, ht⟩ => h.other ⟨hid, hpid, .inl ht⟩
  have herr : ¬ (m.ownerId = self.id ∧ self.pid = m.lock &&& LLL_OWNER_MASK ∧
      a.type = PTHREAD_MUTEX_ERRORCHECK) := fun ⟨hid, hpid, ht⟩ => h.other ⟨hid, hpid, .inr ht⟩
  unfold pthreadMutexTimedlock
  simp only [h.robust]
  rw [MutexCall.robustLock, if_neg h.recoverable, if_neg hrec, if_neg herr,
    lllRobustAbstimedLock_waits h.taken h.alive, Option.map_none]

/-- In all other states it does not look at the deadline. -/
theorem robust_done (hk : a.mtxType = .robust) (h : ¬ RobustWaits self a m) :
    ∃ r, ∀ tsp naps, pthreadMutexTimedlock self a tsp naps m = some r := by
  have hcall (tsp : Timespec) (naps : List MutexCall.Nap) :
      pthreadMutexTimedlock self a tsp naps m =
        MutexCall.robustLock self a (lllRobustAbstimedLock self tsp naps) m := by
    unfold pthreadMutexTimedlock
    simp only [hk]
  by_cases hrec : m.ownerId = NOTRECOVERABLE_ID
  · exact ⟨_, fun tsp naps => (hcall tsp naps).trans (if_pos hrec)⟩
  · by_cases hrecursive : m.ownerId = self.id ∧ self.pid = m.lock &&& LLL_OWNER_MASK ∧
        a.type = PTHREAD_MUTEX_RECURSIVE
    · refine ⟨MutexCall.relock m, fun tsp naps => (hcall tsp naps).trans ?_⟩
      rw [MutexCall.robustLock, if_neg hrec, if_pos hrecursive]
    · by_cases herror : m.ownerId = self.id ∧ self.pid = m.lock &&& LLL_OWNER_MASK ∧
          a.type = PTHREAD_MUTEX_ERRORCHECK
      · refine ⟨(.edeadlk, m), fun tsp naps => (hcall tsp naps).trans ?_⟩
        rw [MutexCall.robustLock, if_neg hrec, if_neg hrecursive, if_pos herror]
      · -- The call comes to `__lll_robust_abstimed_lock`.
        have hdone : m.lock = 0 ∨ self.validPid (m.lock &&& LLL_OWNER_MASK) = false := by
          by_contra hnot
          obtain ⟨htaken, halive⟩ := not_or.mp hnot
          refine h ⟨hk, hrec, fun hown => ?_, htaken, by simpa using halive⟩
          exact hown.2.2.elim (fun ht => hrecursive ⟨hown.1, hown.2.1, ht⟩)
            fun ht => herror ⟨hown.1, hown.2.1, ht⟩
        obtain ⟨r, hr⟩ := lllRobustAbstimedLock_done hdone
        refine ⟨MutexCall.robustTaken self r.1 r.2, fun tsp naps => (hcall tsp naps).trans ?_⟩
        rw [MutexCall.robustLock, if_neg hrec, if_neg hrecursive, if_neg herror, hr,
          Option.map_some]

/-- `pthread_mutex_timedlock`, for each type of mutex. -/
theorem mutex_rejects_iff : Rejects (mutexOp self a) m ↔ ¬ RobustWaits self a m := by
  cases hk : a.mtxType with
  | robust =>
      constructor
      · intro hrejects hwaits
        refine not_rejects (fun valid _ => hwaits.timedlock valid) (fun bad s' _ hcall => ?_)
          hrejects
        rw [show (mutexOp self a).call bad [] m = none from hwaits.timedlock bad] at hcall
        cases hcall
      · intro h
        obtain ⟨r, hr⟩ := robust_done hk h
        exact Rejects.of_const hr
  | normal =>
      refine iff_of_true ?_ fun h => by simp [h.robust] at hk
      apply rejects_of_abstimed id (by simp [hk])
      intro tsp naps
      have hid : onOk id = id := by
        funext r
        unfold onOk
        split
        · next hok => exact Prod.ext hok.symm rfl
        · rfl
      simp [pthreadMutexTimedlock, hk, hid]
  | recursive =>
      refine iff_of_true ?_ fun h => by simp [h.robust] at hk
      by_cases hown : MutexCall.mtxOwnedP self a m = true
      · apply Rejects.of_const (r := MutexCall.relock m)
        intro tsp naps
        simp [mutexOp, pthreadMutexTimedlock, hk, hown]
      · refine rejects_of_abstimed (fun m => { MutexCall.mtxSetOwner self a m with cnt := 1 })
          (by simp [hk]) fun tsp naps => ?_
        simp only [pthreadMutexTimedlock, hk, hown, Bool.false_eq_true, if_false]
        rfl
  | errorcheck =>
      refine iff_of_true ?_ fun h => by simp [h.robust] at hk
      by_cases hown : m.ownerId = self.id
      · apply Rejects.of_const (r := (.edeadlk, m))
        intro tsp naps
        simp [mutexOp, pthreadMutexTimedlock, hk, hown]
      · refine rejects_of_abstimed (MutexCall.mtxSetOwner self a) (by simp [hk])
          fun tsp naps => ?_
        simp only [pthreadMutexTimedlock, hk, hown, if_false]
        rfl
  | invalid =>
      refine iff_of_true ?_ fun h => by simp [h.robust] at hk
      apply Rejects.of_const (r := (.einval, m))
      intro tsp naps
      simp [mutexOp, pthreadMutexTimedlock, hk]

end Mutex

/-! ### The read-write locks -/

section Rwlock

variable (self : Caller) (shared : Bool) (rw : Rwlock)

/-- `pthread_rwlock_timedrdlock`, in every state of the lock. -/
theorem timedrdlock_rejects : Rejects (rdlockOp self shared) rw := by
  by_cases hown : rw.ownedP self shared = true
  · apply Rejects.of_const (r := (.edeadlk, rw))
    intro tsp naps
    exact if_pos hown
  · by_cases hfree : rw.oid &&& PTHREAD_ID_MASK = 0
    · refine Rejects.of_const (r := (.ok, rw.rdTaken)) fun tsp naps => (if_neg hown).trans ?_
      unfold Rwlock.timedrdLoop
      exact if_pos hfree
    · -- A writer holds the lock.
      refine Rejects.of_checked (fun valid hvalid => (if_neg hown).trans ?_) fun bad naps hbad =>
        ⟨rw, (if_neg hown).trans ?_, rfl⟩
      · unfold Rwlock.timedrdLoop
        rw [if_neg hfree, hvalid]
        rfl
      · unfold Rwlock.timedrdLoop
        rw [if_neg hfree, if_pos hbad]

/-- `pthread_rwlock_timedwrlock`, in every state of the lock. -/
theorem timedwrlock_rejects : Rejects (wrlockOp self shared) rw := by
  by_cases hown : rw.ownedP self shared = true
  · apply Rejects.of_const (r := (.edeadlk, rw))
    intro tsp naps
    exact if_pos hown
  · by_cases hfree : rw.oid = RWLOCK_UNOWNED
    · refine Rejects.of_const (r := (.ok, Rwlock.setown self shared { rw with oid := self.id }))
        fun tsp naps => (if_neg hown).trans ?_
      unfold Rwlock.timedwrLoop
      exact if_pos hfree
    · refine Rejects.of_checked (fun valid hvalid => (if_neg hown).trans ?_) fun bad naps hbad =>
        ⟨rw, (if_neg hown).trans ?_, rfl⟩
      · unfold Rwlock.timedwrLoop
        rw [if_neg hfree, hvalid]
        rfl
      · unfold Rwlock.timedwrLoop
        rw [if_neg hfree, if_pos hbad]

end Rwlock

/-! ### The semaphore -/

/-- `sem_timedwait`: only the fast path is right, since the loop is entered with the count 0
and says `ETIMEDOUT`. -/
theorem sem_rejects_iff (s : Sem) : Rejects semOp s ↔ s.val ≠ 0 := by
  constructor
  · intro hrejects h0
    refine not_rejects (fun valid hvalid => ?_) (fun bad s' hbad hcall => ?_) hrejects
    · show Sem.semTimedwait valid [] s = none
      unfold Sem.semTimedwait Sem.timedwaitLoop
      simp [h0, hvalid]
    · have hout : Sem.semTimedwait bad [] s = some (.etimedout, s) := by
        obtain ⟨val, nw⟩ := s
        obtain rfl : val = 0 := h0
        unfold Sem.semTimedwait Sem.timedwaitLoop
        simp [hbad, Sem.cleanup]
      cases hout.symm.trans hcall
  · intro hne
    exact Rejects.of_const fun tsp naps => if_pos hne

/-! ### The join -/

section Join

variable {T : Type u} [DecidableEq T] {self : T} {selfJoinpt th : Option T} {d : Joinee T}

/-- A join that has to wait does not check the timeout. -/
theorem JoinWaits.timedjoin (h : JoinWaits self selfJoinpt th d) (retpp : Bool) (tsp : Timespec) :
    Joinee.pthreadTimedjoinNp self selfJoinpt th retpp tsp [] d = none := by
  obtain ⟨pt, rfl⟩ := Option.ne_none_iff_exists'.mp h.valid
  have hself : ¬ (pt = self ∨ selfJoinpt = some pt) := fun hor =>
    hor.elim (fun heq => h.other.1 (congrArg some heq)) h.other.2
  unfold Joinee.pthreadTimedjoinNp Joinee.timedjoinLoop
  simp only [h.unjoined, hself, h.alive, reduceCtorEq, ne_eq, not_true_eq_false, if_false]

/-- Any other join does not look at the timeout. -/
theorem join_done (h : ¬ JoinWaits self selfJoinpt th d) (retpp : Bool) : ∃ r, ∀ tsp naps,
    Joinee.pthreadTimedjoinNp self selfJoinpt th retpp tsp naps d = some r := by
  cases th with
  | none => exact ⟨(.esrch, d), fun tsp naps => rfl⟩
  | some pt =>
      unfold Joinee.pthreadTimedjoinNp
      by_cases hdet : d.joinpt = some pt
      · exact ⟨(.einval, d), fun tsp naps => if_pos hdet⟩
      · by_cases hself : pt = self ∨ selfJoinpt = some pt
        · refine ⟨(.edeadlk, d), fun tsp naps => ?_⟩
          simp only [if_neg hdet, if_pos hself]
        · by_cases hjoin : d.joinpt = none
          · -- The thread has terminated.
            have hid : d.id = 0 := by
              by_contra hne
              refine h ⟨Option.some_ne_none pt, ⟨fun heq => ?_, fun heq => ?_⟩, hjoin, hne⟩
              · exact hself (.inl (Option.some.inj heq))
              · exact hself (.inr heq)
            refine ⟨(.ok, { d with joinpt := some self }.collect retpp), fun tsp naps => ?_⟩
            simp only [if_neg hdet, if_neg hself, not_not.mpr hjoin, if_false]
            unfold Joinee.timedjoinLoop
            exact if_pos hid
          · refine ⟨(.einval, d), fun tsp naps => ?_⟩
            simp only [if_neg hdet, if_neg hself, ne_eq, hjoin, not_false_eq_true, if_true]

/-- `pthread_timedjoin_np` -/
theorem join_rejects_iff {retpp : Bool} :
    Rejects (joinOp self selfJoinpt th retpp) d ↔ ¬ JoinWaits self selfJoinpt th d := by
  constructor
  · intro hrejects hwaits
    refine not_rejects (fun valid _ => hwaits.timedjoin retpp valid)
      (fun bad s' _ hcall => ?_) hrejects
    cases (hwaits.timedjoin retpp bad).symm.trans hcall
  · intro h
    obtain ⟨r, hr⟩ := join_done h retpp
    exact Rejects.of_const hr

end Join

/-! ### The five operations -/

/-- Which operations treat an invalid timeout as they should, and in which states of their
objects. -/
theorem invalid_timeout_iff {T : Type u} [DecidableEq T] :
    (∀ self a m, Rejects (mutexOp self a) m ↔ ¬ RobustWaits self a m) ∧
      (∀ self shared rw, Rejects (rdlockOp self shared) rw) ∧
      (∀ self shared rw, Rejects (wrlockOp self shared) rw) ∧
      (∀ s, Rejects semOp s ↔ s.val ≠ 0) ∧
      ∀ (self : T) selfJoinpt th retpp d,
        Rejects (joinOp self selfJoinpt th retpp) d ↔ ¬ JoinWaits self selfJoinpt th d :=
  ⟨fun _ _ _ => mutex_rejects_iff, timedrdlock_rejects, timedwrlock_rejects, sem_rejects_iff,
    fun _ _ _ _ _ => join_rejects_iff⟩

/-- A robust mutex of process 7, which is alive. -/
def robustTaken : Mutex := ⟨7, 3, 1, 0⟩

/-- A semaphore with the count 0: `errno` is `ETIMEDOUT`. A robust mutex of another process:
the call sleeps for its 25 milliseconds, and gives up. -/
theorem timeouts_not_rejected : Timespec.badNsec ⟨10, -1⟩ = true ∧
    Sem.semTimedwait ⟨10, -1⟩ [] ⟨0, 0⟩ = some (.etimedout, ⟨0, 0⟩) ∧ ¬ Rejects semOp ⟨0, 0⟩ ∧
    pthreadMutexTimedlock ⟨4, 8, fun _ => true⟩ ⟨0, 0x101⟩ ⟨10, -1⟩
      [⟨⟨9, 0⟩, .timedout, { robustTaken with lock := 7 ||| LLL_WAITERS }⟩] robustTaken =
        some (.etimedout, { robustTaken with lock := 7 ||| LLL_WAITERS }) := by
  refine ⟨by decide, by decide, fun h => ?_, by decide⟩
  obtain ⟨s', hcall, -⟩ := h.reject ⟨10, -1⟩ ⟨10, 0⟩ [] (by decide) (by decide) (by decide)
  have hout : Sem.semTimedwait ⟨10, -1⟩ [] ⟨0, 0⟩ = some (.etimedout, ⟨0, 0⟩) := by decide
  cases hout.symm.trans hcall

end Hlpt.Timeouts
