import Hlpt.Deadline
import Hlpt.Robust.Model

/-!
# `Hlpt.MutexCall.Model`: whole calls on a mutex of any type

The functions of `mutex.c` for every type of mutex, robust or not, shared or not, as one
call computes them when no other thread moves. Only in a sleep do the others move, and
they may do anything then: each sleep is a `Nap`, with the mutex as the caller finds it
afterwards. A call that needs more naps than it gets has not returned.

`Hlpt.Mutex`, `Hlpt.LowLevelLock` and `Hlpt.Robust` have the same functions access by access,
and `Hlpt.MutexCall.Accesses` and `Hlpt.MutexCall.RobustAccesses` show that they agree.
-/

set_option autoImplicit false

namespace Hlpt.MutexCall

open Hlpt.Robust (LLL_WAITERS LLL_DEAD_OWNER LLL_OWNER_MASK NOTRECOVERABLE_ID)

def PTHREAD_MUTEX_NORMAL : BitVec 32 := 0
def PTHREAD_MUTEX_RECURSIVE : BitVec 32 := 1
def PTHREAD_MUTEX_ERRORCHECK : BitVec 32 := 2
def PTHREAD_MUTEX_ROBUST : BitVec 32 := 0x100

/-- The fields that `pthread_mutex_init` sets for good. -/
structure Attr where
  type : BitVec 32
  flags : BitVec 32
  deriving DecidableEq, Repr

/-- The fields that the calls write. -/
structure Mutex where
  lock : BitVec 32
  ownerId : BitVec 32
  cnt : BitVec 32
  shpid : BitVec 32
  deriving DecidableEq, Repr

/-- The calling thread: `PTHREAD_SELF->id`, `getpid ()`, and what `valid_pid` answers. -/
structure Self where
  id : BitVec 32
  pid : BitVec 32
  validPid : BitVec 32 → Bool

/-- One sleep: the reading of the clock before it, how it ends, and the mutex after it. -/
structure Nap where
  now : Timespec
  ends : KernReturn
  after : Mutex
  deriving DecidableEq, Repr

/-- The cases of `switch (MTX_TYPE (mtxp))`. -/
inductive Case where
  | normal
  | recursive
  | errorcheck
  | robust
  | invalid
  deriving DecidableEq, Repr

namespace Attr

/-- `MTX_TYPE`, and the case that it selects. -/
def mtxType (a : Attr) : Case :=
  let t := a.type ||| (a.flags &&& PTHREAD_MUTEX_ROBUST)
  if t = PTHREAD_MUTEX_NORMAL then .normal
  else if t = PTHREAD_MUTEX_RECURSIVE then .recursive
  else if t = PTHREAD_MUTEX_ERRORCHECK then .errorcheck
  else if t = PTHREAD_MUTEX_NORMAL ||| PTHREAD_MUTEX_ROBUST then .robust
  else if t = PTHREAD_MUTEX_RECURSIVE ||| PTHREAD_MUTEX_ROBUST then .robust
  else if t = PTHREAD_MUTEX_ERRORCHECK ||| PTHREAD_MUTEX_ROBUST then .robust
  else .invalid

/-- `flags & GSYNC_SHARED` -/
def shared (a : Attr) : Bool := a.flags &&& GSYNC_SHARED != 0

end Attr

/-! ### `lowlevellock.c` -/

/-- The loop of `lll_lock`, and with a deadline of `__lll_abstimed_lock`. -/
def lllLockLoop (d : Option Timespec) : List Nap → Mutex → Option (Code × Mutex)
  | naps, m =>
      if m.lock = 0 then some (.ok, { m with lock := 2 })
      else if d.any Timespec.badNsec then some (.einval, { m with lock := 2 })
      else
        match naps with
        | [] => none
        | n :: naps =>
            if d.any (expired · n.now) then some (.etimedout, { m with lock := 2 })
            else if d.isSome && n.ends = .timedout then some (.etimedout, n.after)
            else lllLockLoop d naps n.after

/-- The two functions, from their first test on. -/
def lllAcquire (d : Option Timespec) (naps : List Nap) (m : Mutex) : Option (Code × Mutex) :=
  if m.lock = 0 then some (.ok, { m with lock := 1 }) else lllLockLoop d naps m

/-- `lll_lock` -/
def lllLock : List Nap → Mutex → Option (Code × Mutex) := lllAcquire none

/-- `lll_abstimed_lock` -/
def lllAbstimedLock (tsp : Timespec) : List Nap → Mutex → Option (Code × Mutex) :=
  lllAcquire (some tsp)

/-- `lll_trylock` -/
def lllTrylock (m : Mutex) : Code × Mutex :=
  if m.lock = 0 then (.ok, { m with lock := 1 }) else (.ebusy, m)

/-- `lll_unlock`. Whether it wakes a thread is left out. -/
def lllUnlock (m : Mutex) : Mutex := { m with lock := 0 }

/-- The second loop of `lll_robust_lock`, and with a deadline of
`__lll_robust_abstimed_lock`. -/
def lllRobustLoop (self : Self) (d : Option Timespec) :
    List Nap → Mutex → Option (Code × Mutex)
  | naps, m =>
      if m.lock = 0 then some (.ok, { m with lock := self.pid ||| LLL_WAITERS })
      else if self.validPid (m.lock &&& LLL_OWNER_MASK) then
        match naps with
        | [] => none
        | n :: naps =>
            if d.any (expired · n.now) then some (.etimedout, m)
            else if d.isSome && n.ends = .timedout then some (.etimedout, n.after)
            else lllRobustLoop self d naps n.after
      else some (.eownerdead, { m with lock := self.pid ||| LLL_WAITERS })

/-- The two functions, from their first loop on. -/
def lllRobustAcquire (self : Self) (d : Option Timespec) (naps : List Nap) (m : Mutex) :
    Option (Code × Mutex) :=
  if m.lock = 0 then some (.ok, { m with lock := self.pid })
  else lllRobustLoop self d naps { m with lock := m.lock ||| LLL_WAITERS }

/-- `lll_robust_lock` -/
def lllRobustLock (self : Self) : List Nap → Mutex → Option (Code × Mutex) :=
  lllRobustAcquire self none

/-- `lll_robust_abstimed_lock` -/
def lllRobustAbstimedLock (self : Self) (tsp : Timespec) :
    List Nap → Mutex → Option (Code × Mutex) :=
  lllRobustAcquire self (some tsp)

/-- `lll_robust_trylock` -/
def lllRobustTrylock (self : Self) (m : Mutex) : Code × Mutex :=
  if m.lock = 0 then (.ok, { m with lock := self.pid })
  else if self.validPid (m.lock &&& LLL_OWNER_MASK) then (.ebusy, m)
  else (.eownerdead, { m with lock := self.pid })

/-- `lll_robust_unlock`. Whether it wakes a thread is left out. -/
def lllRobustUnlock (m : Mutex) : Mutex := { m with lock := 0 }

/-! ### `mutex.c` -/

variable (self : Self) (a : Attr)

/-- `mtx_owned_p` -/
def mtxOwnedP (m : Mutex) : Bool := m.ownerId == self.id && (!a.shared || m.shpid == self.pid)

/-- `mtx_set_owner` -/
def mtxSetOwner (m : Mutex) : Mutex :=
  { m with ownerId := self.id, shpid := if a.shared then self.pid else m.shpid }

/-- A lock of a recursive mutex by its owner. -/
def relock (m : Mutex) : Code × Mutex :=
  if m.cnt + 1 = 0 then (.eagain, m) else (.ok, { m with cnt := m.cnt + 1 })

/-- The end of `ROBUST_LOCK`, with what `cb` returned. -/
def robustTaken (ret : Code) (m : Mutex) : Code × Mutex :=
  if ret = .ok ∨ ret = .eownerdead then
    if m.ownerId = NOTRECOVERABLE_ID then (.enotrecoverable, m)
    else (ret, { m with
      ownerId := self.id
      cnt := 1
      lock := if ret = .eownerdead then m.lock ||| LLL_DEAD_OWNER else m.lock })
  else (ret, m)

/-- `ROBUST_LOCK` -/
def robustLock (cb : Mutex → Option (Code × Mutex)) (m : Mutex) : Option (Code × Mutex) :=
  if m.ownerId = NOTRECOVERABLE_ID then some (.enotrecoverable, m)
  else if m.ownerId = self.id ∧ self.pid = m.lock &&& LLL_OWNER_MASK ∧
      a.type = PTHREAD_MUTEX_RECURSIVE then some (relock m)
  else if m.ownerId = self.id ∧ self.pid = m.lock &&& LLL_OWNER_MASK ∧
      a.type = PTHREAD_MUTEX_ERRORCHECK then some (.edeadlk, m)
  else (cb m).map fun r => robustTaken self r.1 r.2

/-- `pthread_mutex_lock` -/
def pthreadMutexLock (naps : List Nap) (m : Mutex) : Option (Code × Mutex) :=
  match a.mtxType with
  | .normal => (lllLock naps m).map fun r => (.ok, r.2)
  | .recursive =>
      if mtxOwnedP self a m then some (relock m)
      else (lllLock naps m).map fun r => (.ok, { mtxSetOwner self a r.2 with cnt := 1 })
  | .errorcheck =>
      if mtxOwnedP self a m then some (.edeadlk, m)
      else (lllLock naps m).map fun r => (.ok, mtxSetOwner self a r.2)
  | .robust => robustLock self a (lllRobustLock self naps) m
  | .invalid => some (.einval, m)

/-- `pthread_mutex_trylock` -/
def pthreadMutexTrylock (m : Mutex) : Option (Code × Mutex) :=
  match a.mtxType with
  | .normal => some (lllTrylock m)
  | .recursive =>
      if mtxOwnedP self a m then some (relock m)
      else
        let r := lllTrylock m
        some (if r.1 = .ok then (.ok, { mtxSetOwner self a r.2 with cnt := 1 }) else r)
  | .errorcheck =>
      if mtxOwnedP self a m then some (.edeadlk, m)
      else
        let r := lllTrylock m
        some (if r.1 = .ok then (.ok, mtxSetOwner self a r.2) else r)
  | .robust => robustLock self a (fun m => some (lllRobustTrylock self m)) m
  | .invalid => some (.einval, m)

/-- `pthread_mutex_timedlock` -/
def pthreadMutexTimedlock (tsp : Timespec) (naps : List Nap) (m : Mutex) :
    Option (Code × Mutex) :=
  match a.mtxType with
  | .normal => lllAbstimedLock tsp naps m
  | .recursive =>
      if mtxOwnedP self a m then some (relock m)
      else (lllAbstimedLock tsp naps m).map fun r =>
        if r.1 = .ok then (.ok, { mtxSetOwner self a r.2 with cnt := 1 }) else r
  | .errorcheck =>
      -- Without `mtx_owned_p`, and so without the process.
      if m.ownerId = self.id then some (.edeadlk, m)
      else (lllAbstimedLock tsp naps m).map fun r =>
        if r.1 = .ok then (.ok, mtxSetOwner self a r.2) else r
  | .robust => robustLock self a (lllRobustAbstimedLock self tsp naps) m
  | .invalid => some (.einval, m)

/-- `pthread_mutex_unlock` -/
def pthreadMutexUnlock (m : Mutex) : Code × Mutex :=
  match a.mtxType with
  | .normal => (.ok, lllUnlock m)
  | .recursive =>
      if mtxOwnedP self a m then
        if m.cnt - 1 = 0 then
          (.ok, lllUnlock { m with cnt := m.cnt - 1, ownerId := 0, shpid := 0 })
        else (.ok, { m with cnt := m.cnt - 1 })
      else (.eperm, m)
  | .errorcheck =>
      if mtxOwnedP self a m then (.ok, lllUnlock { m with ownerId := 0, shpid := 0 })
      else (.eperm, m)
  | .robust =>
      if m.ownerId = NOTRECOVERABLE_ID then (.ok, m)
      else if m.ownerId ≠ self.id ∨ m.lock &&& LLL_OWNER_MASK ≠ self.pid then (.eperm, m)
      else if m.cnt - 1 = 0 then
        (.ok, lllRobustUnlock { m with
          cnt := m.cnt - 1
          ownerId := if m.lock &&& LLL_DEAD_OWNER ≠ 0 then NOTRECOVERABLE_ID else 0 })
      else (.ok, { m with cnt := m.cnt - 1 })
  | .invalid => (.einval, m)

/-! ### The codes -/

variable {self a}
variable {d : Option Timespec} {naps : List Nap} {m m' : Mutex} {c : Code}

/-- Only a deadline makes the loop of a lock fail. -/
theorem lllLockLoop_code (h : lllLockLoop d naps m = some (c, m')) :
    c = .ok ∨ d.isSome ∧ (c = .einval ∨ c = .etimedout) := by
  induction naps generalizing m with
  | nil =>
    rw [lllLockLoop] at h
    split at h
    · cases h
      exact .inl rfl
    · split at h
      · next hbad =>
        cases h
        exact .inr ⟨Option.isSome_of_any hbad, .inl rfl⟩
      · cases h
  | cons n naps ih =>
    rw [lllLockLoop] at h
    split at h
    · cases h
      exact .inl rfl
    · split at h
      · next hbad =>
        cases h
        exact .inr ⟨Option.isSome_of_any hbad, .inl rfl⟩
      · split at h
        · next hexp =>
          cases h
          exact .inr ⟨Option.isSome_of_any hexp, .inr rfl⟩
        · split at h
          · next hends =>
            cases h
            exact .inr ⟨(Bool.and_eq_true_iff.mp hends).1, .inr rfl⟩
          · -- The others have moved, and the loop starts again.
            exact ih h

theorem lllAcquire_code (h : lllAcquire d naps m = some (c, m')) :
    c = .ok ∨ d.isSome ∧ (c = .einval ∨ c = .etimedout) := by
  unfold lllAcquire at h
  split at h
  · cases h
    exact .inl rfl
  · exact lllLockLoop_code h

/-- A robust lock without a deadline returns with the word. -/
theorem lllRobustLoop_code (h : lllRobustLoop self d naps m = some (c, m')) :
    c = .ok ∨ c = .eownerdead ∨ d.isSome ∧ c = .etimedout := by
  induction naps generalizing m with
  | nil =>
    rw [lllRobustLoop] at h
    split at h
    · cases h
      exact .inl rfl
    · split at h
      · cases h
      · cases h
        exact .inr (.inl rfl)
  | cons n naps ih =>
    rw [lllRobustLoop] at h
    split at h
    · cases h
      exact .inl rfl
    · split at h
      · split at h
        · next hexp =>
          cases h
          exact .inr (.inr ⟨Option.isSome_of_any hexp, rfl⟩)
        · split at h
          · next hends =>
            cases h
            exact .inr (.inr ⟨(Bool.and_eq_true_iff.mp hends).1, rfl⟩)
          · exact ih h
      · cases h
        exact .inr (.inl rfl)

theorem lllRobustAcquire_code (h : lllRobustAcquire self d naps m = some (c, m')) :
    c = .ok ∨ c = .eownerdead ∨ d.isSome ∧ c = .etimedout := by
  unfold lllRobustAcquire at h
  split at h
  · cases h
    exact .inl rfl
  · exact lllRobustLoop_code h

theorem lllTrylock_code (m : Mutex) : (lllTrylock m).1 = .ok ∨ (lllTrylock m).1 = .ebusy := by
  unfold lllTrylock
  split
  · exact .inl rfl
  · exact .inr rfl

theorem lllRobustTrylock_code (m : Mutex) : (lllRobustTrylock self m).1 = .ok ∨
    (lllRobustTrylock self m).1 = .ebusy ∨ (lllRobustTrylock self m).1 = .eownerdead := by
  unfold lllRobustTrylock
  split
  · exact .inl rfl
  · split
    · exact .inr (.inl rfl)
    · exact .inr (.inr rfl)

theorem relock_code (m : Mutex) : (relock m).1 = .ok ∨ (relock m).1 = .eagain := by
  unfold relock
  split
  · exact .inr rfl
  · exact .inl rfl

/-- What `cb` returned is returned, unless the mutex is not recoverable. -/
theorem robustTaken_code (ret : Code) (m : Mutex) :
    (robustTaken self ret m).1 = ret ∨ (robustTaken self ret m).1 = .enotrecoverable := by
  unfold robustTaken
  split
  · split
    · exact .inr rfl
    · exact .inl rfl
  · exact .inl rfl

/-- The codes of `ROBUST_LOCK` are its own and those of `cb`. -/
theorem robustLock_code {cb : Mutex → Option (Code × Mutex)}
    (h : robustLock self a cb m = some (c, m')) :
    c = .enotrecoverable ∨ c = .ok ∨ c = .eagain ∨
      (c = .edeadlk ∧ m.ownerId = self.id ∧ self.pid = m.lock &&& LLL_OWNER_MASK) ∨
      ∃ m₀, cb m = some (c, m₀) := by
  unfold robustLock at h
  split at h
  · cases h
    exact .inl rfl
  · split at h
    · have hc : (relock m).1 = c := congrArg Prod.fst (Option.some.inj h)
      rcases relock_code m with hr | hr
      · exact .inr (.inl (hc.symm.trans hr))
      · exact .inr (.inr (.inl (hc.symm.trans hr)))
    · split at h
      · next hown =>
        cases h
        exact .inr (.inr (.inr (.inl ⟨rfl, hown.1, hown.2.1⟩)))
      · obtain ⟨⟨c₀, m₀⟩, hcb, htaken⟩ := Option.map_eq_some_iff.mp h
        have hc : (robustTaken self c₀ m₀).1 = c := congrArg Prod.fst htaken
        rcases robustTaken_code c₀ m₀ with hr | hr
        · obtain rfl := hr.symm.trans hc
          exact .inr (.inr (.inr (.inr ⟨m₀, hcb⟩)))
        · exact .inl (hc.symm.trans hr)

end Hlpt.MutexCall
