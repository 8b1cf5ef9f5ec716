import Hlpt.Lib.Bits
import Hlpt.MutexCall.Model

/-!
# `Hlpt.MutexCall.Agree`: the three ways to lock a mutex

`pthread_mutex_lock`, `trylock` and `timedlock` each have their own copy of the case
analysis on the type of the mutex. When a lock need not sleep, the three of them have the
same code and leave the same `View` of the mutex: the owner, the count and the mark, but
not how the word says that somebody waits.

One copy has a shorter test than the others. In the errorcheck case `timedlock` compares
the id of the owner and not its process.

* `lock_calls_agree_iff`: in which states the three agree.
* `timedlock_edeadlk`: a thread of another process with the id of the owner.
-/

set_option autoImplicit false

namespace Hlpt.MutexCall

open Hlpt.Lib
open Hlpt.Robust (LLL_WAITERS LLL_DEAD_OWNER LLL_OWNER_MASK NOTRECOVERABLE_ID)

/-- What a mutex says about its owner. -/
structure View where
  process : BitVec 32
  thread : BitVec 32
  cnt : BitVec 32
  inconsistent : Bool
  held : Bool
  deriving DecidableEq, Repr

/-- The owner's process is in the word of a robust mutex, and in `__shpid` of the others. -/
def Mutex.view (a : Attr) (m : Mutex) : View where
  process := if a.mtxType = .robust then m.lock &&& LLL_OWNER_MASK else m.shpid
  thread := m.ownerId
  cnt := m.cnt
  inconsistent := a.mtxType == .robust && m.lock &&& LLL_DEAD_OWNER != 0
  held := m.lock != 0

/-- The thread is the owner that the mutex names. A private mutex does not name a process. -/
def Owns (self : Self) (a : Attr) (m : Mutex) : Prop :=
  (m.view a).thread = self.id ∧
    ((m.view a).process = self.pid ∨ a.mtxType ≠ .robust ∧ a.shared = false)

/-- The three calls agree on this mutex. -/
structure Agree (th : Self) (a : Attr) (m : Mutex) : Prop where
  trylock : ∀ c m', pthreadMutexLock th a [] m = some (c, m') →
    ∃ m₁, pthreadMutexTrylock th a m = some (c, m₁) ∧ m₁.view a = m'.view a
  timedlock : ∀ tsp c m', tsp.badNsec = false → pthreadMutexLock th a [] m = some (c, m') →
    ∃ m₂, pthreadMutexTimedlock th a tsp [] m = some (c, m₂) ∧ m₂.view a = m'.view a
  lock_edeadlk : ∀ naps m', pthreadMutexLock th a naps m = some (.edeadlk, m') → Owns th a m
  trylock_edeadlk : ∀ m', pthreadMutexTrylock th a m = some (.edeadlk, m') → Owns th a m
  timedlock_edeadlk : ∀ tsp naps m', tsp.badNsec = false →
    pthreadMutexTimedlock th a tsp naps m = some (.edeadlk, m') → Owns th a m

/-- An errorcheck mutex of another process, whose owner has the id of this thread. -/
def Namesake (self : Self) (a : Attr) (m : Mutex) : Prop :=
  a.mtxType = .errorcheck ∧ a.shared = true ∧ m.ownerId = self.id ∧ m.shpid ≠ self.pid

variable {self : Self} {a : Attr} {m m' : Mutex} {naps : List Nap} {d : Option Timespec}
  {tsp : Timespec} {c : Code}

/-! ### The low-level locks -/

/-- A lock without a sleep finds the word free. -/
theorem lllLock_nil (h : lllLock [] m = some (c, m')) :
    m.lock = 0 ∧ m' = { m with lock := 1 } := by
  unfold lllLock lllAcquire lllLockLoop at h
  split at h
  · next h0 => exact ⟨h0, (Prod.mk.inj (Option.some.inj h)).2.symm⟩
  · simp at h

/-- A robust lock without a sleep finds the word free or of a dead process. -/
theorem lllRobustLock_nil (h : lllRobustLock self [] m = some (c, m')) :
    (m.lock = 0 ∧ c = .ok ∧ m' = { m with lock := self.pid }) ∨
      (m.lock ≠ 0 ∧ self.validPid (m.lock &&& LLL_OWNER_MASK) = false ∧ c = .eownerdead ∧
        m' = { m with lock := self.pid ||| LLL_WAITERS }) := by
  have hwait := Robust.waiters_ne_zero m.lock
  have hmask := Robust.waiters_masked m.lock
  unfold lllRobustLock lllRobustAcquire lllRobustLoop at h
  by_cases h0 : m.lock = 0
  · rw [if_pos h0] at h
    cases h
    exact .inl ⟨h0, rfl, rfl⟩
  · simp only [h0, hwait, hmask, if_false] at h
    by_cases hvalid : self.validPid (m.lock &&& LLL_OWNER_MASK) = true
    · -- The owner lives, and the lock sleeps.
      rw [if_pos hvalid] at h
      cases h
    · rw [if_neg hvalid] at h
      cases h
      exact .inr ⟨h0, by simpa using hvalid, rfl, rfl⟩

/-- Without a sleep, the deadline of a robust lock does not matter. -/
theorem lllRobustAbstimedLock_nil (h : lllRobustLock self [] m = some (c, m')) :
    lllRobustAbstimedLock self tsp [] m = some (c, m') := by
  have hwait := Robust.waiters_ne_zero m.lock
  have hmask := Robust.waiters_masked m.lock
  unfold lllRobustAbstimedLock lllRobustAcquire lllRobustLoop
  rcases lllRobustLock_nil h with ⟨h0, rfl, rfl⟩ | ⟨h0, hdead, rfl, rfl⟩
  · exact if_pos h0
  · simp only [h0, hwait, hmask, hdead, Bool.false_eq_true, if_false]

/-- No lock of `lowlevellock.c` returns `EDEADLK`. -/
theorem lllAcquire_ne_edeadlk : lllAcquire d naps m ≠ some (.edeadlk, m') := by
  intro h
  rcases lllAcquire_code h with hc | ⟨-, hc | hc⟩ <;> cases hc

theorem lllRobustAcquire_ne_edeadlk : lllRobustAcquire self d naps m ≠ some (.edeadlk, m') := by
  intro h
  rcases lllRobustAcquire_code h with hc | hc | ⟨-, hc⟩ <;> cases hc

/-! ### The robust case -/

/-- What `ROBUST_LOCK` returns with one `cb`, it returns with another one that does as much. -/
theorem robustLock_mono {cb cb' : Mutex → Option (Code × Mutex)} {r : Code × Mutex}
    (hcb : ∀ r, cb m = some r → cb' m = some r) (h : robustLock self a cb m = some r) :
    robustLock self a cb' m = some r := by
  unfold robustLock at h ⊢
  split at h
  · next hrec => rw [if_pos hrec, h]
  · next hrec =>
    rw [if_neg hrec]
    split at h
    · next hown => rw [if_pos hown, h]
    · next hown =>
      rw [if_neg hown]
      split at h
      · next hdead => rw [if_pos hdead, h]
      · next hdead =>
        obtain ⟨r₀, hr₀, htaken⟩ := Option.map_eq_some_iff.mp h
        rw [if_neg hdead, hcb r₀ hr₀, Option.map_some, htaken]

/-- `ROBUST_LOCK` with `trylock` has the result that it has with a lock that did not sleep. -/
theorem robustLock_trylock (hr : a.mtxType = .robust)
    (h : robustLock self a (lllRobustLock self []) m = some (c, m')) :
    ∃ m₁, robustLock self a (fun m => some (lllRobustTrylock self m)) m = some (c, m₁) ∧
      m₁.view a = m'.view a := by
  unfold robustLock at h ⊢
  split at h
  · next hrec => exact ⟨m', by rw [if_pos hrec]; exact h, rfl⟩
  · next hrec =>
    rw [if_neg hrec]
    split at h
    · next hown => exact ⟨m', by rw [if_pos hown]; exact h, rfl⟩
    · next hown =>
      rw [if_neg hown]
      split at h
      · next hdead => exact ⟨m', by rw [if_pos hdead]; exact h, rfl⟩
      · next hdead =>
        rw [if_neg hdead]
        obtain ⟨⟨c₀, m₀⟩, hcb, htaken⟩ := Option.map_eq_some_iff.mp h
        rcases lllRobustLock_nil hcb with ⟨h0, rfl, rfl⟩ | ⟨hne, hvalid, rfl, rfl⟩
        · refine ⟨m', ?_, rfl⟩
          rw [Option.map_some, lllRobustTrylock, if_pos h0]
          exact congrArg some htaken
        · -- The word that the lock leaves differs in `LLL_WAITERS`.
          have hview : ∀ v, (v ||| LLL_DEAD_OWNER) &&& LLL_DEAD_OWNER = LLL_DEAD_OWNER :=
            fun v => or_and_self v _
          have hzero : ∀ v, (v ||| LLL_DEAD_OWNER != 0#32) = true := by
            intro v
            rw [bne_iff_ne]
            exact fun h0 => absurd (BitVec.or_eq_zero_iff.mp h0).2 (by decide)
          simp only [lllRobustTrylock, if_neg hne, hvalid, Bool.false_eq_true, if_false,
            Option.map_some]
          simp only [robustTaken, hrec, or_true, if_true, if_false, Prod.mk.injEq] at htaken ⊢
          obtain ⟨rfl, rfl⟩ := htaken
          refine ⟨_, rfl, ?_⟩
          simp [Mutex.view, hr, hview, hzero, Robust.deadOwner_masked, Robust.waiters_masked]

/-- `ROBUST_LOCK` returns `EDEADLK` only to the owner. -/
theorem robustLock_edeadlk {cb : Mutex → Option (Code × Mutex)} (hr : a.mtxType = .robust)
    (hcb : ∀ m', cb m ≠ some (.edeadlk, m'))
    (h : robustLock self a cb m = some (.edeadlk, m')) : Owns self a m := by
  rcases robustLock_code h with hc | hc | hc | ⟨-, hid, hpid⟩ | ⟨m₀, hm⟩
  · cases hc
  · cases hc
  · cases hc
  · -- The owner's process is the one in the word.
    have hproc : (m.view a).process = self.pid := by simp [Mutex.view, hr, hpid]
    exact ⟨hid, .inl hproc⟩
  · exact absurd hm (hcb m₀)

/-! ### The three calls -/

theorem mtxOwnedP_iff : mtxOwnedP self a m = true ↔
    m.ownerId = self.id ∧ (a.shared = false ∨ m.shpid = self.pid) := by
  simp [mtxOwnedP]

/-- The id says enough about the owner, unless the thread is its namesake. -/
theorem mtxOwnedP_iff_id (hn : ¬ Namesake self a m) (hk : a.mtxType = .errorcheck) :
    mtxOwnedP self a m = true ↔ m.ownerId = self.id := by
  rw [mtxOwnedP_iff]
  refine ⟨fun hown => hown.1, fun hid => ⟨hid, ?_⟩⟩
  cases hs : a.shared with
  | false => exact .inl rfl
  | true =>
    right
    by_contra hp
    exact hn ⟨hk, hs, hid, hp⟩

/-- The owner of a mutex that is not robust. -/
theorem owns_of_ownedP (hr : a.mtxType ≠ .robust) (h : mtxOwnedP self a m = true) :
    Owns self a m := by
  obtain ⟨hid, hshared⟩ := mtxOwnedP_iff.mp h
  refine ⟨hid, ?_⟩
  rcases hshared with hs | hp
  · exact .inr ⟨hr, hs⟩
  · exact .inl (by simp [Mutex.view, hr, hp])

/-- When a lock does not sleep, `trylock` does the same. -/
theorem trylock_agrees (h : pthreadMutexLock self a [] m = some (c, m')) :
    ∃ m₁, pthreadMutexTrylock self a m = some (c, m₁) ∧ m₁.view a = m'.view a := by
  unfold pthreadMutexLock at h
  unfold pthreadMutexTrylock
  cases hk : a.mtxType with
  | invalid => exact ⟨m', by simpa [hk] using h, rfl⟩
  | robust =>
    simp only [hk] at h ⊢
    exact robustLock_trylock hk h
  | normal =>
    simp only [hk] at h ⊢
    obtain ⟨⟨c₀, m₀⟩, hlock, heq⟩ := Option.map_eq_some_iff.mp h
    obtain ⟨hfree, rfl⟩ := lllLock_nil hlock
    exact ⟨m', by rw [lllTrylock, if_pos hfree]; exact congrArg some heq, rfl⟩
  | recursive | errorcheck =>
    simp only [hk] at h ⊢
    split at h
    · next hown => exact ⟨m', by rw [if_pos hown]; exact h, rfl⟩
    · next hown =>
      obtain ⟨⟨c₀, m₀⟩, hlock, heq⟩ := Option.map_eq_some_iff.mp h
      obtain ⟨hfree, rfl⟩ := lllLock_nil hlock
      refine ⟨m', ?_, rfl⟩
      simp only [if_neg hown, lllTrylock, if_pos hfree, if_true]
      exact congrArg some heq

/-- When a lock does not sleep, `timedlock` does the same, unless it takes the thread for
its namesake. -/
theorem timedlock_agrees (hn : ¬ Namesake self a m)
    (h : pthreadMutexLock self a [] m = some (c, m')) :
    ∃ m₂, pthreadMutexTimedlock self a tsp [] m = some (c, m₂) ∧ m₂.view a = m'.view a := by
  unfold pthreadMutexLock at h
  unfold pthreadMutexTimedlock
  cases hk : a.mtxType with
  | invalid => exact ⟨m', by simpa [hk] using h, rfl⟩
  | robust =>
    simp only [hk] at h ⊢
    exact ⟨m', robustLock_mono (fun r hr => lllRobustAbstimedLock_nil hr) h, rfl⟩
  | normal =>
    simp only [hk] at h ⊢
    obtain ⟨⟨c₀, m₀⟩, hlock, heq⟩ := Option.map_eq_some_iff.mp h
    obtain ⟨hfree, rfl⟩ := lllLock_nil hlock
    refine ⟨m', ?_, rfl⟩
    rw [lllAbstimedLock, lllAcquire, if_pos hfree]
    exact congrArg some heq
  | recursive =>
    simp only [hk] at h ⊢
    split at h
    · next hown => exact ⟨m', by rw [if_pos hown]; exact h, rfl⟩
    · next hown =>
      obtain ⟨⟨c₀, m₀⟩, hlock, heq⟩ := Option.map_eq_some_iff.mp h
      obtain ⟨hfree, rfl⟩ := lllLock_nil hlock
      refine ⟨m', ?_, rfl⟩
      simp only [if_neg hown, lllAbstimedLock, lllAcquire, if_pos hfree, Option.map_some, if_true]
      exact congrArg some heq
  | errorcheck =>
    simp only [hk] at h ⊢
    have hid := mtxOwnedP_iff_id hn hk
    split at h
    · next hown => exact ⟨m', by rw [if_pos (hid.mp hown)]; exact h, rfl⟩
    · next hown =>
      obtain ⟨⟨c₀, m₀⟩, hlock, heq⟩ := Option.map_eq_some_iff.mp h
      obtain ⟨hfree, rfl⟩ := lllLock_nil hlock
      refine ⟨m', ?_, rfl⟩
      simp only [if_neg (mt hid.mpr hown), lllAbstimedLock, lllAcquire, if_pos hfree,
        Option.map_some, if_true]
      exact congrArg some heq

/-- Every call that returns `EDEADLK` has compared the owner, `timedlock` only its id. -/
theorem lock_edeadlk (h : pthreadMutexLock self a naps m = some (.edeadlk, m')) :
    Owns self a m := by
  unfold pthreadMutexLock at h
  cases hk : a.mtxType with
  | invalid => simp [hk] at h
  | robust =>
    simp only [hk] at h
    exact robustLock_edeadlk hk (fun m' => lllRobustAcquire_ne_edeadlk) h
  | normal =>
    simp only [hk] at h
    obtain ⟨r, -, heq⟩ := Option.map_eq_some_iff.mp h
    cases heq
  | recursive =>
    simp only [hk] at h
    split at h
    · next hown => exact owns_of_ownedP (by simp [hk]) hown
    · obtain ⟨r, -, heq⟩ := Option.map_eq_some_iff.mp h
      cases heq
  | errorcheck =>
    simp only [hk] at h
    split at h
    · next hown => exact owns_of_ownedP (by simp [hk]) hown
    · obtain ⟨r, -, heq⟩ := Option.map_eq_some_iff.mp h
      cases heq

theorem trylock_edeadlk (h : pthreadMutexTrylock self a m = some (.edeadlk, m')) :
    Owns self a m := by
  have htry : (lllTrylock m).1 ≠ .edeadlk := by
    intro hc
    rcases lllTrylock_code m with h0 | h0 <;> cases hc.symm.trans h0
  have hrob : ∀ m', some (lllRobustTrylock self m) ≠ some (.edeadlk, m') := by
    intro m' hc
    have hcode : (lllRobustTrylock self m).1 = .edeadlk := congrArg Prod.fst (Option.some.inj hc)
    rcases lllRobustTrylock_code m with h0 | h0 | h0 <;> cases hcode.symm.trans h0
  unfold pthreadMutexTrylock at h
  cases hk : a.mtxType with
  | invalid => simp [hk] at h
  | robust =>
    simp only [hk] at h
    exact robustLock_edeadlk hk hrob h
  | normal =>
    simp only [hk] at h
    exact absurd (congrArg Prod.fst (Option.some.inj h)) htry
  | recursive | errorcheck =>
    simp only [hk] at h
    split at h
    · next hown => exact owns_of_ownedP (by simp [hk]) hown
    · have h' := Option.some.inj h
      split at h'
      · cases h'
      · exact absurd (congrArg Prod.fst h') htry

theorem timedlock_edeadlk (hn : ¬ Namesake self a m)
    (h : pthreadMutexTimedlock self a tsp naps m = some (.edeadlk, m')) : Owns self a m := by
  have htaken : ∀ f : Mutex → Mutex, (lllAbstimedLock tsp naps m).map
      (fun r => if r.1 = .ok then (.ok, f r.2) else r) ≠ some (.edeadlk, m') := by
    intro f hf
    obtain ⟨r, hr, heq⟩ := Option.map_eq_some_iff.mp hf
    split at heq
    · cases heq
    · exact lllAcquire_ne_edeadlk (heq ▸ hr)
  unfold pthreadMutexTimedlock at h
  cases hk : a.mtxType with
  | invalid => simp [hk] at h
  | robust =>
    simp only [hk] at h
    exact robustLock_edeadlk hk (fun m' => lllRobustAcquire_ne_edeadlk) h
  | normal =>
    simp only [hk] at h
    exact absurd h lllAcquire_ne_edeadlk
  | recursive =>
    simp only [hk] at h
    split at h
    · next hown => exact owns_of_ownedP (by simp [hk]) hown
    · exact absurd h (htaken fun m => { mtxSetOwner self a m with cnt := 1 })
  | errorcheck =>
    simp only [hk] at h
    split at h
    · next hid =>
      -- The test of the id alone: a thread that is no namesake has the process as well.
      refine owns_of_ownedP (by simp [hk]) ((mtxOwnedP_iff_id hn hk).mpr hid)
    · exact absurd h (htaken _)

/-- The namesake of the owner gets `EDEADLK` from `timedlock`. -/
theorem timedlock_namesake (tsp : Timespec) (naps : List Nap) (hn : Namesake self a m) :
    pthreadMutexTimedlock self a tsp naps m = some (.edeadlk, m) ∧ ¬ Owns self a m := by
  obtain ⟨hk, hs, hid, hp⟩ := hn
  constructor
  · unfold pthreadMutexTimedlock
    simp only [hk, hid, if_true]
  · rintro ⟨-, hproc | ⟨-, hpriv⟩⟩
    · exact hp (by simpa [Mutex.view, hk] using hproc)
    · simp [hs] at hpriv

/-- For every mutex, every state of its fields and every calling thread: the three calls
agree when a lock does not sleep, and return `EDEADLK` only to the owner, if and only if the
thread is not the namesake of the owner of an errorcheck mutex. -/
theorem lock_calls_agree_iff (self : Self) (a : Attr) (m : Mutex) :
    Agree self a m ↔ ¬ Namesake self a m := by
  constructor
  · intro h hn
    obtain ⟨hcode, hnot⟩ := timedlock_namesake default [] hn
    exact hnot (h.timedlock_edeadlk default [] m rfl hcode)
  · intro hn
    exact
      { trylock := fun c m' h => trylock_agrees h
        timedlock := fun tsp c m' _ h => timedlock_agrees hn h
        lock_edeadlk := fun naps m' h => lock_edeadlk h
        trylock_edeadlk := fun m' h => trylock_edeadlk h
        timedlock_edeadlk := fun tsp naps m' _ h => timedlock_edeadlk hn h }

/-- The thread 5 of the process 8 locks a shared errorcheck mutex. The thread 5 of the
process 9 then gets `EDEADLK` from `timedlock`, where `trylock` says `EBUSY`. -/
theorem timedlock_edeadlk_namesake :
    let a : Attr := ⟨PTHREAD_MUTEX_ERRORCHECK, GSYNC_SHARED⟩
    let m : Mutex := ⟨1, 5, 0, 8⟩
    let self : Self := ⟨5, 9, fun _ => true⟩
    pthreadMutexLock ⟨5, 8, fun _ => true⟩ a [] ⟨0, 0, 0, 0⟩ = some (.ok, m) ∧
      pthreadMutexTimedlock self a ⟨200, 0⟩ [] m = some (.edeadlk, m) ∧
      pthreadMutexTrylock self a m = some (.ebusy, m) ∧ ¬ Agree self a m := by
  intro a m self
  have htimed : pthreadMutexTimedlock self a ⟨200, 0⟩ [] m = some (.edeadlk, m) := by decide
  refine ⟨by decide, htimed, by decide, ?_⟩
  intro h
  have howns := h.timedlock_edeadlk ⟨200, 0⟩ [] m (by decide) htimed
  revert howns
  unfold Owns
  decide

end Hlpt.MutexCall
