import Hlpt.CondCall.Model

/-!
# `Hlpt.CondCall.Result`: what `pthread_cond_timedwait` returns

The result of the wait and the result of the relock meet at the end of the call. The code
takes the one of the relock only when the wait ended with `KERN_SUCCESS`. So a timeout hides
an error of the relock, and of a wait that ended otherwise the kernel code goes to the caller.

* `unlock_error`: an unlock that fails leaves the mutex as it is.
* `relock_code`: the codes of a relock.
* `timedwait_returns`: the call returns when its relock does.
* `timedwait_result_iff`: in which calls the result is right.
* `timedwait_owner_dead`: a timeout that hides `EOWNERDEAD`.
-/

set_option autoImplicit false

namespace Hlpt.CondCall

open Hlpt.MutexCall
open Hlpt.Robust (LLL_WAITERS LLL_OWNER_MASK NOTRECOVERABLE_ID)

variable {A : Args} {w : World} {naps : List Nap} {tsp : Timespec} {c : Cond} {m : Mutex}
  {d : Done}

/-- How the wait of the call ends, by the condvar's own clock. -/
def ownWait (A : Args) (w : World) (tsp : Timespec) (c : Cond) : KernReturn × ℕ :=
  w.abstimedWait A.ptr (c.couple A).lo tsp ((c.couple A).flags &&& GSYNC_SHARED) (c.couple A).clk

/-- The relock of the call, after a wait of `ms` milliseconds. -/
def relockAfter (A : Args) (w : World) (naps : List Nap) (m : Mutex) (ms : ℕ) :
    Option (Code × Mutex) :=
  pthreadMutexCondLock A naps (w.mutex ms (pthreadMutexUnlock A.self A.attr m).2)

/-- The relock returns, if the call gets to it. -/
def Relocks (A : Args) (w : World) (naps : List Nap) (tsp : Timespec) (c : Cond) (m : Mutex) :
    Prop :=
  tsp.badNsec = false → (pthreadMutexUnlock A.self A.attr m).1 = .ok →
    (relockAfter A w naps m (ownWait A w tsp c).2).isSome

/-- The result that a timed wait should have. -/
structure Reported (A : Args) (w : World) (naps : List Nap) (tsp : Timespec) (c : Cond)
    (m : Mutex) (d : Done) : Prop where
  invalid : tsp.badNsec = true → d.ret = .code .einval ∧ d.cond.hi = c.hi ∧ d.mutex = m
  unlock : ∀ e, tsp.badNsec = false → (pthreadMutexUnlock A.self A.attr m).1 = e → e ≠ .ok →
    d.ret = .code e ∧ d.cond.hi = c.hi ∧ d.mutex = m
  relock : ∀ r m', tsp.badNsec = false → (pthreadMutexUnlock A.self A.attr m).1 = .ok →
    relockAfter A w naps m (ownWait A w tsp c).2 = some (r, m') →
    d.mutex = m' ∧ d.ret = .code (if r ≠ .ok then r
      else if (ownWait A w tsp c).1 = .timedout then .etimedout else .ok)
  not_kern : ∀ k, d.ret ≠ .kern k

/-- The call does not wait; or its wait ends with a wake, or with its timeout, and then the
relock succeeds. -/
def Plain (A : Args) (w : World) (naps : List Nap) (tsp : Timespec) (c : Cond) (m : Mutex) :
    Prop :=
  tsp.badNsec = true ∨ (pthreadMutexUnlock A.self A.attr m).1 ≠ .ok ∨
    (ownWait A w tsp c).1 = .success ∨
    (ownWait A w tsp c).1 = .timedout ∧
      ∃ m', relockAfter A w naps m (ownWait A w tsp c).2 = some (.ok, m')

/-! ### The unlock and the relock -/

/-- An unlock that fails leaves the mutex as it is. -/
theorem unlock_error {self : Self} {a : Attr} (h : (pthreadMutexUnlock self a m).1 ≠ .ok) :
    (pthreadMutexUnlock self a m).2 = m := by
  unfold pthreadMutexUnlock at h ⊢
  cases hk : a.mtxType <;> simp only [hk] at h ⊢
  case normal => exact absurd rfl h
  case recursive =>
    split
    · next hown =>
      rw [if_pos hown] at h
      split at h <;> exact absurd rfl h
    · rfl
  case errorcheck =>
    split
    · next hown =>
      rw [if_pos hown] at h
      exact absurd rfl h
    · rfl
  case robust =>
    split
    · rfl
    · next hrec =>
      rw [if_neg hrec] at h
      split
      · rfl
      · next hown =>
        rw [if_neg hown] at h
        split at h <;> exact absurd rfl h

/-- A relock does not return `ETIMEDOUT`. -/
theorem lock_code {self : Self} {a : Attr} {r : Code × Mutex}
    (h : pthreadMutexLock self a naps m = some r) : r.1 ≠ .etimedout := by
  intro hr
  have hrelock : (relock m).1 ≠ .etimedout := by
    intro hc
    rcases relock_code m with h0 | h0 <;> cases hc.symm.trans h0
  rcases r with ⟨c, m'⟩
  obtain rfl : c = .etimedout := hr
  unfold pthreadMutexLock at h
  cases hk : a.mtxType with
  | normal =>
    simp only [hk] at h
    obtain ⟨r₀, -, heq⟩ := Option.map_eq_some_iff.mp h
    cases heq
  | recursive =>
    simp only [hk] at h
    split at h
    · exact hrelock (congrArg Prod.fst (Option.some.inj h))
    · obtain ⟨r₀, -, heq⟩ := Option.map_eq_some_iff.mp h
      cases heq
  | errorcheck =>
    simp only [hk] at h
    split at h
    · cases h
    · obtain ⟨r₀, -, heq⟩ := Option.map_eq_some_iff.mp h
      cases heq
  | robust =>
    simp only [hk] at h
    rcases robustLock_code h with hc | hc | hc | ⟨hc, -⟩ | ⟨m₀, hm⟩
    · cases hc
    · cases hc
    · cases hc
    · cases hc
    · -- Without a deadline the lock of the word does not time out.
      rcases lllRobustAcquire_code hm with hc | hc | ⟨hd, -⟩
      · cases hc
      · cases hc
      · cases hd
  | invalid =>
    simp only [hk] at h
    cases h

theorem condLock_code {r : Code × Mutex} (h : pthreadMutexCondLock A naps m = some r) :
    r.1 ≠ .etimedout := by
  obtain ⟨r₀, hr₀, rfl⟩ := Option.map_eq_some_iff.mp h
  have hr := lock_code hr₀
  split
  · simp
  · exact hr

/-! ### The call -/

/-- What the code makes of the two results. -/
theorem afterWait_ret (r : Code) (k : KernReturn) (c : Cond) :
    (if (afterWait k c).1 = .code .ok then .code r else (afterWait k c).1) =
      match k with
      | .success => Ret.code r
      | .timedout => .code .etimedout
      | k => .kern k := by
  cases k <;> rfl

/-- The condvar after the wait, and the code that the loop leaves. -/
def waited (A : Args) (w : World) (c : Cond) (k : KernReturn × ℕ) : Ret × Cond :=
  afterWait k.1 (w.cond k.2 { c.couple A with hi := (c.couple A).hi + 1 })

/-- A call that gets to its wait. -/
theorem timedwait_eq (hvalid : tsp.badNsec = false)
    (hunlock : (pthreadMutexUnlock A.self A.attr m).1 = .ok) :
    pthreadCondTimedwait A w naps tsp c m =
      (relockAfter A w naps m (ownWait A w tsp c).2).map fun r =>
        ⟨if (waited A w c (ownWait A w tsp c)).1 = .code .ok then .code r.1
          else (waited A w c (ownWait A w tsp c)).1,
          (waited A w c (ownWait A w tsp c)).2, r.2, timedOutAt (ownWait A w tsp c)⟩ := by
  unfold pthreadCondTimedwait relockAfter
  rw [if_neg (by simp [hvalid])]
  cases hu : pthreadMutexUnlock A.self A.attr m with
  | mk e m₁ =>
    obtain rfl : e = .ok := by simpa [hu] using hunlock
    rfl

/-- What it returns. -/
theorem timedwait_waits (hvalid : tsp.badNsec = false)
    (hunlock : (pthreadMutexUnlock A.self A.attr m).1 = .ok)
    (h : pthreadCondTimedwait A w naps tsp c m = some d) :
    ∃ r, relockAfter A w naps m (ownWait A w tsp c).2 = some (r, d.mutex) ∧
      d.timedOut = timedOutAt (ownWait A w tsp c) ∧
      d.ret = match (ownWait A w tsp c).1 with
        | .success => .code r
        | .timedout => .code .etimedout
        | k => .kern k := by
  rw [timedwait_eq hvalid hunlock] at h
  generalize ownWait A w tsp c = k at h ⊢
  obtain ⟨⟨r, m'⟩, hr, rfl⟩ := Option.map_eq_some_iff.mp h
  exact ⟨r, hr, rfl, afterWait_ret r k.1 _⟩

/-- A call that does not wait. -/
theorem timedwait_fails
    (hfails : tsp.badNsec = true ∨ (pthreadMutexUnlock A.self A.attr m).1 ≠ .ok) :
    ∃ c', c'.hi = c.hi ∧ pthreadCondTimedwait A w naps tsp c m =
      some ⟨.code (if tsp.badNsec then .einval else (pthreadMutexUnlock A.self A.attr m).1),
        c', m, none⟩ := by
  unfold pthreadCondTimedwait
  by_cases hbad : tsp.badNsec = true
  · rw [if_pos hbad, if_pos hbad]
    exact ⟨c, rfl, rfl⟩
  · have hu := hfails.resolve_left hbad
    have hm := unlock_error hu
    have hhi : (c.couple A).hi = c.hi := by
      unfold Cond.couple
      split <;> rfl
    rw [if_neg hbad, if_neg hbad]
    cases he : pthreadMutexUnlock A.self A.attr m with
    | mk e m₁ =>
      simp only [he] at hu hm
      cases e with
      | ok => exact absurd rfl hu
      | _ => exact ⟨c.couple A, hhi, by rw [hm]⟩

/-- The call returns when its relock does. -/
theorem timedwait_returns (hrelocks : Relocks A w naps tsp c m) :
    ∃ d, pthreadCondTimedwait A w naps tsp c m = some d := by
  by_cases hfails : tsp.badNsec = true ∨ (pthreadMutexUnlock A.self A.attr m).1 ≠ .ok
  · obtain ⟨c', -, hcall⟩ := timedwait_fails hfails
    exact ⟨_, hcall⟩
  · rw [not_or, Bool.not_eq_true, not_not] at hfails
    obtain ⟨hvalid, hunlock⟩ := hfails
    obtain ⟨r, hr⟩ := Option.isSome_iff_exists.mp (hrelocks hvalid hunlock)
    rw [timedwait_eq hvalid hunlock, hr]
    exact ⟨_, rfl⟩

/-- A call that has returned: its result is right exactly when the call does not wait, or a
wake ends the wait, or the timeout ends it and the relock succeeds. -/
theorem reported_iff (h : pthreadCondTimedwait A w naps tsp c m = some d) :
    Reported A w naps tsp c m d ↔ Plain A w naps tsp c m := by
  by_cases hfails : tsp.badNsec = true ∨ (pthreadMutexUnlock A.self A.attr m).1 ≠ .ok
  · obtain ⟨c', hhi, hcall⟩ := timedwait_fails hfails
    cases h.symm.trans hcall
    refine iff_of_true ?_ (by rcases hfails with hf | hf; exacts [.inl hf, .inr (.inl hf)])
    exact
      { invalid := fun hb => ⟨by rw [if_pos hb], hhi, rfl⟩
        unlock := fun e hb he _ => ⟨by rw [hb, he]; rfl, hhi, rfl⟩
        relock := fun r m' hb hu _ => by simp [hb, hu] at hfails
        not_kern := nofun }
  · rw [not_or, Bool.not_eq_true, not_not] at hfails
    obtain ⟨hvalid, hunlock⟩ := hfails
    obtain ⟨r, hr, -, hret⟩ := timedwait_waits hvalid hunlock h
    -- Of the four fields only `relock` and `not_kern` say something about a wait.
    have hiff : Reported A w naps tsp c m d ↔ d.ret = .code (if r ≠ .ok then r
        else if (ownWait A w tsp c).1 = .timedout then .etimedout else .ok) := by
      refine ⟨fun hrep => (hrep.relock r d.mutex hvalid hunlock hr).2, ?_⟩
      intro hd
      exact
        { invalid := fun hb => by simp [hvalid] at hb
          unlock := fun e _ he hne => absurd (he.symm.trans hunlock) hne
          relock := fun r' m' _ _ hr' => by
            obtain ⟨rfl, rfl⟩ := Prod.mk.inj (Option.some.inj (hr.symm.trans hr'))
            exact ⟨rfl, hd⟩
          not_kern := fun k hk => by rw [hd] at hk; cases hk }
    have hcode := condLock_code hr
    have hplain : Plain A w naps tsp c m ↔ (ownWait A w tsp c).1 = .success ∨
        (ownWait A w tsp c).1 = .timedout ∧ r = .ok := by
      simp [Plain, hvalid, hunlock, hr, eq_comm]
    rw [hiff, hplain, hret]
    simp only at hcode
    cases (ownWait A w tsp c).1 with
    | success =>
      simp only [reduceCtorEq, if_false, true_or, iff_true]
      split
      · rfl
      · next hok => rw [not_not.mp hok]
    | timedout =>
      simp only [reduceCtorEq, if_true, false_or, true_and, Ret.code.injEq]
      split
      · next hne => exact iff_of_false (fun he => hcode he.symm) hne
      · next hok => exact iff_of_true rfl (not_not.mp hok)
    | invalidArgument | interrupted => simp

/-- The result of `pthread_cond_timedwait`, for every condvar, mutex, deadline, end of the
wait and outcome of the relock: the call returns, and its result is right exactly when it
does not wait, or a wake ends the wait, or the timeout ends it and the relock succeeds. -/
theorem timedwait_result_iff (hrelocks : Relocks A w naps tsp c m) :
    ∃ d, pthreadCondTimedwait A w naps tsp c m = some d ∧
      (Reported A w naps tsp c m d ↔ Plain A w naps tsp c m) := by
  obtain ⟨d, hd⟩ := timedwait_returns hrelocks
  exact ⟨d, hd, reported_iff hd⟩

/-- A thread of the process 7, with a robust mutex. Only its own process is alive. -/
def Args.robust : Args :=
  ⟨⟨5, 7, (· == 7)⟩, ⟨PTHREAD_MUTEX_NORMAL, PTHREAD_MUTEX_ROBUST ||| GSYNC_SHARED⟩, 0x10, 0x40⟩

/-- It is 100 s. While the caller waits, the process 9 takes the mutex and dies. -/
def World.ownerDies (event : Option (ℕ × Event)) : World where
  clock _ := ⟨100, 0⟩
  cond _ c := c
  mutex _ _ := ⟨9, 3, 1, 0⟩
  event := event
  cancel _ := false

/-- The mutex when the caller has it, and after it took it from the dead process. -/
def lockedBy7 : Mutex := ⟨7, 5, 1, 0⟩

def takenFrom9 : Mutex := ⟨7 ||| LLL_WAITERS ||| Robust.LLL_DEAD_OWNER, 5, 1, 0⟩

/-- A wake after 20 ms: the caller learns that the owner died. -/
theorem timedwait_result_iff_woken :
    let w := World.ownerDies (some (20, .woken))
    let c : Cond := ⟨0, 0, none, 1⟩
    Relocks .robust w [] ⟨100, 500000000⟩ c lockedBy7 ∧
      ∃ d, pthreadCondTimedwait .robust w [] ⟨100, 500000000⟩ c lockedBy7 = some d ∧
        d.ret = .code .eownerdead ∧ Reported .robust w [] ⟨100, 500000000⟩ c lockedBy7 d := by
  intro w c
  have hrelocks : Relocks .robust w [] ⟨100, 500000000⟩ c lockedBy7 := fun _ _ => by decide
  obtain ⟨d, hd, hiff⟩ := timedwait_result_iff hrelocks
  have hret : (pthreadCondTimedwait .robust w [] ⟨100, 500000000⟩ c lockedBy7).map Done.ret =
      some (.code .eownerdead) := by decide
  rw [hd] at hret
  exact ⟨hrelocks, d, hd, Option.some.inj hret, hiff.mpr (.inr (.inr (.inl (by decide))))⟩

/-- The timeout after 500 ms: the caller only learns that its wait timed out. -/
theorem timedwait_owner_dead :
    let w := World.ownerDies none
    let d : Done := ⟨.code .etimedout, ⟨0, 0, none, 1⟩, takenFrom9, some 500⟩
    pthreadCondTimedwait .robust w [] ⟨100, 500000000⟩ ⟨0, 0, none, 1⟩ lockedBy7 = some d ∧
      ¬ Reported .robust w [] ⟨100, 500000000⟩ ⟨0, 0, none, 1⟩ lockedBy7 d := by
  intro w d
  refine ⟨by decide, ?_⟩
  intro h
  have hrelock := h.relock .eownerdead takenFrom9 (by decide) (by decide) (by decide)
  exact absurd hrelock.2 (by decide)

end Hlpt.CondCall
