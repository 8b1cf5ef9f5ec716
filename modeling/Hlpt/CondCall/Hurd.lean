import Hlpt.CondCall.Result

/-!
# `Hlpt.CondCall.Hurd`: `pthread_hurd_cond_timedwait_np` next to `pthread_cond_timedwait`

The two functions have the same loop, and differ before it and after it. The one of the Hurd
leaves out the clock, so that it always waits on `CLOCK_REALTIME`. And it returns what the
relock returned, also after a wait that timed out.

So they agree on a wait that a wake ends in time on both clocks, and on no other one.

* `hurd_timedwait_iff`: in which calls they agree.
* `hurd_timedwait_timeout`: a timeout that is returned as a success.
-/

set_option autoImplicit false

namespace Hlpt.CondCall

open Hlpt.MutexCall

variable {A : Args} {w : World} {naps : List Nap} {tsp : Timespec} {c : Cond} {m : Mutex}
  {d : Done}

/-- How the wait of the Hurd's function ends. -/
def realtimeWait (A : Args) (w : World) (tsp : Timespec) (c : Cond) : KernReturn × ℕ :=
  w.abstimedWait A.ptr (c.couple A).lo tsp ((c.couple A).flags &&& GSYNC_SHARED) CLOCK_REALTIME

/-- The call does not wait, or a wake ends its wait before the deadline, on the condvar's
own clock and on `CLOCK_REALTIME`. -/
def WokenOnBoth (A : Args) (w : World) (tsp : Timespec) (c : Cond) (m : Mutex) : Prop :=
  (pthreadMutexUnlock A.self A.attr m).1 ≠ .ok ∨
    (ownWait A w tsp c).1 = .success ∧ (realtimeWait A w tsp c).1 = .success

/-- A wait either times out or ends with the event of the world. -/
theorem World.abstimedWait_cases (ptr val flags clk : BitVec 32) :
    (w.abstimedWait ptr val tsp flags clk).1 = .timedout ∨
      ∃ p, w.event = some p ∧ w.abstimedWait ptr val tsp flags clk = (p.2.code, p.1) := by
  unfold World.abstimedWait
  cases hcall : lllAbstimedWait w.clock ptr val tsp flags clk with
  | error k =>
    left
    unfold lllAbstimedWait at hcall
    simp only at hcall
    split at hcall <;> cases hcall
    rfl
  | ok g =>
    show (w.timedWait g).1 = _ ∨ ∃ p, _ ∧ w.timedWait g = _
    unfold World.timedWait
    cases hevent : w.event with
    | none => exact .inl rfl
    | some p =>
      simp only
      split
      · exact .inr ⟨p, rfl, rfl⟩
      · exact .inl rfl

/-- Two waits that do not time out end the same way. -/
theorem waits_eq (hown : (ownWait A w tsp c).1 ≠ .timedout)
    (hreal : (realtimeWait A w tsp c).1 ≠ .timedout) :
    ownWait A w tsp c = realtimeWait A w tsp c := by
  obtain ⟨p, hp, ho⟩ := (World.abstimedWait_cases _ _ _ _).resolve_left hown
  obtain ⟨q, hq, hr⟩ := (World.abstimedWait_cases _ _ _ _).resolve_left hreal
  obtain rfl := Option.some.inj (hp.symm.trans hq)
  exact ho.trans hr.symm

/-- A call of the Hurd's function that gets to its wait, when nobody cancels it. -/
theorem hurd_timedwait_eq (hvalid : tsp.badNsec = false) (hcancel : ∀ ms, w.cancel ms = false)
    (hunlock : (pthreadMutexUnlock A.self A.attr m).1 = .ok) :
    pthreadHurdCondTimedwaitNp A w naps false tsp c m =
      (relockAfter A w naps m (realtimeWait A w tsp c).2).map fun r =>
        ⟨.code r.1, (waited A w c (realtimeWait A w tsp c)).2, r.2,
          timedOutAt (realtimeWait A w tsp c)⟩ := by
  have heintr : ∀ k c, (afterWait k c).1 ≠ .code .eintr := by
    intro k c
    cases k <;> simp [afterWait, Ret.ofKern]
  unfold pthreadHurdCondTimedwaitNp ptHurdCondWait relockAfter
  rw [if_neg (by simp [hvalid]), if_neg (by simp)]
  cases hu : pthreadMutexUnlock A.self A.attr m with
  | mk e m₁ =>
    obtain rfl : e = .ok := by simpa [hu] using hunlock
    simp only [hcancel, Option.bind_some, Bool.false_eq_true, if_false]
    rw [if_neg (heintr _ _)]
    rfl

/-- When `pthread_cond_timedwait` has returned, the call of the Hurd's function returns the
same if and only if the calls do not wait, or a wake ends the wait in time on both clocks. -/
theorem agree_iff (hvalid : tsp.badNsec = false) (hcancel : ∀ ms, w.cancel ms = false)
    (h : pthreadCondTimedwait A w naps tsp c m = some d) :
    pthreadHurdCondTimedwaitNp A w naps false tsp c m = some d ↔ WokenOnBoth A w tsp c m := by
  by_cases hunlock : (pthreadMutexUnlock A.self A.attr m).1 = .ok
  · obtain ⟨r, hr, hout, hret⟩ := timedwait_waits hvalid hunlock h
    have hboth : WokenOnBoth A w tsp c m ↔
        (ownWait A w tsp c).1 = .success ∧ (realtimeWait A w tsp c).1 = .success := by
      simp [WokenOnBoth, hunlock]
    rw [hboth, hurd_timedwait_eq hvalid hcancel hunlock]
    constructor
    · intro hd
      obtain ⟨r', hr', rfl⟩ := Option.map_eq_some_iff.mp hd
      have hcode := condLock_code hr'
      -- The code of a relock is neither `ETIMEDOUT` nor a kernel code.
      have hown : (ownWait A w tsp c).1 = .success := by
        cases hk : (ownWait A w tsp c).1 with
        | success => rfl
        | timedout =>
          simp only [hk, Ret.code.injEq] at hret
          exact absurd hret hcode
        | invalidArgument | interrupted => simp [hk] at hret
      have hne : (ownWait A w tsp c).1 ≠ .timedout := by simp [hown]
      have hreal : (realtimeWait A w tsp c).1 ≠ .timedout := by
        intro hk
        simp [timedOutAt, hk, hown] at hout
      exact ⟨hown, waits_eq hne hreal ▸ hown⟩
    · rintro ⟨hown, hreal⟩
      rw [← h, timedwait_eq hvalid hunlock,
        waits_eq (by simp [hown]) (by simp [hreal])]
      refine congrArg (Option.map · _) ?_
      funext r
      simp only [waited, hreal]
      rfl
  · refine iff_of_true ?_ (.inl hunlock)
    rw [← h]
    unfold pthreadHurdCondTimedwaitNp ptHurdCondWait pthreadCondTimedwait
    rw [if_neg (by simp [hvalid]), if_neg (by simp), if_neg (by simp [hvalid])]
    cases hu : pthreadMutexUnlock A.self A.attr m with
    | mk e m₁ =>
      simp only [hu] at hunlock
      cases e with
      | ok => exact absurd rfl hunlock
      | _ => rfl

/-- The two timed waits, for every condvar, mutex, valid deadline, readings of the clocks and
end of the wait: `pthread_cond_timedwait` returns, and the one of the Hurd returns the same,
with the same condvar and mutex and after the same time, if and only if the calls do not
wait or a wake ends the wait before the deadline on both clocks. -/
theorem hurd_timedwait_iff (hvalid : tsp.badNsec = false) (hcancel : ∀ ms, w.cancel ms = false)
    (hrelocks : Relocks A w naps tsp c m) :
    ∃ d, pthreadCondTimedwait A w naps tsp c m = some d ∧
      (pthreadHurdCondTimedwaitNp A w naps false tsp c m = some d ↔
        WokenOnBoth A w tsp c m) := by
  obtain ⟨d, hd⟩ := timedwait_returns hrelocks
  exact ⟨d, hd, agree_iff hvalid hcancel hd⟩

/-- A wake after 20 ms, before both deadlines: they agree. -/
theorem hurd_timedwait_iff_woken :
    let w := World.ownerDies (some (20, .woken))
    let c : Cond := ⟨0, 0, none, 1⟩
    ∃ d, pthreadCondTimedwait .robust w [] ⟨100, 500000000⟩ c lockedBy7 = some d ∧
      pthreadHurdCondTimedwaitNp .robust w [] false ⟨100, 500000000⟩ c lockedBy7 = some d := by
  intro w c
  have hrelocks : Relocks .robust w [] ⟨100, 500000000⟩ c lockedBy7 := fun _ _ => by decide
  obtain ⟨d, hd, hiff⟩ := hurd_timedwait_iff (A := .robust) (by decide) (fun _ => rfl) hrelocks
  exact ⟨d, hd, hiff.mpr (.inr (by decide))⟩

/-- The wait of 500 ms times out, and the mutex is free again: `pthread_cond_timedwait`
returns `ETIMEDOUT`, and the one of the Hurd returns 0. -/
theorem hurd_timedwait_timeout :
    let w : World := ⟨fun _ => ⟨100, 0⟩, fun _ c => c, fun _ m => m, none, fun _ => false⟩
    let tsp : Timespec := ⟨100, 500000000⟩
    let m' : Mutex := ⟨7 ||| Robust.LLL_WAITERS, 5, 1, 0⟩
    let d : Done := ⟨.code .etimedout, ⟨0, 0, none, 1⟩, m', some 500⟩
    pthreadCondTimedwait .robust w [] tsp ⟨0, 0, none, 1⟩ lockedBy7 = some d ∧
      pthreadHurdCondTimedwaitNp .robust w [] false tsp ⟨0, 0, none, 1⟩ lockedBy7 =
        some { d with ret := .code .ok } ∧
      pthreadHurdCondTimedwaitNp .robust w [] false tsp ⟨0, 0, none, 1⟩ lockedBy7 ≠
        pthreadCondTimedwait .robust w [] tsp ⟨0, 0, none, 1⟩ lockedBy7 := by
  decide

/-- A condvar of `CLOCK_MONOTONIC`, with a deadline 100 s away. By `CLOCK_REALTIME` it passed
long ago. -/
example :
    let w : World :=
      { World.ownerDies (some (20, .woken)) with
        clock := fun clk => if clk = CLOCK_MONOTONIC then ⟨100, 0⟩ else ⟨1472000000, 0⟩ }
    let c : Cond := ⟨0, 0, none, GSYNC_SHARED ||| CLOCK_MONOTONIC <<< COND_CLK_SHIFT⟩
    (ownWait .robust w ⟨200, 0⟩ c).1 = .success ∧
      (realtimeWait .robust w ⟨200, 0⟩ c).1 = .timedout := by
  decide

end Hlpt.CondCall
