import Hlpt.Lib.Naps
import Hlpt.Mutex.Model
import Hlpt.MutexCall.Model

/-!
# `Hlpt.MutexCall.Accesses`: the whole calls, access by access

A whole call is what `Hlpt.LowLevelLock` and `Hlpt.Mutex` do access by access, when the
others move only in the sleeps of the call, and there leave the mutex of the `Nap`. The call
may leave naps over.

`Hlpt.LowLevelLock` has the mutexes of type normal, of which it knows the word only.
`Hlpt.Mutex` has the recursive and the errorcheck ones, and uses the same accesses to the
word: `naps_onWord` takes a run on the word into a run on the mutex.

* `lock_normal_accesses`, `unlock_normal_accesses`: a mutex of type normal.
* `lock_accesses`, `unlock_accesses`: one that knows its owner.
* `lock_alone`: its lock without a sleep.
-/

set_option autoImplicit false

namespace Hlpt.MutexCall

open Hlpt.Lib
open Hlpt.Mutex (LockCall Threads Kind)

universe u

/-- The mutex as a call found it after its last nap. -/
def afterNaps (naps : List Nap) (m : Mutex) : Mutex := naps.foldl (fun _ n => n.after) m

/-- The three ways to lock, as one call. -/
def lockCall (self : Self) (a : Attr) (k : LockCall) (naps : List Nap) (m : Mutex) :
    Option (Code × Mutex) :=
  match k with
  | .lock => pthreadMutexLock self a naps m
  | .trylock => pthreadMutexTrylock self a m
  | .timedlock tsp => pthreadMutexTimedlock self a tsp naps m

/-- The function of `lowlevellock.c` that each of them calls. -/
def lllCall (k : LockCall) (naps : List Nap) (m : Mutex) : Option (Code × Mutex) :=
  match k with
  | .lock => lllLock naps m
  | .trylock => some (lllTrylock m)
  | .timedlock tsp => lllAbstimedLock tsp naps m

variable {T : Type u} [DecidableEq T] {t : T} {self : Self} {a : Attr} {k : LockCall}
  {d : Option Timespec} {naps : List Nap} {mx mx' : Mutex} {c : Code}

/-! ### The word -/

section Word

open LowLevelLock (Local Mem)

/-- Between the entry of a function of the lock and its return. -/
def WordInside (l : Local) : Prop :=
  match l.pc with
  | .idle | .ret _ => False
  | _ => True

/-- In a sleep the others leave the word of the nap. -/
def WordNap (n : Nap) (l : Local) (_ m' : Mem T) : Prop :=
  (∃ d, l.pc = .asleep d) ∧ m'.word = n.after.lock

/-- A run of `t` inside of a function of the lock. -/
abbrev WordRun (t : T) : List Nap → Mem T × Local → Mem T × Local → Prop :=
  LowLevelLock.exec.Naps WordInside WordNap t

variable {m : Mem T} {b : Bool}

/-- What a call on the word comes to: it used some of the naps, left the other fields as it
found them after the last one, and the accesses agree. -/
def WordCall (t : T) (naps : List Nap) (mx : Mutex) (x : Mem T × Local) (c : Code)
    (mx' : Mutex) : Prop :=
  ∃ used, used <+: naps ∧ mx' = { afterNaps used mx with lock := mx'.lock } ∧
    ∃ m' b', WordRun t used x (m', ⟨.ret c, b'⟩) ∧ m'.word = mx'.lock

/-- A call that does not sleep. -/
theorem WordCall.awake {x : Mem T × Local} {m' : Mem T} {b' : Bool} {w : BitVec 32}
    (h : WordRun t [] x (m', ⟨.ret c, b'⟩)) (hw : m'.word = w) :
    WordCall t naps mx x c { mx with lock := w } :=
  ⟨[], List.nil_prefix, rfl, m', b', h, hw⟩

/-- The first accesses of a call. -/
theorem WordCall.after {x y : Mem T × Local} (h : WordRun t [] x y)
    (hcall : WordCall t naps mx y c mx') : WordCall t naps mx x c mx' := by
  obtain ⟨used, hused, hmx, m', b', hrun, hw⟩ := hcall
  exact ⟨used, hused, hmx, m', b', h.awake hrun, hw⟩

/-- A nap, and the rest of the call. -/
theorem WordCall.sleep {n : Nap} {m₁ : Mem T} {l : Local} {y : Mem T × Local}
    (hnap : WordNap n l m m₁) (h : WordRun t [] (m₁, l) y)
    (hcall : WordCall t naps n.after y c mx') : WordCall t (n :: naps) mx (m, l) c mx' := by
  obtain ⟨used, hused, hmx, m', b', hrun, hw⟩ := hcall
  exact ⟨n :: used, (List.prefix_cons_inj n).mpr hused, hmx, m', b',
    .sleep hnap (h.awake hrun), hw⟩

/-- A swap that finds the word taken. -/
theorem swap_taken (htaken : m.word ≠ 0) : WordRun t [] (m, ⟨.lockSwap d, b⟩)
    ({ m with word := 2 }, ⟨LowLevelLock.afterSwap d, b⟩) := by
  have hswap : LowLevelLock.exec t {} m ⟨.lockSwap d, b⟩ =
      some ({ m with word := 2 }, ⟨LowLevelLock.afterSwap d, b⟩) := if_neg htaken
  exact .single trivial hswap

/-- A bad deadline ends the loop. -/
theorem swap_bad (htaken : m.word ≠ 0) (hbad : d.any Timespec.badNsec = true) :
    WordRun t [] (m, ⟨.lockSwap d, b⟩) ({ m with word := 2 }, ⟨.ret .einval, b⟩) := by
  obtain ⟨tsp, rfl, htsp⟩ := (Option.any_eq_true _ _).mp hbad
  have hswap := swap_taken (t := t) (d := some tsp) (b := b) htaken
  rwa [LowLevelLock.afterSwap, if_pos htsp] at hswap

/-- The reading of the clock, for a good deadline. -/
theorem swap_clock {tsp : Timespec} (now : Timespec) (htaken : m.word ≠ 0)
    (hgood : tsp.badNsec = false) : WordRun t [] (m, ⟨.lockSwap (some tsp), b⟩)
      ({ m with word := 2 },
        ⟨if expired tsp now then .ret .etimedout else .lockWait (some tsp), b⟩) := by
  have hswap := swap_taken (t := t) (d := some tsp) (b := b) htaken
  rw [LowLevelLock.afterSwap, if_neg (by simp [hgood])] at hswap
  have hclock : LowLevelLock.exec t { now := now } { m with word := 2 } ⟨.lockClock tsp, b⟩ =
      some ({ m with word := 2 },
        ⟨if expired tsp now then .ret .etimedout else .lockWait (some tsp), b⟩) := rfl
  exact hswap.awake (.single trivial hclock)

/-- A deadline that is past ends the loop. -/
theorem swap_late {now : Timespec} (htaken : m.word ≠ 0) (hgood : d.any Timespec.badNsec = false)
    (hlate : d.any (expired · now) = true) :
    WordRun t [] (m, ⟨.lockSwap d, b⟩) ({ m with word := 2 }, ⟨.ret .etimedout, b⟩) := by
  obtain ⟨tsp, rfl, htsp⟩ := (Option.any_eq_true _ _).mp hlate
  have hclock := swap_clock (t := t) (b := b) now htaken hgood
  rwa [if_pos htsp] at hclock

/-- Otherwise the thread goes to sleep. -/
theorem swap_sleeps {now : Timespec} (htaken : m.word ≠ 0) (hgood : d.any Timespec.badNsec = false)
    (hearly : d.any (expired · now) = false) :
    WordRun t [] (m, ⟨.lockSwap d, b⟩) (⟨2, insert t m.sleepers⟩, ⟨.asleep d, b⟩) := by
  have hwait : LowLevelLock.exec t {} { m with word := 2 } ⟨.lockWait d, b⟩ =
      some (⟨2, insert t m.sleepers⟩, ⟨.asleep d, b⟩) := by
    simp only [LowLevelLock.exec, if_true]
  have hsleep : WordRun t [] ({ m with word := 2 }, ⟨.lockWait d, b⟩)
      (⟨2, insert t m.sleepers⟩, ⟨.asleep d, b⟩) := .single trivial hwait
  cases d with
  | none => exact (swap_taken htaken).awake hsleep
  | some tsp =>
      have hclock := swap_clock (t := t) (b := b) now htaken hgood
      rw [if_neg (by simpa using hearly)] at hclock
      exact hclock.awake hsleep

/-- A swap that takes a free word. -/
theorem swap_takes (hm : m.word = mx.lock) (hfree : mx.lock = 0) :
    WordCall t naps mx (m, ⟨.lockSwap d, b⟩) .ok { mx with lock := 2 } := by
  have hswap : LowLevelLock.exec t {} m ⟨.lockSwap d, b⟩ =
      some ({ m with word := 2 }, ⟨.ret .ok, true⟩) := if_pos (hm.trans hfree)
  exact .awake (.single trivial hswap) rfl

/-- The loop of a lock. -/
theorem lllLockLoop_accesses (h : lllLockLoop d naps mx = some (c, mx')) (hm : m.word = mx.lock) :
    WordCall t naps mx (m, ⟨.lockSwap d, b⟩) c mx' := by
  fun_induction lllLockLoop d naps mx generalizing m with
  | case1 naps mx hfree =>
      cases h
      exact swap_takes hm hfree
  | case2 naps mx htaken hbad =>
      cases h
      rw [← hm] at htaken
      exact .awake (swap_bad htaken hbad) rfl
  | case3 mx htaken hgood => cases h
  | case4 mx htaken hgood nap naps hlate =>
      cases h
      rw [← hm] at htaken
      exact .awake (swap_late htaken (Bool.eq_false_of_not_eq_true hgood) hlate) rfl
  -- The kernel ends the sleep, with the thread still in the queue.
  | case5 mx htaken hgood nap naps hearly hends =>
      cases h
      rw [← hm] at htaken
      have hsleep := swap_sleeps (t := t) (b := b) htaken (Bool.eq_false_of_not_eq_true hgood)
        (Bool.eq_false_of_not_eq_true hearly)
      obtain ⟨hd, -⟩ := Bool.and_eq_true_iff.mp hends
      obtain ⟨tsp, rfl⟩ := Option.isSome_iff_exists.mp hd
      have hout : LowLevelLock.exec t { ends := some .timedout }
          ⟨nap.after.lock, {t}⟩ ⟨.asleep (some tsp), b⟩ =
            some (⟨nap.after.lock, ∅⟩, ⟨.ret .etimedout, b⟩) := by
        simp [LowLevelLock.exec]
      exact .after hsleep (.sleep ⟨⟨some tsp, rfl⟩, rfl⟩ (.single trivial hout)
        (.awake (.refl _) rfl))
  -- The thread was woken, and the loop starts again.
  | case6 mx htaken hgood nap naps hearly hends ih =>
      rw [← hm] at htaken
      have hsleep := swap_sleeps (t := t) (b := b) htaken (Bool.eq_false_of_not_eq_true hgood)
        (Bool.eq_false_of_not_eq_true hearly)
      have hwoken : LowLevelLock.exec t {} ⟨nap.after.lock, ∅⟩ ⟨.asleep d, b⟩ =
          some (⟨nap.after.lock, ∅⟩, ⟨.lockSwap d, b⟩) := by
        simp [LowLevelLock.exec]
      exact .after hsleep (.sleep ⟨⟨d, rfl⟩, rfl⟩ (.single trivial hwoken) (ih h rfl))

/-- `lll_lock` and `lll_abstimed_lock` -/
theorem lllAcquire_accesses (h : lllAcquire d naps mx = some (c, mx')) (hm : m.word = mx.lock) :
    WordCall t naps mx (m, ⟨.lockTest d, b⟩) c mx' := by
  unfold lllAcquire at h
  split at h
  · next hfree =>
      cases h
      rw [← hm] at hfree
      have htest : LowLevelLock.exec t {} m ⟨.lockTest d, b⟩ = some (m, ⟨.lockCas d, b⟩) := by
        simp only [LowLevelLock.exec, if_pos hfree]
      have hcas : LowLevelLock.exec t {} m ⟨.lockCas d, b⟩ =
          some ({ m with word := 1 }, ⟨.ret .ok, true⟩) := if_pos hfree
      exact .awake (.step trivial htest (.single trivial hcas)) rfl
  · next htaken =>
      rw [← hm] at htaken
      have htest : LowLevelLock.exec t {} m ⟨.lockTest d, b⟩ = some (m, ⟨.lockSwap d, b⟩) := by
        simp only [LowLevelLock.exec, if_neg htaken]
      exact .after (.single trivial htest) (lllLockLoop_accesses h hm)

/-- `lll_trylock` -/
theorem lllTrylock_accesses (h : lllTrylock mx = (c, mx')) (hm : m.word = mx.lock) :
    WordCall t naps mx (m, ⟨.tryTest, b⟩) c mx' := by
  unfold lllTrylock at h
  split at h
  · next hfree =>
      cases h
      rw [← hm] at hfree
      have htest : LowLevelLock.exec t {} m ⟨.tryTest, b⟩ = some (m, ⟨.tryCas, b⟩) := by
        simp only [LowLevelLock.exec, if_pos hfree]
      have hcas : LowLevelLock.exec t {} m ⟨.tryCas, b⟩ =
          some ({ m with word := 1 }, ⟨.ret .ok, true⟩) := if_pos hfree
      exact .awake (.step trivial htest (.single trivial hcas)) rfl
  · next htaken =>
      cases h
      rw [← hm] at htaken
      have htest : LowLevelLock.exec t {} m ⟨.tryTest, b⟩ = some (m, ⟨.ret .ebusy, b⟩) := by
        simp only [LowLevelLock.exec, if_neg htaken]
      exact .awake (.single trivial htest) hm

/-- The three ways to lock the word. -/
theorem lllCall_accesses (h : lllCall k naps mx = some (c, mx')) (hm : m.word = mx.lock) :
    WordCall t naps mx (m, ⟨k.start, b⟩) c mx' := by
  cases k with
  | lock => exact lllAcquire_accesses h hm
  | trylock => exact lllTrylock_accesses (Option.some.inj h) hm
  | timedlock tsp => exact lllAcquire_accesses h hm

/-- `lll_unlock` stores 0, and wakes a thread if one may sleep. -/
theorem lllUnlock_accesses :
    ∃ q, WordRun t [] (m, ⟨.unlockSwap, b⟩) (⟨0, q⟩, ⟨.ret .ok, false⟩) := by
  by_cases hone : m.word = 1
  · have hswap : LowLevelLock.exec t {} m ⟨.unlockSwap, b⟩ =
        some (⟨0, m.sleepers⟩, ⟨.ret .ok, false⟩) := by
      simp only [LowLevelLock.exec, if_pos hone]
    exact ⟨m.sleepers, .single trivial hswap⟩
  · have hswap : LowLevelLock.exec t {} m ⟨.unlockSwap, b⟩ =
        some (⟨0, m.sleepers⟩, ⟨.unlockWake, false⟩) := by
      simp only [LowLevelLock.exec, if_neg hone]
    obtain ⟨pick, q, hq⟩ := exists_wakeOne m.sleepers
    have hwake : LowLevelLock.exec t { pick := pick } ⟨0, m.sleepers⟩ ⟨.unlockWake, false⟩ =
        some (⟨0, q⟩, ⟨.ret .ok, false⟩) := by
      simp only [LowLevelLock.exec, hq, Option.map_some]
    exact ⟨q, .step trivial hswap (.single trivial hwake)⟩

/-! ### A mutex of type normal -/

/-- A lock of a mutex of type normal is one of the word. -/
theorem lockCall_normal (ha : a.mtxType = .normal)
    (h : lockCall self a k naps mx = some (c, mx')) : lllCall k naps mx = some (c, mx') := by
  cases k with
  | lock =>
      unfold lockCall pthreadMutexLock at h
      simp only [ha] at h
      obtain ⟨⟨c₀, m₀⟩, h₀, heq⟩ := Option.map_eq_some_iff.mp h
      cases heq
      rcases lllAcquire_code h₀ with rfl | ⟨hd, -⟩
      · exact h₀
      · cases hd
  | trylock =>
      unfold lockCall pthreadMutexTrylock at h
      simp only [ha] at h
      exact h
  | timedlock tsp =>
      unfold lockCall pthreadMutexTimedlock at h
      simp only [ha] at h
      exact h

/-- The three ways to lock a mutex of type normal. -/
theorem lock_normal_accesses (ha : a.mtxType = .normal)
    (h : lockCall self a k naps mx = some (c, mx')) (hm : m.word = mx.lock) :
    WordCall t naps mx (m, ⟨k.start, b⟩) c mx' :=
  lllCall_accesses (lockCall_normal ha h) hm

/-- `pthread_mutex_unlock` of a mutex of type normal -/
theorem unlock_normal_accesses (ha : a.mtxType = .normal)
    (h : pthreadMutexUnlock self a mx = (c, mx')) :
    WordCall t naps mx (m, ⟨.unlockSwap, b⟩) c mx' := by
  unfold pthreadMutexUnlock at h
  simp only [ha] at h
  cases h
  obtain ⟨q, hrun⟩ := lllUnlock_accesses (t := t) (m := m) (b := b)
  exact .awake hrun rfl

end Word

/-! ### A mutex that knows its owner -/

open Hlpt.Mutex (Mem Pc Op)

/-- The case of a mutex of `Hlpt.Mutex`. -/
def Case.ofKind : Kind → Case
  | .recursive => .recursive
  | .errorcheck => .errorcheck

/-- The attributes of the mutex, in `Hlpt.Mutex` and here. -/
structure SameAttr (K : Hlpt.Mutex.Attr) (a : Attr) : Prop where
  type : a.mtxType = .ofKind K.kind
  shared : K.shared = a.shared

/-- The thread `t` as it makes its calls. -/
def Self.ofThread (I : Threads T) (t : T) (validPid : BitVec 32 → Bool) : Self :=
  ⟨I.id t, I.pid t, validPid⟩

/-- The fields about the owner. -/
structure SameOwner (m : Mem T) (mx : Mutex) : Prop where
  ownerId : m.ownerId = mx.ownerId
  cnt : m.cnt = mx.cnt
  shpid : m.shpid = mx.shpid

/-- The four words of a mutex. -/
structure SameWords (m : Mem T) (mx : Mutex) : Prop extends SameOwner m mx where
  lock : m.lock.word = mx.lock

/-- Between the entry of a function of the mutex and its return. -/
def Inside : Pc T → Prop
  | .idle | .ret _ => False
  | _ => True

/-- In a sleep the others leave the mutex of the nap. -/
def MutexNap (n : Nap) (pc : Pc T) (_ m' : Mem T) : Prop :=
  (∃ d, pc = .lockWord (.asleep d)) ∧ SameWords m' n.after

variable {I : Threads T} {K : Hlpt.Mutex.Attr} {m : Mem T} {v : BitVec 32 → Bool}

/-- A run of `t` inside of a function of the mutex. -/
abbrev MutexRun (I : Threads T) (K : Hlpt.Mutex.Attr) (t : T) :
    List Nap → Mem T × Pc T → Mem T × Pc T → Prop :=
  (Hlpt.Mutex.exec I K).Naps Inside MutexNap t

/-- An access to the word does not look at the call. -/
theorem word_exec {c : LowLevelLock.Choice T} {w : LowLevelLock.Mem T} {l : LowLevelLock.Local}
    (hin : WordInside l) :
    LowLevelLock.exec t { now := c.now, pick := c.pick, ends := c.ends } w l =
      LowLevelLock.exec t c w l := by
  rcases l with ⟨pc, b⟩
  cases pc with
  | idle | ret => exact hin.elim
  | _ => rfl

/-- The thread has the word after an access exactly when the access gave it. -/
theorem holds_onWord {w : LowLevelLock.Mem T} {b : Bool} :
    decide (t ∈ (m.onWord t w b).owners) = b := by
  simp only [Hlpt.Mutex.Mem.onWord]
  split <;> simp_all

/-- At the places `place p` of a function of the mutex its thread is inside of the lock. -/
structure OnWord (I : Threads T) (K : Hlpt.Mutex.Attr) (t : T) (place : LowLevelLock.Pc → Pc T) :
    Prop where
  inside : ∀ l, WordInside l → Inside (place l.pc)
  access : ∀ c m l, WordInside l → Hlpt.Mutex.exec I K t c m (place l.pc) =
    (LowLevelLock.exec t c.word m.lock ⟨l.pc, decide (t ∈ m.owners)⟩).map fun r =>
      (m.onWord t r.1 r.2.holds, place r.2.pc)

theorem onWord_afterLock : OnWord I K t Hlpt.Mutex.afterLock where
  inside := by
    rintro ⟨pc, b⟩ hin
    cases pc with
    | idle | ret => exact hin.elim
    | _ => trivial
  access := by
    rintro c m ⟨pc, b⟩ hin
    cases pc with
    | idle | ret => exact hin.elim
    | _ => rfl

theorem onWord_afterUnlock : OnWord I K t Hlpt.Mutex.afterUnlock where
  inside := by
    rintro ⟨pc, b⟩ hin
    cases pc with
    | idle | ret => exact hin.elim
    | _ => trivial
  access := by
    rintro c m ⟨pc, b⟩ hin
    cases pc with
    | idle | ret => exact hin.elim
    | _ => rfl

/-- A run on the word is one on the mutex. Only the locks sleep. -/
theorem naps_onWord {place : LowLevelLock.Pc → Pc T} (hplace : OnWord I K t place)
    {used : List Nap} {x y : LowLevelLock.Mem T × LowLevelLock.Local} (h : WordRun t used x y)
    (hsleeps : used = [] ∨ place = Hlpt.Mutex.afterLock) (hlock : m.lock = x.1)
    (hholds : decide (t ∈ m.owners) = x.2.holds) (hsame : SameOwner m mx) :
    ∃ m', MutexRun I K t used (m, place x.2.pc) (m', place y.2.pc) ∧ m'.lock = y.1 ∧
      SameOwner m' (afterNaps used mx) := by
  induction h generalizing m mx with
  | refl x => exact ⟨m, .refl _, hlock, hsame⟩
  | @step ns c w l y z hin hexec hrest ih =>
      obtain ⟨pc, b⟩ := l
      obtain rfl : m.lock = w := hlock
      obtain rfl : decide (t ∈ m.owners) = b := hholds
      have haccess : Hlpt.Mutex.exec I K t { now := c.now, pick := c.pick, ends := c.ends } m
          (place pc) = some (m.onWord t y.1 y.2.holds, place y.2.pc) :=
        (hplace.access _ m _ hin).trans (congrArg (Option.map _) ((word_exec hin).trans hexec))
      have hsame₁ : SameOwner (m.onWord t y.1 y.2.holds) mx := ⟨hsame.1, hsame.2, hsame.3⟩
      obtain ⟨m', hrun, hlock, hown⟩ := ih hsleeps rfl holds_onWord hsame₁
      exact ⟨m', .step (hplace.inside _ hin) haccess hrun, hlock, hown⟩
  | @sleep n ns w w' l z hnap hrest ih =>
      obtain ⟨pc, b⟩ := l
      obtain ⟨⟨d, rfl⟩, hw⟩ := hnap
      obtain rfl := hsleeps.resolve_left (List.cons_ne_nil n ns)
      -- The others leave the whole mutex of the nap, and the ghosts as they were.
      let m₁ : Mem T :=
        { m with
          lock := w'
          ownerId := n.after.ownerId
          cnt := n.after.cnt
          shpid := n.after.shpid }
      have hholds₁ : decide (t ∈ m₁.owners) = b := hholds
      have hsame₁ : SameOwner m₁ n.after := ⟨rfl, rfl, rfl⟩
      obtain ⟨m', hrun, hlock, hown⟩ := ih (.inr rfl) rfl hholds₁ hsame₁
      exact ⟨m', .sleep ⟨⟨d, rfl⟩, ⟨rfl, rfl, rfl⟩, hw⟩ hrun, hlock, hown⟩

/-- The test that a call makes of the owner. `K.testsPid` says where `getpid ()` is part of it. -/
def OwnerTest (I : Threads T) (K : Hlpt.Mutex.Attr) (t : T) (k : Op T) (mx : Mutex) : Prop :=
  mx.ownerId = I.id t ∧ (K.testsPid k = true → mx.shpid = I.pid t)

/-- The two accesses of the test. -/
theorem test_accesses {k : Op T} (hsame : SameOwner m mx) :
    (OwnerTest I K t k mx → MutexRun I K t [] (m, .testOwner k) (m, K.owned k)) ∧
    (¬ OwnerTest I K t k mx → MutexRun I K t [] (m, .testOwner k) (m, Hlpt.Mutex.unowned k)) := by
  have hexec : Hlpt.Mutex.exec I K t {} m (.testOwner k) =
      some (m, if mx.ownerId = I.id t then if K.testsPid k then .testPid k else K.owned k
        else Hlpt.Mutex.unowned k) := by
    rw [← hsame.ownerId]
    rfl
  have hpid : Hlpt.Mutex.exec I K t {} m (.testPid k) =
      some (m, if mx.shpid = I.pid t then K.owned k else Hlpt.Mutex.unowned k) := by
    rw [← hsame.shpid]
    rfl
  constructor
  · rintro ⟨hid, himp⟩
    rw [if_pos hid] at hexec
    by_cases htests : K.testsPid k = true
    · rw [if_pos htests] at hexec
      rw [if_pos (himp htests)] at hpid
      exact .step trivial hexec (.single trivial hpid)
    · rw [if_neg htests] at hexec
      exact .single trivial hexec
  · intro htest
    by_cases hid : mx.ownerId = I.id t
    · have htests : K.testsPid k = true := by
        by_contra hno
        exact htest ⟨hid, fun h => absurd h hno⟩
      rw [if_pos hid, if_pos htests] at hexec
      rw [if_neg fun h => htest ⟨hid, fun _ => h⟩] at hpid
      exact .step trivial hexec (.single trivial hpid)
    · rw [if_neg hid] at hexec
      exact .single trivial hexec

/-- The same test, as the whole call makes it. -/
def ownerTest (self : Self) (a : Attr) (κ : Kind) (k : LockCall) (m : Mutex) : Bool :=
  match k, κ with
  | .timedlock _, .errorcheck => m.ownerId == self.id
  | _, _ => mtxOwnedP self a m

omit [DecidableEq T] in
theorem ownedP_iff_ownerTest {k : Op T} (hK : SameAttr K a) (htests : K.testsPid k = K.shared) :
    mtxOwnedP (.ofThread I t v) a mx = true ↔ OwnerTest I K t k mx := by
  unfold mtxOwnedP OwnerTest
  rw [htests, hK.shared]
  cases a.shared <;> simp [Self.ofThread]

omit [DecidableEq T] in
theorem ownerTest_iff (hK : SameAttr K a) :
    ownerTest (.ofThread I t v) a K.kind k mx = true ↔ OwnerTest I K t (.lock k) mx := by
  cases k with
  | lock => exact ownedP_iff_ownerTest hK rfl
  | trylock => exact ownedP_iff_ownerTest hK rfl
  | timedlock tsp =>
      cases hκ : K.kind with
      | recursive =>
          refine ownedP_iff_ownerTest hK ?_
          simp [Hlpt.Mutex.Attr.testsPid, hκ]
      | errorcheck => simp [ownerTest, OwnerTest, Hlpt.Mutex.Attr.testsPid, hκ, Self.ofThread]

/-- What a lock call returns to the owner. -/
def lockOwned (κ : Kind) (m : Mutex) : Code × Mutex :=
  match κ with
  | .recursive => relock m
  | .errorcheck => (.edeadlk, m)

/-- What it records with the word. -/
def recorded (self : Self) (a : Attr) (κ : Kind) (m : Mutex) : Mutex :=
  match κ with
  | .recursive => { mtxSetOwner self a m with cnt := 1 }
  | .errorcheck => mtxSetOwner self a m

/-- The end of a lock call that was not the owner's, with what the word gave. -/
def lockEnd (self : Self) (a : Attr) (κ : Kind) (r : Code × Mutex) : Code × Mutex :=
  (r.1, if r.1 = .ok then recorded self a κ r.2 else r.2)

theorem lockEnd_eq {κ : Kind} (r : Code × Mutex) : lockEnd self a κ r =
    if r.1 = .ok then (.ok, recorded self a κ r.2) else r := by
  unfold lockEnd
  split
  · next hok => rw [hok]
  · rfl

/-- Without a deadline the lock of the word does not fail. -/
theorem lllLock_map {κ : Kind} : (lllLock naps mx).map (lockEnd self a κ) =
    (lllLock naps mx).map fun r => (.ok, recorded self a κ r.2) := by
  refine Option.map_congr fun r hr => ?_
  obtain ⟨c₀, m₀⟩ := r
  rcases lllAcquire_code hr with rfl | ⟨hd, -⟩
  · exact lockEnd_eq _
  · cases hd

/-- The three lock calls of a mutex that knows its owner. -/
theorem lockCall_eq {κ : Kind} (hκ : a.mtxType = .ofKind κ) :
    lockCall self a k naps mx = if ownerTest self a κ k mx then some (lockOwned κ mx)
      else (lllCall k naps mx).map (lockEnd self a κ) := by
  cases k with
  | lock =>
      unfold lockCall pthreadMutexLock lllCall
      rw [hκ, lllLock_map]
      cases κ <;> rfl
  | trylock =>
      unfold lockCall pthreadMutexTrylock lllCall
      rw [hκ, Option.map_some, lockEnd_eq]
      cases κ <;> rfl
  | timedlock tsp =>
      unfold lockCall pthreadMutexTimedlock lllCall
      have hend : lockEnd self a κ = fun r =>
          if r.1 = .ok then (.ok, recorded self a κ r.2) else r := funext lockEnd_eq
      rw [hκ, hend]
      cases κ with
      | recursive => rfl
      | errorcheck => simp [ownerTest, Case.ofKind, lockOwned, recorded]

/-- The owner of a recursive mutex locks it again. -/
theorem relock_accesses (hw : SameWords m mx) :
    ∃ m', MutexRun I K t [] (m, .cntTest) (m', .ret (relock mx).1) ∧
      SameWords m' (relock mx).2 := by
  unfold relock
  rw [← hw.cnt]
  by_cases hmax : m.cnt + 1 = 0
  · have htest : Hlpt.Mutex.exec I K t {} m .cntTest = some (m, .ret .eagain) := by
      simp only [Hlpt.Mutex.exec, if_pos hmax]
    rw [if_pos hmax]
    exact ⟨m, .single trivial htest, hw⟩
  · have htest : Hlpt.Mutex.exec I K t {} m .cntTest = some (m, .incLoad) := by
      simp only [Hlpt.Mutex.exec, if_neg hmax]
    have hload : Hlpt.Mutex.exec I K t {} m .incLoad = some (m, .incStore m.cnt) := rfl
    have hstore : Hlpt.Mutex.exec I K t {} m (.incStore m.cnt) =
        some ({ m with cnt := m.cnt + 1, levels := m.levels + 1 }, .ret .ok) := rfl
    rw [if_neg hmax]
    exact ⟨_, .step trivial htest (.step trivial hload (.single trivial hstore)),
      ⟨hw.ownerId, rfl, hw.shpid⟩, hw.lock⟩

/-- The owner is recorded after the word was taken. -/
theorem setOwner_accesses (hK : SameAttr K a) (hw : SameWords m mx) :
    ∃ m', MutexRun I K t [] (m, .setOwner) (m', .ret .ok) ∧
      SameWords m' (recorded (.ofThread I t v) a K.kind mx) := by
  -- `mtx_set_owner`
  obtain ⟨m₁, hrun₁, hw₁⟩ : ∃ m₁, MutexRun I K t [] (m, .setOwner) (m₁, K.counted) ∧
      SameWords m₁ (mtxSetOwner (.ofThread I t v) a mx) := by
    have hid : Hlpt.Mutex.exec I K t {} m .setOwner = some ({ m with ownerId := I.id t },
        if K.shared then .setPid else K.counted) := rfl
    cases hshared : K.shared with
    | true =>
        have hpid : Hlpt.Mutex.exec I K t {} { m with ownerId := I.id t } .setPid =
            some ({ m with ownerId := I.id t, shpid := I.pid t }, K.counted) := rfl
        rw [hshared, if_pos rfl] at hid
        refine ⟨_, .step trivial hid (.single trivial hpid), ⟨rfl, hw.cnt, ?_⟩, hw.lock⟩
        exact (if_pos (hK.shared ▸ hshared)).symm
    | false =>
        rw [hshared, if_neg Bool.false_ne_true] at hid
        refine ⟨_, .single trivial hid, ⟨rfl, hw.cnt, hw.shpid.trans ?_⟩, hw.lock⟩
        exact (if_neg (by simp [← hK.shared, hshared])).symm
  cases hκ : K.kind with
  | recursive =>
      have hnext : (K.counted : Pc T) = .setCnt := by simp only [Hlpt.Mutex.Attr.counted, hκ]
      have hcnt : Hlpt.Mutex.exec I K t {} m₁ .setCnt = some ({ m₁ with cnt := 1 }, .ret .ok) := rfl
      rw [hnext] at hrun₁
      exact ⟨_, hrun₁.awake (.single trivial hcnt), ⟨hw₁.ownerId, rfl, hw₁.shpid⟩, hw₁.lock⟩
  | errorcheck =>
      have hnext : (K.counted : Pc T) = .ret .ok := by simp only [Hlpt.Mutex.Attr.counted, hκ]
      rw [hnext] at hrun₁
      exact ⟨m₁, hrun₁, hw₁⟩

/-- A lock call of the owner. -/
theorem lockOwned_accesses (hw : SameWords m mx) :
    ∃ m', MutexRun I K t [] (m, K.owned (.lock k)) (m', .ret (lockOwned K.kind mx).1) ∧
      SameWords m' (lockOwned K.kind mx).2 := by
  cases hκ : K.kind with
  | recursive =>
      have hnext : (K.owned (.lock k) : Pc T) = .cntTest := by
        simp only [Hlpt.Mutex.Attr.owned, hκ]
      rw [hnext]
      exact relock_accesses hw
  | errorcheck =>
      have hnext : (K.owned (.lock k) : Pc T) = .ret .edeadlk := by
        simp only [Hlpt.Mutex.Attr.owned, hκ]
      rw [hnext]
      exact ⟨m, .refl _, hw⟩

/-- The three ways to lock a mutex that knows its owner. -/
theorem lock_accesses (hK : SameAttr K a) (hw : SameWords m mx)
    (h : lockCall (.ofThread I t v) a k naps mx = some (c, mx')) :
    ∃ used, used <+: naps ∧ ∃ m',
      MutexRun I K t used (m, .testOwner (.lock k)) (m', .ret c) ∧ SameWords m' mx' := by
  obtain ⟨hmine, hother⟩ := test_accesses (I := I) (K := K) (t := t) (k := .lock k) hw.toSameOwner
  rw [lockCall_eq hK.type] at h
  split at h
  · next hown =>
      obtain ⟨m', hrun, hw'⟩ := lockOwned_accesses (I := I) (K := K) (t := t) (k := k) hw
      rw [Option.some.inj h] at hrun hw'
      exact ⟨[], List.nil_prefix, m', (hmine ((ownerTest_iff hK).mp hown)).awake hrun, hw'⟩
  · next hown =>
      obtain ⟨⟨c₀, m₀⟩, h₀, hend⟩ := Option.map_eq_some_iff.mp h
      obtain ⟨rfl, rfl⟩ := Prod.mk.inj hend
      have hword : MutexRun I K t [] (m, .testOwner (.lock k)) (m, .lockWord k.start) :=
        hother (mt (ownerTest_iff hK).mpr hown)
      obtain ⟨used, hused, hm₀, w, b, hrun, hlock⟩ :=
        lllCall_accesses (t := t) (b := decide (t ∈ m.owners)) h₀ hw.lock
      obtain ⟨m₁, hrun₁, rfl, hown₁⟩ :=
        naps_onWord (I := I) (K := K) onWord_afterLock hrun (.inr rfl) rfl rfl hw.toSameOwner
      have hw₁ : SameWords m₁ m₀ := by
        rw [hm₀]
        exact ⟨⟨hown₁.ownerId, hown₁.cnt, hown₁.shpid⟩, hlock⟩
      have hstart : (Hlpt.Mutex.afterLock k.start : Pc T) = .lockWord k.start := by
        cases k <;> rfl
      rw [hstart] at hrun₁
      refine ⟨used, hused, ?_⟩
      by_cases hok : c₀ = .ok
      · subst hok
        obtain ⟨m', hrun', hw'⟩ := setOwner_accesses (I := I) (t := t) (v := v) hK hw₁
        refine ⟨m', hword.awake ?_, hw'⟩
        simpa using hrun₁.trans hrun'
      · have hret : (Hlpt.Mutex.afterLock (.ret c₀) : Pc T) = .ret c₀ := if_neg hok
        dsimp only at hrun₁
        rw [hret] at hrun₁
        rw [if_neg hok]
        exact ⟨m₁, hword.awake hrun₁, hw₁⟩

/-- A lock that does not sleep is what its thread does alone. -/
theorem lock_alone (hK : SameAttr K a) (hw : SameWords m mx)
    (h : lockCall (.ofThread I t v) a k [] mx = some (c, mx')) :
    ∃ cs m', (Hlpt.Mutex.exec I K).alone t cs (m, .testOwner (.lock k)) = some (m', .ret c) ∧
      SameWords m' mx' := by
  obtain ⟨used, hused, m', hrun, hw'⟩ := lock_accesses hK hw h
  obtain rfl := List.prefix_nil.mp hused
  obtain ⟨cs, hcs⟩ := hrun.alone
  exact ⟨cs, m', hcs, hw'⟩

/-- The release of the word at the end of `pthread_mutex_unlock`. -/
theorem unlockWord_accesses (hw : SameWords m mx) :
    ∃ m', MutexRun I K t [] (m, .unlockWord .unlockSwap) (m', .ret .ok) ∧
      SameWords m' (lllUnlock mx) := by
  obtain ⟨q, hword⟩ := lllUnlock_accesses (t := t) (m := m.lock) (b := decide (t ∈ m.owners))
  obtain ⟨m', hrun, hlock, hown⟩ :=
    naps_onWord (I := I) (K := K) onWord_afterUnlock hword (.inl rfl) rfl rfl hw.toSameOwner
  exact ⟨m', hrun, ⟨hown.ownerId, hown.cnt, hown.shpid⟩, by rw [hlock]; rfl⟩

/-- The last unlock forgets the owner, and then releases the word. -/
theorem clearOwner_accesses (hw : SameWords m mx) :
    ∃ m', MutexRun I K t [] (m, .clearPid) (m', .ret .ok) ∧
      SameWords m' (lllUnlock { mx with ownerId := 0, shpid := 0 }) := by
  have hpid : ∃ m₁, Hlpt.Mutex.exec I K t {} m .clearPid = some (m₁, .clearOwner) ∧
      m₁.shpid = 0 ∧ m₁.cnt = m.cnt ∧ m₁.lock = m.lock :=
    ⟨_, rfl, rfl, rfl, rfl⟩
  obtain ⟨m₁, hpid, hshpid, hcnt, hlock⟩ := hpid
  have howner : Hlpt.Mutex.exec I K t {} m₁ .clearOwner =
      some ({ m₁ with ownerId := 0 }, .unlockWord .unlockSwap) := rfl
  have hw₁ : SameWords { m₁ with ownerId := 0 } { mx with ownerId := 0, shpid := 0 } :=
    ⟨⟨rfl, hcnt.trans hw.cnt, hshpid⟩, (congrArg _ hlock).trans hw.lock⟩
  obtain ⟨m', hrun, hw'⟩ := unlockWord_accesses (I := I) (K := K) (t := t) hw₁
  exact ⟨m', .step trivial hpid (.step trivial howner hrun), hw'⟩

/-- `pthread_mutex_unlock` of a mutex that knows its owner -/
theorem unlock_accesses (hK : SameAttr K a) (hw : SameWords m mx)
    (h : pthreadMutexUnlock (.ofThread I t v) a mx = (c, mx')) :
    ∃ m', MutexRun I K t [] (m, .testOwner .unlock) (m', .ret c) ∧ SameWords m' mx' := by
  obtain ⟨hmine, hother⟩ := test_accesses (I := I) (K := K) (t := t) (k := .unlock) hw.toSameOwner
  have htest : mtxOwnedP (.ofThread I t v) a mx = true ↔ OwnerTest I K t (.unlock) mx :=
    ownedP_iff_ownerTest hK rfl
  unfold pthreadMutexUnlock at h
  cases hκ : K.kind with
  | recursive =>
      have hnext : (K.owned .unlock : Pc T) = .decLoad := by
        simp only [Hlpt.Mutex.Attr.owned, hκ]
      have htype : a.mtxType = .recursive := by rw [hK.type, hκ]; rfl
      simp only [htype] at h
      split at h
      · next hown =>
          have hload : Hlpt.Mutex.exec I K t {} m .decLoad = some (m, .decStore m.cnt) := rfl
          have hstore : Hlpt.Mutex.exec I K t {} m (.decStore m.cnt) =
              some ({ m with cnt := m.cnt - 1, levels := m.levels - 1 },
                if m.cnt - 1 = 0 then .clearPid else .ret .ok) := rfl
          have hdec : MutexRun I K t [] (m, .testOwner .unlock)
              ({ m with cnt := m.cnt - 1, levels := m.levels - 1 },
                if m.cnt - 1 = 0 then .clearPid else .ret .ok) := by
            refine (hmine (htest.mp hown)).awake ?_
            rw [hnext]
            exact .step trivial hload (.single trivial hstore)
          have hw₁ : SameWords { m with cnt := m.cnt - 1, levels := m.levels - 1 }
              { mx with cnt := mx.cnt - 1 } :=
            ⟨⟨hw.ownerId, congrArg (· - 1) hw.cnt, hw.shpid⟩, hw.lock⟩
          rw [← hw.cnt] at h
          split at h
          · next hlast =>
              cases h
              rw [if_pos hlast] at hdec
              obtain ⟨m', hrun, hw'⟩ := clearOwner_accesses (I := I) (K := K) (t := t) hw₁
              rw [← hw.cnt] at hw'
              exact ⟨m', hdec.awake hrun, hw'⟩
          · next hmore =>
              cases h
              rw [if_neg hmore] at hdec
              rw [← hw.cnt] at hw₁
              exact ⟨_, hdec, hw₁⟩
      · next hown =>
          cases h
          exact ⟨m, hother (mt htest.mpr hown), hw⟩
  | errorcheck =>
      have hnext : (K.owned .unlock : Pc T) = .clearPid := by
        simp only [Hlpt.Mutex.Attr.owned, hκ]
      have htype : a.mtxType = .errorcheck := by rw [hK.type, hκ]; rfl
      simp only [htype] at h
      split at h
      · next hown =>
          cases h
          obtain ⟨m', hrun, hw'⟩ := clearOwner_accesses (I := I) (K := K) (t := t) hw
          have hclear := hmine (htest.mp hown)
          rw [hnext] at hclear
          exact ⟨m', hclear.awake hrun, hw'⟩
      · next hown =>
          cases h
          exact ⟨m, hother (mt htest.mpr hown), hw⟩

end Hlpt.MutexCall
