import Hlpt.LowLevelLock.Model

/-!
# `Hlpt.LowLevelLock.Invariant`: exclusion, and no lost wake-up

Two invariants of the low-level lock, over every interleaving.

`Excl`: at most one thread holds the lock, and the word is 0 exactly when nobody
does. It needs only what one step does to the word and to the holder
(`exec_word`).

`Awaited`: when somebody sleeps, the word is 2 or some thread has a `Duty`: it
swapped 0 in and has still to issue its wake, or it is awake inside a lock call
whose next access to the word is the swap to 2. A wake that leaves a sleeper
behind hands the duty to the thread it took out (`exec_sleepers`), which is why
a fast acquisition that writes 1 under the sleepers' feet loses nothing.
-/

set_option autoImplicit false

namespace Hlpt.LowLevelLock

open Hlpt.Lib

universe u

variable {T : Type u} [DecidableEq T]

/-! ### The invariants -/

/-- The thread holds the lock. -/
def Holds (s : Global T (Mem T) Local) (t : T) : Prop := (s.loc t).holds = true

/-- The thread is asleep on the word. -/
def Asleep (s : Global T (Mem T) Local) (t : T) : Prop := t ∈ s.mem.sleepers

/-- An awake thread inside a lock call that executes the swap to 2 before it can
leave the call: it stands before the swap, or its sleep was ended by a wake. -/
def BoundToSwap (m : Mem T) (u : T) (l : Local) : Prop :=
  ∃ d, l.pc = .lockSwap d ∨ (l.pc = .asleep d ∧ u ∉ m.sleepers)

/-- The thread swapped in 0 and has still to issue its wake, or it is bound to swap
in 2. -/
def Duty (m : Mem T) (u : T) (l : Local) : Prop :=
  l.pc = .unlockWake ∨ BoundToSwap m u l

/-- At most one holder, the word is 0 exactly when there is none, and only a holder
is before the swap of `lll_unlock`. -/
structure Excl (s : Global T (Mem T) Local) : Prop where
  free : s.mem.word = 0 ↔ ∀ t, ¬ Holds s t
  unique : ∀ t u, Holds s t → Holds s u → t = u
  unlocking : ∀ t, (s.loc t).pc = .unlockSwap → Holds s t

/-- Sleepers are inside `gsync_wait`, and they are not forgotten. -/
structure Awaited (s : Global T (Mem T) Local) : Prop where
  parked : ∀ t ∈ s.mem.sleepers, ∃ d, (s.loc t).pc = .asleep d
  duty : s.mem.sleepers.Nonempty → s.mem.word = 2 ∨ ∃ u, Duty s.mem u (s.loc u)

/-! ### What one step does -/

/-- The steps of a thread, with what they read and what they change. -/
inductive Step (t : T) (c : Choice T) (m : Mem T) : Local → Mem T → Local → Prop
  | lock {holds : Bool} (d : Deadline) : Step t c m ⟨.idle, holds⟩ m ⟨.lockTest d, holds⟩
  | trylock {holds : Bool} : Step t c m ⟨.idle, holds⟩ m ⟨.tryTest, holds⟩
  | unlock {holds : Bool} (hold : holds = true) :
      Step t c m ⟨.idle, holds⟩ m ⟨.unlockSwap, holds⟩
  | free {d : Deadline} {holds : Bool} (hm : m.word = 0) :
      Step t c m ⟨.lockTest d, holds⟩ m ⟨.lockCas d, holds⟩
  | taken {d : Deadline} {holds : Bool} (hm : m.word ≠ 0) :
      Step t c m ⟨.lockTest d, holds⟩ m ⟨.lockSwap d, holds⟩
  | lockCas {d : Deadline} {holds : Bool} (hm : m.word = 0) :
      Step t c m ⟨.lockCas d, holds⟩ { m with word := 1 } ⟨.ret .ok, true⟩
  | lockLost {d : Deadline} {holds : Bool} (hm : m.word ≠ 0) :
      Step t c m ⟨.lockCas d, holds⟩ m ⟨.lockSwap d, holds⟩
  | swapFree {d : Deadline} {holds : Bool} (hm : m.word = 0) :
      Step t c m ⟨.lockSwap d, holds⟩ { m with word := 2 } ⟨.ret .ok, true⟩
  | swapTaken {d : Deadline} {holds : Bool} (hm : m.word ≠ 0) :
      Step t c m ⟨.lockSwap d, holds⟩ { m with word := 2 } ⟨afterSwap d, holds⟩
  | late {tsp : Timespec} {holds : Bool} :
      Step t c m ⟨.lockClock tsp, holds⟩ m ⟨.ret .etimedout, holds⟩
  | early {tsp : Timespec} {holds : Bool} :
      Step t c m ⟨.lockClock tsp, holds⟩ m ⟨.lockWait (some tsp), holds⟩
  | sleep {d : Deadline} {holds : Bool} (hm : m.word = 2) :
      Step t c m ⟨.lockWait d, holds⟩ { m with sleepers := insert t m.sleepers }
        ⟨.asleep d, holds⟩
  | changed {d : Deadline} {holds : Bool} :
      Step t c m ⟨.lockWait d, holds⟩ m ⟨.lockSwap d, holds⟩
  | interrupted {d : Deadline} {holds : Bool} (hin : t ∈ m.sleepers) :
      Step t c m ⟨.asleep d, holds⟩ { m with sleepers := m.sleepers.erase t }
        ⟨.lockSwap d, holds⟩
  | timedout {tsp : Timespec} {holds : Bool} (hin : t ∈ m.sleepers) :
      Step t c m ⟨.asleep (some tsp), holds⟩ { m with sleepers := m.sleepers.erase t }
        ⟨.ret .etimedout, holds⟩
  | woken {d : Deadline} {holds : Bool} (hout : t ∉ m.sleepers) :
      Step t c m ⟨.asleep d, holds⟩ m ⟨.lockSwap d, holds⟩
  | tryFree {holds : Bool} (hm : m.word = 0) : Step t c m ⟨.tryTest, holds⟩ m ⟨.tryCas, holds⟩
  | tryTaken {holds : Bool} : Step t c m ⟨.tryTest, holds⟩ m ⟨.ret .ebusy, holds⟩
  | tryCas {holds : Bool} (hm : m.word = 0) :
      Step t c m ⟨.tryCas, holds⟩ { m with word := 1 } ⟨.ret .ok, true⟩
  | tryLost {holds : Bool} : Step t c m ⟨.tryCas, holds⟩ m ⟨.ret .ebusy, holds⟩
  | unlockAlone {holds : Bool} (hm : m.word = 1) :
      Step t c m ⟨.unlockSwap, holds⟩ { m with word := 0 } ⟨.ret .ok, false⟩
  | unlockSwap {holds : Bool} (hm : m.word ≠ 1) :
      Step t c m ⟨.unlockSwap, holds⟩ { m with word := 0 } ⟨.unlockWake, false⟩
  | unlockWake {q : Finset T} {holds : Bool} (hq : wakeOne m.sleepers c.pick = some q) :
      Step t c m ⟨.unlockWake, holds⟩ { m with sleepers := q } ⟨.ret .ok, holds⟩
  | ret {r : Code} {holds : Bool} : Step t c m ⟨.ret r, holds⟩ m ⟨.idle, holds⟩

/-- Every step is one of them. -/
theorem step_of_exec {t : T} {c : Choice T} {m m' : Mem T} {l l' : Local}
    (h : exec t c m l = some (m', l')) : Step t c m l m' l' := by
  rcases l with ⟨pc, holds⟩
  cases pc with
  | idle =>
    cases hc : c.call with
    | lllLock =>
      simp only [exec, enter, hc] at h
      cases h
      exact .lock none
    | lllAbstimedLock tsp =>
      simp only [exec, enter, hc] at h
      cases h
      exact .lock (some tsp)
    | lllTrylock =>
      simp only [exec, enter, hc] at h
      cases h
      exact .trylock
    | lllUnlock =>
      simp only [exec, enter, hc] at h
      split at h
      · next hold =>
        cases h
        exact .unlock hold
      · cases h
  | lockTest d =>
    cases h
    by_cases hm : m.word = 0
    · simp only [if_pos hm]
      exact .free hm
    · simp only [if_neg hm]
      exact .taken hm
  | lockCas d =>
    simp only [exec] at h
    split at h
    · next hm =>
      cases h
      exact .lockCas hm
    · next hm =>
      cases h
      exact .lockLost hm
  | lockSwap d =>
    simp only [exec] at h
    split at h
    · next hm =>
      cases h
      exact .swapFree hm
    · next hm =>
      cases h
      exact .swapTaken hm
  | lockClock tsp =>
    cases h
    by_cases hlate : expired tsp c.now = true
    · simp only [if_pos hlate]
      exact .late
    · simp only [if_neg hlate]
      exact .early
  | lockWait d =>
    simp only [exec] at h
    split at h
    · next hm =>
      cases h
      exact .sleep hm
    · cases h
      exact .changed
  | asleep d =>
    simp only [exec] at h
    split at h
    · next hin =>
      split at h
      · cases h
        exact .interrupted hin
      · cases h
        exact .timedout hin
      · cases h
    · next hout =>
      cases h
      exact .woken hout
  | tryTest =>
    cases h
    by_cases hm : m.word = 0
    · simp only [if_pos hm]
      exact .tryFree hm
    · simp only [if_neg hm]
      exact .tryTaken
  | tryCas =>
    simp only [exec] at h
    split at h
    · next hm =>
      cases h
      exact .tryCas hm
    · cases h
      exact .tryLost
  | unlockSwap =>
    cases h
    by_cases hm : m.word = 1
    · simp only [if_pos hm]
      exact .unlockAlone hm
    · simp only [if_neg hm]
      exact .unlockSwap hm
  | unlockWake =>
    obtain ⟨q, hq, heq⟩ := Option.map_eq_some_iff.mp h
    cases heq
    exact .unlockWake hq
  | ret r =>
    cases h
    exact .ret

/-- The two values of a taken word are not 0. -/
theorem one_ne_free : (1 : BitVec 32) ≠ 0 ∧ (2 : BitVec 32) ≠ 0 := by decide

/-- A step leaves the word and the holder alone, marks a taken word as contended,
takes a free word, or releases it. -/
theorem exec_word {t : T} {c : Choice T} {m m' : Mem T} {l l' : Local}
    (h : exec t c m l = some (m', l')) :
    (m'.word = m.word ∧ l'.holds = l.holds) ∨
    (m.word ≠ 0 ∧ m'.word ≠ 0 ∧ l'.holds = l.holds) ∨
    (m.word = 0 ∧ m'.word ≠ 0 ∧ l'.holds = true) ∨
    (l.pc = .unlockSwap ∧ m'.word = 0 ∧ l'.holds = false) := by
  cases step_of_exec h with
  | lockCas hm => exact .inr (.inr (.inl ⟨hm, one_ne_free.1, rfl⟩))
  | swapFree hm => exact .inr (.inr (.inl ⟨hm, one_ne_free.2, rfl⟩))
  | swapTaken hm => exact .inr (.inl ⟨hm, one_ne_free.2, rfl⟩)
  | tryCas hm => exact .inr (.inr (.inl ⟨hm, one_ne_free.1, rfl⟩))
  | unlockAlone hm => exact .inr (.inr (.inr ⟨rfl, rfl, rfl⟩))
  | unlockSwap hm => exact .inr (.inr (.inr ⟨rfl, rfl, rfl⟩))
  | _ => exact .inl ⟨rfl, rfl⟩

/-- The thread is inside one of the lock calls. -/
def InLock : Pc → Prop
  | .lockTest _ | .lockCas _ | .lockSwap _ | .lockClock _ | .lockWait _ | .asleep _
  | .tryTest | .tryCas => True
  | _ => False

/-- A lock call takes a free word and returns 0, or it goes on or fails, and leaves a taken
word taken. -/
theorem exec_inLock {t : T} {c : Choice T} {m m' : Mem T} {l l' : Local}
    (h : exec t c m l = some (m', l')) (hl : InLock l.pc) :
    (l'.pc = .ret .ok ∧ m.word = 0 ∧ m'.word ≠ 0 ∧ l'.holds = true) ∨
    ((InLock l'.pc ∨ ∃ r, r ≠ .ok ∧ r ≠ .eperm ∧ l'.pc = .ret r) ∧ (m'.word = 0 ↔ m.word = 0) ∧
      l'.holds = l.holds) := by
  cases step_of_exec h with
  | free hm => exact .inr ⟨.inl trivial, Iff.rfl, rfl⟩
  | taken hm => exact .inr ⟨.inl trivial, Iff.rfl, rfl⟩
  | lockCas hm => exact .inl ⟨rfl, hm, one_ne_free.1, rfl⟩
  | lockLost hm => exact .inr ⟨.inl trivial, Iff.rfl, rfl⟩
  | swapFree hm => exact .inl ⟨rfl, hm, one_ne_free.2, rfl⟩
  | @swapTaken d holds hm =>
    refine .inr ⟨?_, iff_of_false one_ne_free.2 hm, rfl⟩
    cases d with
    | none => exact .inl trivial
    | some tsp =>
      simp only [afterSwap]
      split
      · exact .inr ⟨.einval, by decide, by decide, rfl⟩
      · exact .inl trivial
  | late => exact .inr ⟨.inr ⟨.etimedout, by decide, by decide, rfl⟩, Iff.rfl, rfl⟩
  | early => exact .inr ⟨.inl trivial, Iff.rfl, rfl⟩
  | sleep hm => exact .inr ⟨.inl trivial, Iff.rfl, rfl⟩
  | changed => exact .inr ⟨.inl trivial, Iff.rfl, rfl⟩
  | interrupted hin => exact .inr ⟨.inl trivial, Iff.rfl, rfl⟩
  | timedout hin => exact .inr ⟨.inr ⟨.etimedout, by decide, by decide, rfl⟩, Iff.rfl, rfl⟩
  | woken hout => exact .inr ⟨.inl trivial, Iff.rfl, rfl⟩
  | tryFree hm => exact .inr ⟨.inl trivial, Iff.rfl, rfl⟩
  | tryTaken => exact .inr ⟨.inr ⟨.ebusy, by decide, by decide, rfl⟩, Iff.rfl, rfl⟩
  | tryCas hm => exact .inl ⟨rfl, hm, one_ne_free.1, rfl⟩
  | tryLost => exact .inr ⟨.inr ⟨.ebusy, by decide, by decide, rfl⟩, Iff.rfl, rfl⟩
  | _ => exact absurd hl id

/-- The swap of `lll_unlock` frees the word. -/
theorem exec_unlockSwap {t : T} {c : Choice T} {m m' : Mem T} {b : Bool} {l' : Local}
    (h : exec t c m ⟨.unlockSwap, b⟩ = some (m', l')) :
    m' = { m with word := 0 } ∧ l'.holds = false ∧
      (l'.pc = .ret .ok ∧ m.word = 1 ∨ l'.pc = .unlockWake ∧ m.word ≠ 1) := by
  cases h
  refine ⟨rfl, rfl, ?_⟩
  by_cases hm : m.word = 1
  · exact .inl ⟨if_pos hm, hm⟩
  · exact .inr ⟨if_neg hm, hm⟩

/-- The wake of `lll_unlock` changes the sleepers only. -/
theorem exec_unlockWake {t : T} {c : Choice T} {m m' : Mem T} {b : Bool} {l' : Local}
    (h : exec t c m ⟨.unlockWake, b⟩ = some (m', l')) :
    m'.word = m.word ∧ l' = ⟨.ret .ok, b⟩ := by
  obtain ⟨q, -, hr⟩ := Option.map_eq_some_iff.mp h
  cases hr
  exact ⟨rfl, rfl⟩

/-- A call of `lll_unlock` starts only with a holder. -/
theorem exec_unlocking {t : T} {c : Choice T} {m m' : Mem T} {l l' : Local}
    (h : exec t c m l = some (m', l')) (hpc : l'.pc = .unlockSwap) : l'.holds = true := by
  have hafter : ∀ d, afterSwap d ≠ .unlockSwap := by
    intro d
    cases d with
    | none => exact nofun
    | some tsp =>
      simp only [afterSwap]
      split <;> exact nofun
  cases step_of_exec h with
  | unlock hold => exact hold
  | swapTaken hm => exact absurd hpc (hafter _)
  | _ => cases hpc

/-- A step puts at most its own thread to sleep, and then inside `gsync_wait`. -/
theorem exec_parked {t : T} {c : Choice T} {m m' : Mem T} {l l' : Local}
    (h : exec t c m l = some (m', l')) (hp : t ∈ m.sleepers → ∃ d, l.pc = .asleep d) :
    (t ∈ m'.sleepers → ∃ d, l'.pc = .asleep d) ∧ m'.sleepers ⊆ insert t m.sleepers := by
  have hsub := Finset.subset_insert t m.sleepers
  have herase := (Finset.erase_subset t m.sleepers).trans hsub
  have hawake : (∀ d, l.pc ≠ .asleep d) → t ∉ m.sleepers := by
    intro hne hin
    obtain ⟨d, hd⟩ := hp hin
    exact hne d hd
  cases step_of_exec h with
  | sleep hm => exact ⟨fun _ => ⟨_, rfl⟩, Finset.Subset.refl _⟩
  | interrupted hin => exact ⟨fun hin' => absurd hin' (Finset.notMem_erase t _), herase⟩
  | timedout hin => exact ⟨fun hin' => absurd hin' (Finset.notMem_erase t _), herase⟩
  | woken hout => exact ⟨fun hin => absurd hin hout, hsub⟩
  | unlockWake hq =>
    have hq' := wakeOne_subset hq
    exact ⟨fun hin => absurd (hq' hin) (hawake nofun), hq'.trans hsub⟩
  | _ => exact ⟨fun hin => absurd hin (hawake nofun), hsub⟩

omit [DecidableEq T] in
/-- A thread elsewhere has no duty. -/
theorem not_duty {t : T} {m : Mem T} {l : Local} (hwake : l.pc ≠ .unlockWake)
    (hswap : ∀ d, l.pc ≠ .lockSwap d) (hasleep : ∀ d, l.pc ≠ .asleep d) : ¬ Duty m t l := by
  rintro (hd | ⟨d, hd | ⟨hd, -⟩⟩)
  · exact hwake hd
  · exact hswap d hd
  · exact hasleep d hd

/-- After a step the word is 2, or the thread that moved has a duty, or it had none
and nobody new sleeps, or it was an unlocker that issued its wake. -/
theorem exec_duty {t : T} {c : Choice T} {m m' : Mem T} {l l' : Local}
    (h : exec t c m l = some (m', l')) :
    m'.word = 2 ∨ Duty m' t l' ∨
    (m.word ≠ 2 ∧ m'.sleepers ⊆ m.sleepers ∧ ¬ Duty m t l) ∨
    (l.pc = .unlockWake ∧ wakeOne m.sleepers c.pick = some m'.sleepers) := by
  have hkeep : m'.word = m.word → m'.sleepers ⊆ m.sleepers → ¬ Duty m t l →
      m'.word = 2 ∨ Duty m' t l' ∨
      (m.word ≠ 2 ∧ m'.sleepers ⊆ m.sleepers ∧ ¬ Duty m t l) ∨
      (l.pc = .unlockWake ∧ wakeOne m.sleepers c.pick = some m'.sleepers) := by
    intro hw hsub hd
    by_cases h2 : m.word = 2
    · exact .inl (hw.trans h2)
    · exact .inr (.inr (.inl ⟨h2, hsub, hd⟩))
  have htaken : m.word = 0 → m.word ≠ 2 := by
    intro h0 h2
    rw [h0] at h2
    exact one_ne_free.2 h2.symm
  cases step_of_exec h with
  | taken hm => exact .inr (.inl (.inr ⟨_, .inl rfl⟩))
  | lockCas hm =>
    exact .inr (.inr (.inl ⟨htaken hm, Finset.Subset.refl _, not_duty nofun nofun nofun⟩))
  | lockLost hm => exact .inr (.inl (.inr ⟨_, .inl rfl⟩))
  | swapFree hm => exact .inl rfl
  | swapTaken hm => exact .inl rfl
  | sleep hm => exact .inl hm
  | changed => exact .inr (.inl (.inr ⟨_, .inl rfl⟩))
  | interrupted hin => exact .inr (.inl (.inr ⟨_, .inl rfl⟩))
  | timedout hin =>
    -- Nobody woke the thread, and it hands no duty on.
    refine hkeep rfl (Finset.erase_subset t _) ?_
    rintro (hd | ⟨d, hd | ⟨-, hout⟩⟩)
    · cases hd
    · cases hd
    · exact hout hin
  | woken hout => exact .inr (.inl (.inr ⟨_, .inl rfl⟩))
  | tryCas hm =>
    exact .inr (.inr (.inl ⟨htaken hm, Finset.Subset.refl _, not_duty nofun nofun nofun⟩))
  | unlockAlone hm =>
    refine .inr (.inr (.inl ⟨?_, Finset.Subset.refl _, not_duty nofun nofun nofun⟩))
    rw [hm]
    decide
  | unlockSwap hm => exact .inr (.inl (.inl rfl))
  | unlockWake hq => exact .inr (.inr (.inr ⟨rfl, hq⟩))
  | _ => exact hkeep rfl (Finset.Subset.refl _) (not_duty nofun nofun nofun)

/-! ### The invariants hold in every reachable state -/

/-- A step keeps exclusion. -/
theorem Excl.step {s : Global T (Mem T) Local} (hs : Excl s) {t : T} {c : Choice T}
    {m : Mem T} {p : Local} (h : exec t c s.mem (s.loc t) = some (m, p)) :
    Excl ⟨m, Function.update s.loc t p⟩ := by
  have hself : Function.update s.loc t p t = p := Function.update_self _ _ _
  have hother : ∀ u, u ≠ t → Function.update s.loc t p u = s.loc u :=
    fun u hu => Function.update_of_ne hu _ _
  have hsame : p.holds = (s.loc t).holds →
      ∀ u, (Function.update s.loc t p u).holds = (s.loc u).holds := by
    intro hh u
    by_cases hut : u = t
    · rw [hut, hself, hh]
    · rw [hother u hut]
  have hunlocking : ∀ u, (Function.update s.loc t p u).pc = .unlockSwap →
      (Function.update s.loc t p u).holds = true :=
    (forall_loc_iff (P := fun _ (l : Local) => l.pc = .unlockSwap → l.holds = true)).mpr
      ⟨exec_unlocking h, fun u _ => hs.unlocking u⟩
  rcases exec_word h with ⟨hw, hh⟩ | ⟨hw, hw', hh⟩ | ⟨hw, hw', hh⟩ | ⟨hpc, hw', hh⟩
  · refine ⟨?_, ?_, hunlocking⟩
    · simp only [Holds, hsame hh, hw]
      exact hs.free
    · simp only [Holds, hsame hh]
      exact hs.unique
  · refine ⟨?_, ?_, hunlocking⟩
    · simp only [Holds, hsame hh]
      exact iff_of_false hw' fun hno => hw (hs.free.mpr hno)
    · simp only [Holds, hsame hh]
      exact hs.unique
  · -- Nobody held the free lock.
    have honly : ∀ u, (Function.update s.loc t p u).holds = true → u = t := by
      intro u hu
      by_contra hut
      rw [hother u hut] at hu
      exact hs.free.mp hw u hu
    refine ⟨iff_of_false hw' fun hno => hno t ?_, ?_, hunlocking⟩
    · show (Function.update s.loc t p t).holds = true
      rw [hself, hh]
    · intro u v hu hv
      rw [honly u hu, honly v hv]
  · -- The one holder gives it up.
    have hnone : ∀ u, (Function.update s.loc t p u).holds ≠ true := by
      intro u hu
      by_cases hut : u = t
      · rw [hut, hself, hh] at hu
        cases hu
      · rw [hother u hut] at hu
        exact hut (hs.unique u t hu (hs.unlocking t hpc))
    exact ⟨iff_of_true hw' hnone, fun u v hu => absurd hu (hnone u), hunlocking⟩

/-- Exclusion holds in every reachable state. -/
theorem excl_of_reach {s : Global T (Mem T) Local} (h : machine.Reach s) : Excl s := by
  refine Exec.invariant (fun s hs => ?_) (fun s t c m p hp _ he => hp.step he) h
  obtain ⟨hm, hl⟩ := hs
  constructor <;> simp [Holds, hm, hl]

omit [DecidableEq T] in
/-- A thread's duty survives when fewer threads sleep. -/
theorem Duty.mono {m m' : Mem T} {u : T} {l : Local} (h : Duty m u l)
    (hsub : m'.sleepers ⊆ m.sleepers) : Duty m' u l := by
  rcases h with h | ⟨d, h | ⟨h, hu⟩⟩
  · exact .inl h
  · exact .inr ⟨d, .inl h⟩
  · exact .inr ⟨d, .inr ⟨h, fun hm => hu (hsub hm)⟩⟩

/-- A step forgets no sleeper. -/
theorem Awaited.step {s : Global T (Mem T) Local} (hs : Awaited s) {t : T} {c : Choice T}
    {m : Mem T} {p : Local} (h : exec t c s.mem (s.loc t) = some (m, p)) :
    Awaited ⟨m, Function.update s.loc t p⟩ := by
  obtain ⟨hparked, hduty⟩ := hs
  obtain ⟨ht, hsub⟩ := exec_parked h (hparked t)
  constructor
  · intro u hu
    by_cases hut : u = t
    · subst hut
      simpa using ht hu
    · simpa [hut] using hparked u (Finset.mem_of_mem_insert_of_ne (hsub hu) hut)
  · intro hne
    rcases exec_duty h with hw | hd | ⟨hw, hsub', hnd⟩ | ⟨hpc, hwake⟩
    · exact .inl hw
    · exact .inr ⟨t, by simpa using hd⟩
    · -- The thread that moved had no duty, so the one that has it is another one.
      obtain ⟨u, hu⟩ := (hduty (hne.mono hsub')).resolve_left hw
      have hut : u ≠ t := fun he => hnd (he ▸ hu)
      exact .inr ⟨u, by simpa [hut] using hu.mono hsub'⟩
    · -- The wake left a sleeper behind, so it took another one out.
      obtain ⟨u, hu, hu'⟩ := exists_woken hwake hne
      obtain ⟨d, hd⟩ := hparked u hu
      have hut : u ≠ t := by
        rintro rfl
        rw [hpc] at hd
        cases hd
      refine .inr ⟨u, ?_⟩
      simp only [Function.update_of_ne hut]
      exact .inr ⟨d, .inr ⟨hd, hu'⟩⟩

/-- Sleepers are awaited in every reachable state. -/
theorem awaited_of_reach {s : Global T (Mem T) Local} (h : machine.Reach s) : Awaited s := by
  refine Exec.invariant (fun s hs => ?_) (fun s t c m p hp _ he => hp.step he) h
  obtain ⟨hm, -⟩ := hs
  constructor <;> simp [hm]

/-- What `BoundToSwap` promises: whatever the thread does next, it either swaps 2 into
the word or is still bound to. -/
theorem BoundToSwap.step {t : T} {c : Choice T} {m m' : Mem T} {l l' : Local}
    (hb : BoundToSwap m t l) (h : exec t c m l = some (m', l')) :
    (∃ d, l.pc = .lockSwap d ∧ m'.word = 2) ∨ BoundToSwap m' t l' := by
  rcases l with ⟨pc, holds⟩
  obtain ⟨d, hpc | ⟨hpc, ht⟩⟩ := hb
  · obtain rfl : pc = .lockSwap d := hpc
    cases step_of_exec h with
    | swapFree hm => exact .inl ⟨d, rfl, rfl⟩
    | swapTaken hm => exact .inl ⟨d, rfl, rfl⟩
  · obtain rfl : pc = .asleep d := hpc
    cases step_of_exec h with
    | interrupted hin => exact absurd hin ht
    | timedout hin => exact absurd hin ht
    | woken hout => exact .inr ⟨d, .inl rfl⟩

/-- The low-level lock, in every reachable state: at most one thread holds it, the
word is 0 exactly when nobody does, and when a thread sleeps, the word is 2 or a
thread that swapped 0 in has still to wake somebody, or an awake thread is bound to
swap 2 in before it leaves its lock call. -/
theorem lll_exclusive_and_awaited {s : Global T (Mem T) Local} (h : machine.Reach s) :
    (∀ t u, Holds s t → Holds s u → t = u) ∧
    (s.mem.word = 0 ↔ ∀ t, ¬ Holds s t) ∧
    (∀ t, Asleep s t → s.mem.word = 2 ∨ (∃ u, (s.loc u).pc = .unlockWake) ∨
      ∃ u, BoundToSwap s.mem u (s.loc u)) := by
  have he := excl_of_reach h
  refine ⟨he.unique, he.free, ?_⟩
  intro t ht
  rcases (awaited_of_reach h).duty ⟨t, ht⟩ with hw | ⟨u, hu | hu⟩
  · exact .inl hw
  · exact .inr (.inl ⟨u, hu⟩)
  · exact .inr (.inr ⟨u, hu⟩)

/-- A run in which the second thread sleeps and the first one, after its swap of 0, owes
the wake. -/
theorem lll_exclusive_and_awaited_two : ∃ s : Global (Fin 2) (Mem (Fin 2)) Local,
    machine.Reach s ∧ Asleep s 1 ∧ s.mem.word = 0 ∧
    (∀ t u, Holds s t → Holds s u → t = u) ∧
    (s.mem.word = 0 ↔ ∀ t, ¬ Holds s t) ∧
    (∀ t, Asleep s t → s.mem.word = 2 ∨ (∃ u, (s.loc u).pc = .unlockWake) ∨
      ∃ u, BoundToSwap s.mem u (s.loc u)) := by
  obtain ⟨s, hs, ha, hw⟩ := (machine (T := Fin 2)).exists_reach
    (s := ⟨⟨0, ∅⟩, fun _ => ⟨.idle, false⟩⟩) ⟨rfl, fun _ => rfl⟩
    [(0, {}), (0, {}), (0, {}), (0, {}), (1, {}), (1, {}), (1, {}), (1, {}),
      (0, { call := .lllUnlock }), (0, {})]
    (fun s => 1 ∈ s.mem.sleepers ∧ s.mem.word = 0) (by decide)
  exact ⟨s, hs, ha, hw, lll_exclusive_and_awaited hs⟩

end Hlpt.LowLevelLock
