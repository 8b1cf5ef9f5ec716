import Hlpt.RobustLock.Takeover

/-!
# `Hlpt.RobustLock.Polling`: sleepers that nobody will wake

A thread sets `LLL_WAITERS` once, before its second loop. An unlock of a word with this bit
clears it for all sleepers and wakes one of them. The next holder may come from the first
loop or from `lll_robust_trylock`, which do not set the bit, and a sleeper that was woken goes
to sleep again on the word that it finds, with the bit or without.

`lll_lock` stores 2 before every sleep, so it does not have this problem.

* `marked_step_iff`: which steps leave a held word without the bit, but with sleepers.
* `sleepers_marked`: what holds in a run without such steps.
* `sleeper_unmarked`: a holder, a sleeper and no bit.
-/

set_option autoImplicit false

namespace Hlpt.RobustLock

open Hlpt.Lib
open Hlpt.Robust (LLL_OWNER_MASK LLL_WAITERS)

universe u

variable {T : Type u}

/-- A thread sleeps in `gsync_wait`. -/
def Asleep (s : Global T (Mem T) Local) (t : T) : Prop :=
  t ∈ s.mem.sleepers ∧ ∃ d, (s.loc t).pc = .asleep d

/-- When the word is held, no thread is awake in a call and some thread is asleep on the word,
it has `LLL_WAITERS`. -/
def SleepersMarked (s : Global T (Mem T) Local) : Prop :=
  s.mem.word ≠ 0 → (∀ t, (s.loc t).pc = .idle ∨ Asleep s t) → (∃ t, Asleep s t) →
    s.mem.word &&& LLL_WAITERS ≠ 0

/-- A held word that a thread sleeps on has `LLL_WAITERS`. -/
def Marked (m : Mem T) : Prop :=
  m.word ≠ 0 → m.sleepers.Nonempty → m.word &&& LLL_WAITERS ≠ 0

/-- The next access takes the word without the bit only when nobody sleeps on it, and goes to
sleep on a held word only when it has the bit. -/
def PcMarks (m : Mem T) : Pc → Prop
  | .spinCas _ | .tryCas => m.word = 0 → m.sleepers = ∅
  | .trySteal val => m.word = val → m.sleepers = ∅
  | .waitSleep _ val => m.word = val → val ≠ 0 → val &&& LLL_WAITERS ≠ 0
  | _ => True

/-- The condition on a step. -/
def Marks (s : Global T (Mem T) Local) (a : T × Choice T) : Prop :=
  a.2.dies = false → PcMarks s.mem (s.loc a.1).pc

instance [DecidableEq T] (m : Mem T) (pc : Pc) : Decidable (PcMarks m pc) :=
  match pc with
  | .spinCas _ | .tryCas => inferInstanceAs (Decidable (_ → _))
  | .trySteal _ => inferInstanceAs (Decidable (_ → _))
  | .waitSleep _ _ => inferInstanceAs (Decidable (_ → _ → _))
  | .idle | .spinLoad _ | .spinMark .. | .waitLoad _ | .waitCas _ | .waitValid .. | .waitSteal ..
  | .waitClock .. | .asleep _ | .tryLoad | .tryValid _ | .unLoad | .unSetWake | .unCas _
  | .ret _ => isTrue trivial

instance [DecidableEq T] (s : Global T (Mem T) Local) (a : T × Choice T) :
    Decidable (Marks s a) :=
  inferInstanceAs (Decidable (_ → _))

variable {E : Env T} {t : T} {c : Choice T} {m m' : Mem T} {l l' : Local}

/-- The id of a process does not have the bit. -/
theorem pid_and_waiters (E : Env T) (t : T) : E.pid t &&& LLL_WAITERS = 0 := by
  have hdisj : LLL_OWNER_MASK &&& LLL_WAITERS = 0#32 := by decide
  rw [← E.pid_masked, BitVec.and_assoc, hdisj]
  exact BitVec.and_zero

theorem or_waiters_and (v : BitVec 32) : (v ||| LLL_WAITERS) &&& LLL_WAITERS ≠ 0 := by
  rw [or_and_self]
  decide

/-- A thread that takes the word without the bit leaves it marked only when nobody sleeps. -/
theorem marked_take_iff (E : Env T) (t : T) (m : Mem T) :
    Marked (m.take t (E.pid t)) ↔ m.sleepers = ∅ := by
  constructor
  · intro h
    by_contra hne
    exact h (E.pid_ne t) (Finset.nonempty_iff_ne_empty.mpr hne) (pid_and_waiters E t)
  · intro h _ hne
    exact absurd h (Finset.nonempty_iff_ne_empty.mp hne)

variable [DecidableEq T]

omit [DecidableEq T] in
/-- An access that changes nothing. -/
theorem Moves.pcMarks {pc pc' : Pc} (h : Moves m pc pc') : PcMarks m pc := by
  cases h with
  | spinLost hm | tryLost hm => exact fun h0 => absurd h0 hm
  | tryStealLost hm => exact fun h0 => absurd h0 hm
  | waitChanged hm => exact fun h0 => absurd h0 hm
  | _ => trivial

/-- From a state in which the sleepers are marked, exactly the accesses that meet the
condition lead to one. -/
theorem marked_step_iff (h : Step E t m l m' l') (hm : Marked m) :
    Marked m' ↔ PcMarks m l.pc := by
  cases h with
  | move hmoves => exact iff_of_true hm hmoves.pcMarks
  | unlock => exact iff_of_true hm trivial
  | spinTake h0 | tryTake h0 =>
      rw [marked_take_iff]
      exact ⟨fun hq _ => hq, fun hq => hq h0⟩
  | trySteal =>
      rw [marked_take_iff]
      exact ⟨fun hq _ => hq, fun hq => hq rfl⟩
  | waitTake | waitSteal => exact iff_of_true (fun _ _ => or_waiters_and _) trivial
  | spinMark => exact iff_of_true (fun _ _ => or_waiters_and _) trivial
  | sleep =>
      constructor
      · intro hmarked _ hne
        exact hmarked hne (Finset.insert_nonempty t m.sleepers)
      · intro hpc hne _
        exact hpc rfl hne
  | awake =>
      refine iff_of_true (fun hne hq => hm hne ?_) trivial
      exact hq.mono (Finset.erase_subset t m.sleepers)
  | unSetWake hq => exact iff_of_true (fun hne => absurd rfl hne) trivial
  | unCas => exact iff_of_true (fun hne => absurd rfl hne) trivial

/-- A step that meets the condition keeps the sleepers marked. -/
theorem Marked.step {s : Global T (Mem T) Local} (hs : Marked s.mem) (hok : Marks s (t, c))
    (h : exec E t c s.mem (s.loc t) = some (m, l)) : Marked m := by
  obtain ⟨-, ⟨-, rfl, -⟩ | ⟨hdies, hstep⟩⟩ := step_of_exec h
  · -- The threads of a process that dies leave the queue.
    intro hne hq
    exact hs hne (hq.mono (Finset.filter_subset _ _))
  · exact (marked_step_iff hstep hs).mpr (hok hdies)

/-- In every run in which nobody takes the word without `LLL_WAITERS` while a thread sleeps on
it, and nobody goes to sleep on a held word without it, sleepers do not depend on polling. -/
theorem sleepers_marked {s : Global T (Mem T) Local} (h : (machine E).ReachVia Marks s) :
    SleepersMarked s := by
  have hmarked : Marked s.mem := by
    refine Exec.invariant (P := fun s => Marked s.mem) (fun s hs => ?_) ?_ h
    · obtain ⟨⟨dead, hmem⟩, -⟩ := hs
      rw [hmem]
      exact fun hne => absurd rfl hne
    · intro s t c m l hs hok hexec
      exact hs.step hok hexec
  rintro hne - ⟨t, ht, -⟩
  exact hmarked hne ⟨t, ht⟩

/-! ### A sleeper without the bit -/

/-- The next access of a thread of `pair`. -/
def go (t : Bool) : Bool × Choice Bool := (t, {})

/-- One thread takes the word, and the other one marks it and sleeps. -/
def contend : List (Bool × Choice Bool) :=
  List.replicate 4 (go false) ++ List.replicate 6 (go true)

theorem sleepers_marked_contend :
    ∃ s, (machine pair).ReachVia Marks s ∧ (s.loc true).pc = .asleep none ∧
      true ∈ s.mem.sleepers ∧ SleepersMarked s := by
  obtain ⟨s, hs, hpc, hq⟩ := (machine pair).exists_reachVia Marks start_isInit contend
    (fun s => (s.loc true).pc = .asleep none ∧ true ∈ s.mem.sleepers) (by decide)
  exact ⟨s, hs, hpc, hq, sleepers_marked hs⟩

/-- The holder releases the word, which wakes the sleeper, and takes it again in the first
loop. Then the other thread sleeps on the word that it finds. -/
def barge : List (Bool × Choice Bool) :=
  [(false, { call := .lllRobustUnlock }), go false, (false, { pick := some true }), go false] ++
    List.replicate 4 (go false) ++ List.replicate 4 (go true)

/-- The word is held, the only other thread is asleep on it, and it does not have the bit. -/
theorem sleeper_unmarked :
    ∃ s, (machine pair).Reach s ∧ (∀ t, Alive pair s.mem t) ∧ (s.loc false).holds = true ∧
      Asleep s true ∧ ¬ SleepersMarked s := by
  obtain ⟨s, hs, hlive, hholds, hidle, hpc, hq, hword⟩ := (machine pair).exists_reach start_isInit
    (contend ++ barge) (fun s => (s.mem.dead 7 = false ∧ s.mem.dead 9 = false) ∧
      (s.loc false).holds = true ∧ (s.loc false).pc = .idle ∧ (s.loc true).pc = .asleep none ∧
      true ∈ s.mem.sleepers ∧ s.mem.word = 7) (by decide)
  have hasleep : Asleep s true := ⟨hq, none, hpc⟩
  refine ⟨s, hs, ?_, hholds, hasleep, fun hmarked => ?_⟩
  · rintro (_ | _)
    · exact hlive.1
    · exact hlive.2
  · have hquiet : ∀ t, (s.loc t).pc = .idle ∨ Asleep s t := by
      rintro (_ | _)
      · exact .inl hidle
      · exact .inr hasleep
    unfold SleepersMarked at hmarked
    rw [hword] at hmarked
    exact hmarked (by decide) hquiet ⟨true, hasleep⟩ (by decide)

end Hlpt.RobustLock
