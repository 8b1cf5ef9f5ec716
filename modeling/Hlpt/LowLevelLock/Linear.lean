import Hlpt.LowLevelLock.Invariant
import Hlpt.Lib.Linear

/-!
# `Hlpt.LowLevelLock.Linear`: the low-level lock is an atomic lock with an owner

A lock call takes effect at the compare-and-swap or the swap that finds the word 0, and a
call that fails at the access that decides its code. `lll_unlock` takes effect at its swap:
its wake comes after the lock is free, and another thread may have it by then. What a
sleeping thread goes through between two of its swaps is no step of the atomic lock.

* `lll_linearizable`: every history of `lll_lock`, `__lll_abstimed_lock`, `lll_trylock`
  and `lll_unlock` on one word is a history of `ownedLock`.
-/

set_option autoImplicit false

namespace Hlpt.LowLevelLock

open Hlpt.Lib

universe u

variable {T : Type u} [DecidableEq T]

/-- The atomic lock. Its state is the owner. A bad deadline is looked at only when the lock
is taken, and only a good one runs out. -/
def ownedLock : Object T (Option T) Call Code where
  init owner := owner = none
  apply t o r owner :=
    match o, r, owner with
    | .lllLock, .ok, none => some (some t)
    | .lllAbstimedLock _, .ok, none => some (some t)
    | .lllAbstimedLock tsp, .einval, some u => if tsp.badNsec then some (some u) else none
    | .lllAbstimedLock tsp, .etimedout, owner => if tsp.badNsec then none else some owner
    | .lllTrylock, .ok, none => some (some t)
    | .lllTrylock, .ebusy, some u => some (some u)
    | .lllUnlock, .ok, some u => if u = t then some none else none
    | _, _, _ => none

/-- The lock call with the deadline. -/
def lockCall : Deadline → Call
  | none => .lllLock
  | some tsp => .lllAbstimedLock tsp

/-- How far a thread is with its call. -/
def phase : Pc → Phase Call Code
  | .idle => .idle
  | .lockTest d | .lockCas d | .lockSwap d | .lockWait d | .asleep d => .called (lockCall d)
  | .lockClock tsp => .called (.lllAbstimedLock tsp)
  | .tryTest | .tryCas => .called .lllTrylock
  | .unlockSwap => .called .lllUnlock
  | .unlockWake => .done .ok
  | .ret r => .done r

/-- Inside a lock call nobody is in `lll_unlock`. -/
theorem phase_ne_unlock {p : Pc} (hp : InLock p) : phase p ≠ .called .lllUnlock := by
  intro h
  cases p with
  | lockTest d | lockCas d | lockSwap d | lockWait d | asleep d => cases d <;> cases h
  | lockClock tsp => cases h
  | tryTest => cases h
  | tryCas => cases h
  | _ => exact hp.elim

/-- The event of a step: an idle thread calls a function, or its call returns. -/
def label (c : Choice T) (l : Local) : Option (Event Call Code) :=
  match l.pc with
  | .idle => some (.inv c.call)
  | .ret r => some (.res r)
  | _ => none

/-- The deadline of a thread that may run into it was checked. -/
def Checked : Pc → Prop
  | .lockClock tsp | .lockWait (some tsp) | .asleep (some tsp) => tsp.badNsec = false
  | _ => True

/-- After a swap that found the word taken, a bad deadline ends the call. -/
theorem moves_afterSwap (t u : T) (d : Deadline) :
    ownedLock.Moves t none (.called (lockCall d)) (some u) (phase (afterSwap d)) (some u) := by
  cases d with
  | none => exact .stutter
  | some tsp =>
      rw [afterSwap]
      split
      · next hbad => exact .eff (if_pos hbad)
      · exact .stutter

/-- A thread goes to a checked deadline, or keeps the one it has. -/
theorem checked_of_exec {t : T} {c : Choice T} {m m' : Mem T} {l l' : Local}
    (hl : Checked l.pc) (h : exec t c m l = some (m', l')) : Checked l'.pc := by
  cases step_of_exec h with
  | @swapTaken d holds hm =>
      cases d with
      | none => trivial
      | some tsp =>
          show Checked (if tsp.badNsec then .ret .einval else .lockClock tsp)
          split
          · trivial
          · next hgood => simpa [Checked] using hgood
  | early => exact hl
  | @sleep d holds hm => cases d <;> exact hl
  | _ => trivial

/-- A lock call does not end without its return. -/
theorem exec_ne_idle {t : T} {c : Choice T} {m m' : Mem T} {l l' : Local} (hl : InLock l.pc)
    (h : exec t c m l = some (m', l')) : l'.pc ≠ .idle := by
  intro hidle
  rcases exec_inLock h hl with ⟨hpc, -⟩ | ⟨hin | ⟨r, -, -, hpc⟩, -⟩
  · rw [hpc] at hidle
    cases hidle
  · rw [hidle] at hin
    exact hin
  · rw [hpc] at hidle
    cases hidle

/-- The owner that the atomic lock should have. -/
def Owner (s : Global T (Mem T) Local) (owner : Option T) : Prop :=
  (s.mem.word = 0 ↔ owner = none) ∧ ∀ t, (s.loc t).holds = true ↔ owner = some t

/-- One access of a thread is nothing to the atomic lock, or the effect of its call. The
owner changes only from or to the thread itself. -/
theorem moves_of_exec {t : T} {c : Choice T} {m m' : Mem T} {l l' : Local} {owner : Option T}
    (h : exec t c m l = some (m', l')) (hw : m.word = 0 ↔ owner = none)
    (hh : l.holds = true ↔ owner = some t) (hun : l.pc = .unlockSwap → l.holds = true)
    (hl : Checked l.pc) :
    ∃ owner', ownedLock.Moves t (label c l) (phase l.pc) owner (phase l'.pc) owner' ∧
      (m'.word = 0 ↔ owner' = none) ∧ (l'.holds = true ↔ owner' = some t) ∧
      ∀ u, u ≠ t → (owner' = some u ↔ owner = some u) := by
  rcases l with ⟨pc, holds⟩
  have hothers : ∀ u, u ≠ t → (owner = some u ↔ owner = some u) := fun _ _ => Iff.rfl
  -- A free lock is taken by `t`.
  have htake : ∀ u, u ≠ t → (some t = some u ↔ (none : Option T) = some u) := by
    intro u hu
    simp [hu.symm]
  cases pc with
  | idle =>
      obtain ⟨l₁, henter, heq⟩ := Option.map_eq_some_iff.mp h
      cases heq
      refine ⟨owner, ?_, hw, ?_, hothers⟩
      · cases hc : c.call with
        | lllUnlock =>
            rw [hc, enter] at henter
            split at henter
            · cases henter
              simp only [label, hc]
              exact .inv _
            · cases henter
        | _ =>
            rw [hc] at henter
            cases henter
            simp only [label, hc]
            exact .inv _
      · have hkeep : l'.holds = holds := by
          cases hc : c.call with
          | lllUnlock =>
              rw [hc, enter] at henter
              split at henter <;> cases henter
              rfl
          | _ =>
              rw [hc] at henter
              cases henter
              rfl
        rwa [hkeep]
  | lockTest d =>
      cases h
      refine ⟨owner, ?_, hw, hh, hothers⟩
      dsimp only
      split <;> exact .stutter
  | lockCas d =>
      simp only [exec] at h
      split at h
      · next hfree =>
        cases h
        obtain rfl := hw.mp hfree
        -- The lock is taken with the store to a free word.
        refine ⟨some t, .eff ?_, by simp, by simp, htake⟩
        cases d <;> rfl
      · cases h
        exact ⟨owner, .stutter, hw, hh, hothers⟩
  | lockSwap d =>
      simp only [exec] at h
      split at h
      · next hfree =>
        cases h
        obtain rfl := hw.mp hfree
        refine ⟨some t, .eff ?_, by simp, by simp, htake⟩
        cases d <;> rfl
      · next htaken =>
        cases h
        obtain ⟨u, rfl⟩ := Option.ne_none_iff_exists'.mp fun hnone => htaken (hw.mpr hnone)
        exact ⟨some u, moves_afterSwap t u d, by simp, hh, hothers⟩
  | lockClock tsp =>
      cases h
      refine ⟨owner, ?_, hw, hh, hothers⟩
      dsimp only
      split
      · -- The deadline is past. The call fails, whoever has the lock.
        refine .eff ?_
        show (if tsp.badNsec = true then none else some owner) = some owner
        rw [hl]
        rfl
      · exact .stutter
  | lockWait d =>
      simp only [exec] at h
      split at h <;> cases h
      · exact ⟨owner, .stutter, hw, hh, hothers⟩
      · exact ⟨owner, .stutter, hw, hh, hothers⟩
  | asleep d =>
      simp only [exec] at h
      split at h
      · split at h
        · cases h
          exact ⟨owner, .stutter, hw, hh, hothers⟩
        · -- The deadline has passed in the sleep.
          cases h
          refine ⟨owner, .eff ?_, hw, hh, hothers⟩
          show (if Timespec.badNsec _ = true then none else some owner) = some owner
          rw [hl]
          rfl
        · cases h
      · cases h
        exact ⟨owner, .stutter, hw, hh, hothers⟩
  | tryTest =>
      cases h
      refine ⟨owner, ?_, hw, hh, hothers⟩
      dsimp only
      split
      · exact .stutter
      · next htaken =>
        obtain ⟨u, rfl⟩ := Option.ne_none_iff_exists'.mp fun hnone => htaken (hw.mpr hnone)
        -- It is enough for the failure that the lock was taken at the load.
        exact .eff rfl
  | tryCas =>
      simp only [exec] at h
      split at h
      · next hfree =>
        cases h
        obtain rfl := hw.mp hfree
        exact ⟨some t, .eff rfl, by simp, by simp, htake⟩
      · next htaken =>
        cases h
        obtain ⟨u, rfl⟩ := Option.ne_none_iff_exists'.mp fun hnone => htaken (hw.mpr hnone)
        exact ⟨some u, .eff rfl, hw, hh, hothers⟩
  | unlockSwap =>
      cases h
      obtain rfl := hh.mp (hun rfl)
      refine ⟨none, ?_, by simp, by simp, fun u hu => by simp [hu.symm]⟩
      -- The lock is free with the swap. The wake is no part of the effect.
      have heff : ownedLock.apply t .lllUnlock .ok (some t) = some none := if_pos rfl
      dsimp only
      split <;> exact .eff heff
  | unlockWake =>
      obtain ⟨q, -, heq⟩ := Option.map_eq_some_iff.mp h
      cases heq
      exact ⟨owner, .stutter, hw, hh, hothers⟩
  | ret r =>
      cases h
      exact ⟨owner, .res r, hw, hh, hothers⟩

/-- The accesses simulate the atomic lock. -/
theorem simulates : exec.Simulates (T := T) IsInit (fun _ _ => True) label ownedLock
    (fun l q => q = phase l.pc) (fun s => Excl s ∧ ∀ t, Checked (s.loc t).pc) Owner where
  init := by
    rintro s ⟨hmem, hloc⟩
    refine ⟨⟨none, rfl, ?_, fun t => ?_⟩, fun t => by rw [hloc t]; rfl⟩
    · rw [hmem]
      simp
    · rw [hloc t]
      simp
  step := by
    rintro s t c m l owner q ⟨hexcl, hchecked⟩ ⟨hw, hh⟩ rfl - he
    obtain ⟨owner', hmove, hw', hh', hothers⟩ :=
      moves_of_exec he hw (hh t) (hexcl.unlocking t) (hchecked t)
    have hrest : ∀ u, u ≠ t → ((s.loc u).holds = true ↔ owner' = some u) := by
      intro u hu
      rw [hothers u hu]
      exact hh u
    exact ⟨owner', _, hmove, rfl, hw',
      (forall_loc_iff (P := fun u (p : Local) => p.holds = true ↔ owner' = some u)).mpr
        ⟨hh', hrest⟩⟩

/-- Every history of the low-level lock is a history of the atomic lock with an owner,
whatever the order of the accesses, wakes, interruptions and timeouts. -/
theorem lll_linearizable {H : List (T × Event Call Code)} {s : Global T (Mem T) Local}
    (h : exec.History IsInit (fun _ _ => True) label H s) : ownedLock.Linearizable H := by
  refine h.linearizable (fun s hs => ⟨excl_of_reach hs, ?_⟩) simulates
  refine Exec.invariant_loc (fun s t hs => ?_) (fun t c m l m' l' => checked_of_exec) hs
  rw [hs.2 t]
  trivial

/-- The thread 0 locks. The thread 1 finds the word taken, sleeps until its deadline is past
and fails; its second call is a try, which fails too. -/
theorem lll_linearizable_timeout : ownedLock.Linearizable (T := Fin 2)
    [(0, .inv .lllLock), (0, .res .ok), (1, .inv (.lllAbstimedLock ⟨5, 0⟩)),
      (1, .res .etimedout), (1, .inv .lllTrylock), (0, .inv .lllUnlock), (1, .res .ebusy),
      (0, .res .ok)] := by
  have hrun : ∃ s, (exec (T := Fin 2)).History IsInit (fun _ _ => True) label
      [(0, .inv .lllLock), (0, .res .ok), (1, .inv (.lllAbstimedLock ⟨5, 0⟩)),
        (1, .res .etimedout), (1, .inv .lllTrylock), (0, .inv .lllUnlock), (1, .res .ebusy),
        (0, .res .ok)] s :=
    Exec.exists_history_run (s := ⟨⟨0, ∅⟩, fun _ => ⟨.idle, false⟩⟩) ⟨rfl, fun _ => rfl⟩
      [(0, {}), (0, {}), (0, {}), (0, {}), (1, { call := .lllAbstimedLock ⟨5, 0⟩ }), (1, {}),
        (1, {}), (1, {}), (1, {}), (1, { ends := some .timedout }), (1, {}),
        (1, { call := .lllTrylock }), (1, {}), (0, { call := .lllUnlock }), (0, {}), (1, {}),
        (0, {}), (0, {})] (by decide)
  obtain ⟨s, hs⟩ := hrun
  exact lll_linearizable hs

end Hlpt.LowLevelLock
