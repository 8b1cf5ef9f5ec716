import Hlpt.Lib.Lock
import Hlpt.Spin.Model

/-!
# `Hlpt.Spin.Linear`: the spin lock is an atomic lock

A call takes effect at its last access to the word: the swap that found it free, the store
of `pthread_spin_unlock`, or the test or the swap with which `pthread_spin_trylock` found
it taken. The swaps that fail write `SPIN_LOCKED` over itself.

* `spin_linearizable`: every history of a spin lock is one of the atomic lock `spinLock`.
* `spin_exclusion`: when nobody frees a lock that it does not hold, at most one thread
  holds it.
-/

set_option autoImplicit false

namespace Hlpt.Spin

open Hlpt.Lib

universe u

variable {T : Type u}

/-- The atomic lock. Its state tells whether it is locked. -/
def spinLock : Object T Bool Call Code where
  init locked := locked = false
  apply _ o r locked :=
    match o, r, locked with
    | .lock, .ok, false => some true
    | .trylock, .ok, false => some true
    | .trylock, .ebusy, true => some true
    | .unlock, .ok, _ => some false
    | .destroy, .ok, locked => some locked
    | _, _, _ => none

/-- How far a thread is with its call. -/
def phase : Pc → Phase Call Code
  | .idle => .idle
  | .lockSwap => .called .lock
  | .lockSpin _ => .called .lock
  | .tryTest => .called .trylock
  | .trySwap => .called .trylock
  | .unlockStore => .called .unlock
  | .destroy => .called .destroy
  | .ret r => .done r

/-- The word of a lock. -/
def wordOf (locked : Bool) : BitVec 32 := if locked then SPIN_LOCKED else SPIN_UNLOCKED

/-- One access of a thread is nothing to the atomic lock, or the effect of its call. -/
theorem moves_of_exec {t : T} {c : Call} {word : BitVec 32} {pc pc' : Pc} {locked : Bool}
    (h : exec t c (wordOf locked) pc = some (word, pc')) :
    ∃ locked', spinLock.Moves t (label c pc) (phase pc) locked (phase pc') locked' ∧
      word = wordOf locked' := by
  cases pc with
  | idle =>
      cases h
      refine ⟨locked, ?_, rfl⟩
      cases c <;> exact .inv _
  | lockSwap =>
      cases h
      refine ⟨true, ?_, rfl⟩
      cases locked with
      | false => exact .eff rfl
      | true => exact .stutter
  | lockSpin nspins =>
      cases h
      refine ⟨locked, ?_, rfl⟩
      have hphase : phase (if wordOf locked = SPIN_LOCKED ∧ nspins - 1 ≠ 0
          then .lockSpin (nspins - 1) else .lockSwap) = .called .lock := by
        split <;> rfl
      rw [hphase]
      exact .stutter
  | tryTest =>
      cases h
      refine ⟨locked, ?_, rfl⟩
      cases locked with
      | false => exact .stutter
      | true => exact .eff rfl
  | trySwap =>
      cases h
      refine ⟨true, ?_, rfl⟩
      cases locked with
      | false => exact .eff rfl
      | true => exact .eff rfl
  | unlockStore =>
      cases h
      exact ⟨false, .eff rfl, rfl⟩
  | destroy =>
      cases h
      refine ⟨locked, .eff ?_, rfl⟩
      cases locked <;> rfl
  | ret r =>
      cases h
      exact ⟨locked, .res r, rfl⟩

/-- Which calls take the lock, and which free it. -/
def lockUse : LockUse Call Code where
  takes o r := r = .ok && (o = .lock || o = .trylock)
  frees o := o = .unlock

/-- The atomic spin lock is a lock. -/
theorem isLock : (spinLock (T := T)).IsLock lockUse id where
  init _ h := h
  takes := by
    intro t o r a a' h ht
    cases o <;> cases r <;> cases a <;> simp_all [spinLock, lockUse]
  frees := by
    intro t o r a a' h hf
    cases o <;> cases r <;> cases a <;> simp_all [spinLock, lockUse]
  other := by
    intro t o r a a' h ht hf
    cases o <;> cases r <;> cases a <;> simp_all [spinLock, lockUse]

variable [DecidableEq T] {H : List (T × Event Call Code)} {s : Global T (BitVec 32) Pc}

/-- The accesses simulate the atomic lock. -/
theorem simulates : exec.Simulates (T := T) IsInit (fun _ _ => True) label spinLock
    (fun pc q => q = phase pc) (fun _ => True) fun s locked => s.mem = wordOf locked where
  init := by
    rintro s ⟨⟨pshared, hinit⟩, hidle⟩
    refine ⟨⟨false, rfl, ?_⟩, fun t => by rw [hidle t]; rfl⟩
    rw [pthreadSpinInit] at hinit
    split at hinit
    · cases hinit
    · exact (Except.ok.inj hinit).symm
  step := by
    rintro s t c m p locked q _ hword rfl _ he
    rw [hword] at he
    obtain ⟨locked', hmove, hword'⟩ := moves_of_exec he
    exact ⟨locked', _, hmove, rfl, hword'⟩

/-- Every history of a spin lock is a history of the atomic lock, whatever the order of
the accesses and whoever frees the lock. -/
theorem spin_linearizable (h : exec.History IsInit (fun _ _ => True) label H s) :
    spinLock.Linearizable H :=
  h.linearizable (fun _ _ => trivial) simulates

/-- The lock as `pthread_spin_init` leaves it. -/
def initial : Global (Fin 2) (BitVec 32) Pc := ⟨SPIN_UNLOCKED, fun _ => .idle⟩

/-- It is an initial state. -/
theorem isInit_initial : IsInit initial := ⟨⟨PTHREAD_PROCESS_PRIVATE, rfl⟩, fun _ => rfl⟩

/-- The thread 0 locks; the thread 1 finds the lock taken, spins once, and gets it after the
thread 0 has freed it. -/
theorem spin_linearizable_contended : spinLock.Linearizable (T := Fin 2)
    [(0, .inv .lock), (1, .inv .lock), (0, .res .ok), (0, .inv .unlock), (0, .res .ok),
      (1, .res .ok)] := by
  have hrun : ∃ s, (exec (T := Fin 2)).History IsInit (fun _ _ => True) label
      [(0, .inv .lock), (1, .inv .lock), (0, .res .ok), (0, .inv .unlock), (0, .res .ok),
        (1, .res .ok)] s :=
    Exec.exists_history_run isInit_initial
      [(0, .lock), (0, .lock), (1, .lock), (1, .lock), (1, .lock), (0, .lock), (0, .unlock),
        (0, .unlock), (0, .unlock), (1, .lock), (1, .lock), (1, .lock)] (by decide)
  obtain ⟨s, hs⟩ := hrun
  exact spin_linearizable hs

/-- Mutual exclusion: in a run in which `pthread_spin_unlock` is called only by a thread
that holds the lock, at most one thread holds it. -/
theorem spin_exclusion (h : exec.History IsInit (fun _ _ => True) label H s)
    (hd : lockUse.Disciplined H) {t u : T} (ht : (lockUse.clientOf t H).holds = true)
    (hu : (lockUse.clientOf u H).holds = true) : t = u :=
  (h.linearizable (fun _ _ => trivial) simulates).exclusion isLock hd ht hu

/-- The thread 1 has taken the lock after the thread 0 freed it, and it is the only one. -/
theorem spin_exclusion_handover :
    ∃ (H : List (Fin 2 × Event Call Code)) (s : Global (Fin 2) (BitVec 32) Pc),
      exec.History IsInit (fun _ _ => True) label H s ∧ lockUse.Disciplined H ∧
      (lockUse.clientOf 1 H).holds = true ∧
      ∀ t, (lockUse.clientOf t H).holds = true → t = 1 := by
  have hrun : ∃ s, (exec (T := Fin 2)).History IsInit (fun _ _ => True) label
      [(0, .inv .lock), (0, .res .ok), (0, .inv .unlock), (0, .res .ok), (1, .inv .trylock),
        (1, .res .ok)] s :=
    Exec.exists_history_run isInit_initial
      [(0, .lock), (0, .lock), (0, .lock), (0, .unlock), (0, .unlock), (0, .unlock),
        (1, .trylock), (1, .lock), (1, .lock), (1, .lock)] (by decide)
  obtain ⟨s, hs⟩ := hrun
  exact ⟨_, s, hs, by decide, rfl, fun t ht => spin_exclusion hs (by decide) ht rfl⟩

end Hlpt.Spin
