import Hlpt.Requeue.Moves

/-!
# `Hlpt.Requeue.Stranded`: the waiters that a broadcast strands

`move_of_exec` says which step lemma of `Hlpt.Requeue.Chain` an access falls under, so the
invariant holds over every run whose steps meet `NotLast`.

* `requeue_not_stranded`: nobody is stranded in a run in which no cancelled wait of the Hurd
  leaves as the last link of the chain.
* `requeue_stranded`: a run with such a wait, after which a waiter sleeps on a free mutex.
-/

set_option autoImplicit false

namespace Hlpt.Requeue

open Hlpt.Lib

universe u

variable {T : Type u}

/-- No thread inside of a call is awake. -/
def Quiet (s : Global T (Mem T) (Local T)) : Prop :=
  ∀ t, (s.loc t).pc = .idle ∨ t ∈ s.mem.queue ∨ t ∈ s.mem.lock.sleepers

/-- When no thread inside of a call is awake and somebody sleeps on the lock word, the
mutex is held and its word is 2. -/
def NotStranded (s : Global T (Mem T) (Local T)) : Prop :=
  Quiet s → s.mem.lock.sleepers.Nonempty →
    (∃ u, (s.loc u).holds = true) ∧ s.mem.lock.word = 2

variable {m : Mem T} {t : T} {l : Local T} {s : Global T (Mem T) (Local T)} [DecidableEq T]

/-- A step keeps the invariant, if it is not a cancelled wait of the Hurd that leaves as the
last link. -/
theorem Inv.step {c : Choice T} (hs : Inv s) (hlast : NotLast s (t, c))
    (h : exec t c s.mem (s.loc t) = some (m, l)) : Inv ⟨m, Function.update s.loc t l⟩ := by
  cases move_of_exec h with
  | word hin hword => exact hs.word_step hin hword
  | wait hpc => exact hs.wait_step hpc
  | out hlower hent hob => exact hs.out_step rfl hlower hent hob
  | requeue hpc hreq => exact hs.requeue_step hpc hreq
  | mark hpc hlower hent => exact hs.mark_step hpc hlower hent
  | testCancel hpc => exact hs.testCancel_step hpc (hlast _ hpc)
  | plain hplain => exact hs.plain hplain

/-- The invariant holds in every state of a run without such a wait. -/
theorem inv_of_reach (h : machine.ReachVia NotLast s) : Inv s := by
  refine Exec.invariant (fun s hs => ?_) (fun s t c m p hp hok he => hp.step hok he) h
  obtain ⟨hm, hl⟩ := hs
  constructor
  · constructor <;> simp [LowLevelLock.Holds, lower, Pc.lower, hm, hl]
  · simp [hm]
  · simp [hm]
  · simp [hm]
  · simp [Entitled, hl]
  · simp [hm]

/-! ### Nobody is stranded -/

omit [DecidableEq T] in
/-- In a quiet state nobody is obliged. -/
theorem Quiet.not_obliged (hs : Inv s) (hquiet : Quiet s) (u : T) :
    ¬ Obliged s.mem u (s.loc u).pc := by
  intro hu
  rcases hquiet u with hpc | hq | hw
  · rw [hpc] at hu
    exact hu
  · obtain ⟨k, sw, hpc⟩ := hs.queue u hq
    rw [hpc] at hu
    exact hu.1 hq
  · have hon := hs.word u hw
    cases hpc : (s.loc u).pc with
    | asleep k sw =>
        rw [hpc] at hu
        exact hu.2 hw
    | relock r p =>
        rw [hpc] at hu
        exact hu hw
    | mutex p | unlock k p =>
        rw [hpc] at hu hon
        cases p with
        | asleep d =>
            rcases hu with hd | ⟨d, hd | ⟨-, hd⟩⟩
            · cases hd
            · cases hd
            · exact hd hw
        | _ => exact hon
    | _ =>
        rw [hpc] at hon
        exact hon

/-- A broadcast strands nobody, in a run in which no cancelled wait of the Hurd leaves as
the last link of the chain. -/
theorem requeue_not_stranded (h : machine.ReachVia NotLast s) : NotStranded s := by
  intro hquiet hne
  have hs := inv_of_reach h
  have hword : s.mem.lock.word = 2 := by
    rcases hs.chain hne with hw | ⟨u, hu⟩
    · exact hw
    · exact absurd hu (hquiet.not_obliged hs u)
  refine ⟨?_, hword⟩
  -- The word is not 0, so somebody has the mutex.
  by_contra hnone
  have hfree : s.mem.lock.word = 0 := hs.excl.free.mpr fun u hu => hnone ⟨u, hu⟩
  rw [hword] at hfree
  exact absurd hfree (by decide)

/-- One of three threads goes on for some steps. -/
def goesOn (t : Fin 3) (n : ℕ) : List (Fin 3 × Choice (Fin 3)) := List.replicate n (t, {})

/-- The threads 0 and 1 wait, 2 locks the mutex and broadcasts, and 0 is woken and sleeps on
the mutex behind 1. -/
theorem requeue_not_stranded_three :
    ∃ s : Global (Fin 3) (Mem (Fin 3)) (Local (Fin 3)),
      machine.ReachVia NotLast s ∧ (Quiet s ∧ s.mem.lock.sleepers.Nonempty) ∧ NotStranded s := by
  obtain ⟨s, hs, hquiet, hne⟩ := (machine (T := Fin 3)).exists_reachVia
    (fun s a => ¬ (s.loc a.1).pc matches .testCancel _)
    (s := ⟨⟨⟨0, ∅⟩, 0, 0, false, ∅, fun _ => false, fun _ => false, fun _ => false⟩,
      fun _ => ⟨.idle, false⟩⟩) ⟨rfl, fun _ => rfl⟩
    (goesOn 0 4 ++ (0, { call := .wait ⟨false, none⟩ }) :: goesOn 0 7 ++
      goesOn 1 4 ++ (1, { call := .wait ⟨false, none⟩ }) :: goesOn 1 6 ++
      goesOn 2 4 ++ (2, { call := .broadcast }) :: goesOn 2 3 ++ (2, { pick := some 0 }) ::
      goesOn 2 1 ++ goesOn 0 6)
    (fun s => (∀ t, (s.loc t).pc = .idle ∨ t ∈ s.mem.queue ∨ t ∈ s.mem.lock.sleepers) ∧
      s.mem.lock.sleepers.Nonempty) (by decide +kernel)
  have hlast : machine.ReachVia NotLast s := by
    apply hs.mono
    intro s a ha k hpc
    rw [hpc] at ha
    exact absurd rfl ha
  exact ⟨s, hlast, ⟨hquiet, hne⟩, requeue_not_stranded hlast⟩

/-- A broken chain. The thread 0 is in a wait of the Hurd and 1 in one of `pthread`. The
thread 2 locks the mutex and broadcasts: 0 is woken, and 1 is moved to the lock word, which
is 1. Then 2 cancels 0, which leaves with `EINTR`, and the unlock of 2 finds no mark. The
mutex is free, nobody is inside of a call but 1, and 1 sleeps on the mutex. -/
theorem requeue_stranded : ∃ s : Global (Fin 3) (Mem (Fin 3)) (Local (Fin 3)),
    machine.Reach s ∧ ¬ NotStranded s := by
  obtain ⟨s, hs, hquiet, hne, hword⟩ := (machine (T := Fin 3)).exists_reach
    (s := ⟨⟨⟨0, ∅⟩, 0, 0, false, ∅, fun _ => false, fun _ => false, fun _ => false⟩,
      fun _ => ⟨.idle, false⟩⟩) ⟨rfl, fun _ => rfl⟩
    (goesOn 0 4 ++ (0, { call := .wait ⟨true, none⟩ }) :: goesOn 0 10 ++
      goesOn 1 4 ++ (1, { call := .wait ⟨false, none⟩ }) :: goesOn 1 6 ++
      goesOn 2 4 ++ (2, { call := .broadcast }) :: goesOn 2 3 ++ (2, { pick := some 0 }) ::
      goesOn 2 1 ++ (2, { call := .cancelHurd 0 }) :: goesOn 2 4 ++ goesOn 0 7 ++
      (2, { call := .unlock }) :: goesOn 2 2)
    (fun s => (∀ t, (s.loc t).pc = .idle ∨ t ∈ s.mem.queue ∨ t ∈ s.mem.lock.sleepers) ∧
      s.mem.lock.sleepers.Nonempty ∧ s.mem.lock.word = 0) (by decide +kernel)
  refine ⟨s, hs, ?_⟩
  intro hnot
  obtain ⟨-, hmark⟩ := hnot hquiet hne
  rw [hword] at hmark
  exact absurd hmark (by decide)

end Hlpt.Requeue
