import Hlpt.Cond.Notified
import Hlpt.Coupling.Model
import Hlpt.Requeue.Moves

/-!
# `Hlpt.Coupling.Groups`: which waiters a broadcast moves to their own mutex

The threads that wait at the same time use the same mutex, and a later group of waiters may
use another one. The condition variable remembers the mutex of the first wait, and nothing
resets `__mutex`. So a broadcast to a later group wakes one waiter and moves the others to
the mutex of the first group.

* `broadcast_coupled`: a broadcast wakes each waiter or moves it to its own mutex, if and
  only if it does not requeue, or at most one waiter sleeps, or the waiters use the mutex of
  the first wait.
* `broadcast_uncoupled`: two waiters of a second group, one of which ends up on the mutex of
  the first group.
-/

set_option autoImplicit false

namespace Hlpt.Coupling

open Hlpt.Lib
open Hlpt.Requeue (Registered AsksMutex OnWord leaks)

universe u v

variable {T : Type u} {M : Type v}

/-- Inside a wait, from its look at `__mutex` until the kernel has ended it. -/
def InWait : Requeue.Pc T → Bool
  | .checkMutex _ | .storeMutex _ | .unlock .. | .regLoad _ | .regCas .. | .setHook ..
  | .spinUnlock .. | .cancelpointBegin .. | .clock .. | .wait .. | .asleep .. => true
  | _ => false

/-- The thread waits on the condition variable: it goes to sleep on the sequence, or it
sleeps there. -/
def Waiting (s : Global T (Mem T M) (Local T M)) (u : T) : Prop :=
  InWait (s.loc u).pc = true ∧ ((s.loc u).pc matches .asleep _ _ → u ∈ s.mem.queue)

/-- The threads that wait at the same time use the same mutex. -/
def Together (s : Global T (Mem T M) (Local T M)) : Prop :=
  ∀ u v, Waiting s u → Waiting s v → (s.loc u).mtxp = (s.loc v).mtxp

/-- If waits left without being uncounted, there are few of them. -/
def Few [Fintype T] (s : Global T (Mem T M) (Local T M)) : Prop :=
  s.mem.leaked = 0 ∨ s.mem.leaked + Fintype.card T < 2 ^ 32

/-- With this step a broadcast is done: it found no waiter, or it requeued, or it woke all
waiters. -/
def EndsBroadcast (s s' : Global T (Mem T M) (Local T M)) (t : T) : Prop :=
  ((∃ lo hi, (s.loc t).pc = .bcCas lo hi) ∨ (s.loc t).pc = .bcRequeue ∨ (s.loc t).pc = .bcWake) ∧
    (s'.loc t).pc = .ret (.code .ok)

/-- The waiters that slept on the sequence do so no longer. Each one was woken, or it sleeps
on the mutex that it passed to its wait. -/
def Served (s s' : Global T (Mem T M) (Local T M)) : Prop :=
  ∀ u ∈ s.mem.queue, u ∉ s'.mem.queue ∧
    ∀ x, u ∈ (s'.mem.lock x).sleepers → x = (s.loc u).mtxp

/-- If the broadcast requeues, at most one waiter sleeps, or the waiters use the mutex of the
first wait on the condition variable. -/
def Fits (s : Global T (Mem T M) (Local T M)) (t : T) : Prop :=
  (s.loc t).pc = .bcRequeue →
    s.mem.queue.card ≤ 1 ∨ ∀ u ∈ s.mem.queue, s.mem.first = some (s.loc u).mtxp

/-! ### What a step about one mutex does -/

/-- The mutex on whose word the thread sleeps, if it does. -/
def place (m : Mem T M) (u : T) (l : Local T M) : M :=
  match l.pc with
  | .asleep _ _ => (m.moved u).getD l.mtxp
  | _ => l.mtxp

/-- A sleeper on the sequence is inside a wait, one on a lock word is there for its own
mutex or was moved, and nobody sleeps in two places. -/
structure Kernel (s : Global T (Mem T M) (Local T M)) : Prop where
  queue : ∀ u ∈ s.mem.queue, ∃ k sw, (s.loc u).pc = .asleep k sw
  word : ∀ u x, u ∈ (s.mem.lock x).sleepers →
    OnWord (s.loc u).pc ∧ place s.mem u (s.loc u) = x
  apart : ∀ u ∈ s.mem.queue, ∀ x, u ∉ (s.mem.lock x).sleepers

/-- The remembered mutex is the one of the first wait. -/
structure Coupled (s : Global T (Mem T M) (Local T M)) : Prop where
  first : ∀ x, s.mem.mutex = some x → s.mem.first = some x
  store : ∀ u k, (s.loc u).pc = .storeMutex k → s.mem.first = some (s.loc u).mtxp
  unset : s.mem.mutex = none → s.mem.first ≠ none → ∃ u k, (s.loc u).pc = .storeMutex k
  requeue : ∀ u, (s.loc u).pc = .bcRequeue → s.mem.mutex ≠ none

variable [DecidableEq T] [DecidableEq M] {s : Global T (Mem T M) (Local T M)} {t : T}
  {c : Choice T M} {m : Mem T M} {l : Local T M}

omit [DecidableEq T] [DecidableEq M] in
/-- A thread that sleeps on a lock word takes its next step about that mutex. -/
theorem site_eq_place (h : OnWord (s.loc t).pc) :
    site t c s.mem (s.loc t) = place s.mem t (s.loc t) := by
  cases hpc : (s.loc t).pc <;> rw [hpc] at h <;>
    first
    | exact absurd h id
    | simp only [site, place, Local.next, hpc]

/-- A step that puts at most its own thread to sleep, and nobody on another mutex. -/
theorem Kernel.step_of {x : M} {w : LowLevelLock.Mem T} (hs : Kernel s)
    (hx : site t c s.mem (s.loc t) = x) (hlock : m.lock = Function.update s.mem.lock x w)
    (hmoved : m.moved = s.mem.moved) (hqueue : m.queue ⊆ insert t s.mem.queue)
    (hsub : w.sleepers ⊆ insert t (s.mem.lock x).sleepers)
    (htq : t ∈ m.queue → (∃ k sw, l.pc = .asleep k sw) ∧ t ∉ w.sleepers)
    (htw : t ∈ w.sleepers → OnWord l.pc ∧ place m t l = x) :
    Kernel ⟨m, Function.update s.loc t l⟩ := by
  -- The thread that moves sleeps on no other mutex than the one of the step.
  have hother : ∀ y, y ≠ x → t ∉ (s.mem.lock y).sleepers := by
    intro y hy ht
    obtain ⟨hon, hplace⟩ := hs.word t y ht
    exact hy (hplace.symm.trans ((site_eq_place hon).symm.trans hx))
  constructor
  · refine (forall_loc_iff (P := fun u (l : Local T M) => u ∈ m.queue →
      ∃ k sw, l.pc = .asleep k sw)).mpr ⟨fun ht => (htq ht).1, fun u hut hu => ?_⟩
    exact hs.queue u (Finset.mem_of_mem_insert_of_ne (hqueue hu) hut)
  · refine (forall_loc_iff (P := fun u (l : Local T M) => ∀ y, u ∈ (m.lock y).sleepers →
      OnWord l.pc ∧ place m u l = y)).mpr ⟨fun y ht => ?_, fun u hut y hu => ?_⟩
    · rw [hlock] at ht
      by_cases hy : y = x
      · subst hy
        rw [Function.update_self] at ht
        exact htw ht
      · rw [Function.update_of_ne hy] at ht
        exact absurd ht (hother y hy)
    · have hplace : place m u (s.loc u) = place s.mem u (s.loc u) := by
        rw [place, hmoved, place]
      rw [hlock] at hu
      rw [hplace]
      by_cases hy : y = x
      · subst hy
        rw [Function.update_self] at hu
        exact hs.word u y (Finset.mem_of_mem_insert_of_ne (hsub hu) hut)
      · rw [Function.update_of_ne hy] at hu
        exact hs.word u y hu
  · intro u hu y hy
    rw [hlock] at hy
    by_cases hut : u = t
    · subst hut
      by_cases hyx : y = x
      · subst hyx
        rw [Function.update_self] at hy
        exact (htq hu).2 hy
      · rw [Function.update_of_ne hyx] at hy
        exact hother y hyx hy
    · have hu' := Finset.mem_of_mem_insert_of_ne (hqueue hu) hut
      by_cases hyx : y = x
      · subst hyx
        rw [Function.update_self] at hy
        exact hs.apart u hu' y (Finset.mem_of_mem_insert_of_ne (hsub hy) hut)
      · rw [Function.update_of_ne hyx] at hy
        exact hs.apart u hu' y hy

omit [DecidableEq T] [DecidableEq M] in
/-- A thread outside of the sleeps is not asleep. -/
theorem Kernel.out (hs : Kernel s) (hpc : ¬ OnWord (s.loc t).pc) :
    t ∉ s.mem.queue ∧ ∀ x, t ∉ (s.mem.lock x).sleepers := by
  refine ⟨fun ht => ?_, fun x ht => hpc (hs.word t x ht).1⟩
  obtain ⟨k, sw, hk⟩ := hs.queue t ht
  exact hpc (hk ▸ trivial)

/-- Only a requeue moves threads. -/
theorem Mem.after_moved {x : M} {v : Requeue.Mem T} {pc : Requeue.Pc T} (h : l.pc ≠ .bcRequeue) :
    (m.after l x v pc).moved = m.moved := by
  rw [Mem.after]
  cases hpc : l.pc <;> first | rfl | exact absurd hpc h

/-- A requeue moves the waiters to the remembered mutex. -/
theorem Kernel.requeue_step {x : M} {q : Finset T} (hs : Kernel s)
    (hpc : (s.loc t).pc = .bcRequeue) (hq : q ⊆ s.mem.queue) (hqueue : m.queue = ∅)
    (hlock : m.lock = Function.update s.mem.lock x
      { s.mem.lock x with sleepers := (s.mem.lock x).sleepers ∪ q })
    (hmoved : ∀ u, m.moved u =
      if u ∈ s.mem.queue ∧ u ∈ (s.mem.lock x).sleepers ∪ q then some x else s.mem.moved u) :
    Kernel ⟨m, Function.update s.loc t l⟩ := by
  obtain ⟨hout, hword⟩ := hs.out (t := t) (by rw [hpc]; exact id)
  -- Who sleeps on a lock word now did so before, or was moved to the remembered mutex.
  have hwho : ∀ u y, u ∈ (m.lock y).sleepers → u ∈ (s.mem.lock y).sleepers ∨ u ∈ q ∧ y = x := by
    intro u y hu
    rw [hlock] at hu
    by_cases hy : y = x
    · subst hy
      rw [Function.update_self] at hu
      exact (Finset.mem_union.mp hu).imp id fun h => ⟨h, rfl⟩
    · rw [Function.update_of_ne hy] at hu
      exact .inl hu
  constructor
  · intro u hu
    exact absurd hu (hqueue ▸ Finset.notMem_empty u)
  · refine (forall_loc_iff (P := fun u (l : Local T M) => ∀ y, u ∈ (m.lock y).sleepers →
      OnWord l.pc ∧ place m u l = y)).mpr ⟨fun y ht => ?_, fun u hut y hu => ?_⟩
    · rcases hwho t y ht with ht | ⟨ht, -⟩
      · exact absurd ht (hword y)
      · exact absurd (hq ht) hout
    · rcases hwho u y hu with hu | ⟨hu, rfl⟩
      · obtain ⟨hon, hplace⟩ := hs.word u y hu
        have hnot : u ∉ s.mem.queue := fun h => hs.apart u h y hu
        refine ⟨hon, ?_⟩
        rw [← hplace, place, hmoved, if_neg fun h => hnot h.1, place]
      · obtain ⟨k, sw, hk⟩ := hs.queue u (hq hu)
        have hto : m.moved u = some y := by
          rw [hmoved]
          exact if_pos ⟨hq hu, Finset.mem_union_right _ hu⟩
        rw [place, hk, hto]
        exact ⟨trivial, rfl⟩
  · intro u hu
    exact absurd hu (hqueue ▸ Finset.notMem_empty u)

omit [DecidableEq T] [DecidableEq M] in
/-- A function of the lock is about the mutex of the call. -/
theorem site_of_inside {p : LowLevelLock.Pc} {next : LowLevelLock.Pc → Requeue.Pc T}
    (h : Requeue.Inside l.pc p next) : site t c m l = l.mtxp ∧ l.next c = l.mtxp := by
  obtain ⟨pc, x, holds⟩ := l
  cases h <;> exact ⟨rfl, rfl⟩

omit [DecidableEq T] [DecidableEq M] in
/-- So is its sleep. -/
theorem place_of_inside {p q : LowLevelLock.Pc} {next : LowLevelLock.Pc → Requeue.Pc T}
    {pc : Requeue.Pc T} {x : M} {holds : M → Bool} (h : Requeue.Inside pc p next) :
    place m t ⟨next q, x, holds⟩ = x := by
  cases h <;> cases q <;> rfl

/-- A step keeps the sleepers where they belong. -/
theorem Kernel.step (hs : Kernel s) (h : exec t c s.mem (s.loc t) = some (m, l)) :
    Kernel ⟨m, Function.update s.loc t l⟩ := by
  obtain ⟨⟨v, p⟩, hexec, hr⟩ := Option.map_eq_some_iff.mp h
  cases hr
  by_cases hbc : (s.loc t).pc = .bcRequeue
  · obtain ⟨hreq, hp⟩ := Requeue.requeue_of_exec hexec hbc
    obtain ⟨q, hwake, rfl⟩ := Option.map_eq_some_iff.mp hreq
    apply hs.requeue_step hbc (wakeOne_subset hwake) rfl rfl
    intro u
    simp only [Mem.after, hbc]
    rfl
  have hmoved : (s.mem.after (s.loc t) (site t c s.mem (s.loc t)) v p.pc).moved = s.mem.moved :=
    Mem.after_moved hbc
  cases Requeue.move_of_exec hexec with
  | word hin hword =>
      obtain ⟨⟨w, q⟩, hlock, hr⟩ := Option.map_eq_some_iff.mp hword
      cases hr
      obtain ⟨hpark, hsub⟩ := LowLevelLock.exec_parked hlock fun ht =>
        hin.of_onWord (hs.word t _ ht).1
      refine hs.step_of rfl rfl hmoved (Finset.subset_insert _ _) hsub (fun ht => ?_)
        (fun ht => ?_)
      · obtain ⟨k, sw, hk⟩ := hs.queue t ht
        exact absurd hk (hin.ne_asleep k sw)
      · obtain ⟨d, hd⟩ := hpark ht
        obtain ⟨hsite, hnext⟩ := site_of_inside (c := c) (m := s.mem) (t := t) hin
        simp only [hd]
        exact ⟨hin.next_onWord d, (place_of_inside hin).trans (hnext.trans hsite.symm)⟩
  | wait hpc =>
      obtain ⟨hout, hword⟩ := hs.out (t := t) (by rw [show (s.loc t).pc = _ from hpc]; exact id)
      exact hs.step_of rfl rfl hmoved (Finset.Subset.refl _) (Finset.subset_insert _ _)
        (fun _ => ⟨⟨_, _, rfl⟩, hword _⟩) (fun ht => absurd ht (hword _))
  | out hlower hent hob =>
      exact hs.step_of rfl rfl hmoved ((Finset.erase_subset _ _).trans (Finset.subset_insert _ _))
        ((Finset.erase_subset _ _).trans (Finset.subset_insert _ _))
        (fun ht => absurd ht (Finset.notMem_erase t _))
        (fun ht => absurd ht (Finset.notMem_erase t _))
  | requeue hpc hreq => exact absurd hpc hbc
  | mark hpc hlower hent =>
      obtain ⟨hout, hword⟩ := hs.out (t := t) (by rw [show (s.loc t).pc = _ from hpc]; exact id)
      exact hs.step_of rfl rfl hmoved (Finset.subset_insert _ _) (Finset.subset_insert _ _)
        (fun ht => absurd ht hout) (fun ht => absurd ht (hword _))
  | testCancel hpc =>
      obtain ⟨hout, hword⟩ := hs.out (t := t) (by rw [show (s.loc t).pc = _ from hpc]; exact id)
      exact hs.step_of rfl rfl hmoved (Finset.subset_insert _ _) (Finset.subset_insert _ _)
        (fun ht => absurd ht hout) (fun ht => absurd ht (hword _))
  | plain hplain =>
      obtain ⟨hout, hword⟩ := hs.out (t := t) hplain.awake
      refine hs.step_of rfl rfl hmoved (hplain.queue.trans (Finset.subset_insert _ _)) ?_
        (fun ht => absurd (hplain.queue ht) hout) (fun ht => ?_)
      · rw [hplain.lock]
        exact Finset.subset_insert _ _
      · rw [hplain.lock] at ht
        exact absurd ht (hword _)

/-! ### The remembered mutex -/

/-- Only a wait that found no mutex sets one. -/
theorem Mem.after_mutex {x : M} {v : Requeue.Mem T} {pc : Requeue.Pc T}
    (h : ∀ k, l.pc ≠ .storeMutex k) : (m.after l x v pc).mutex = m.mutex := by
  rw [Mem.after]
  cases hpc : l.pc <;> first | rfl | exact absurd hpc (h _)

/-- Only a look at `__mutex` makes a wait the first. -/
theorem Mem.after_first {x : M} {v : Requeue.Mem T} {pc : Requeue.Pc T}
    (h : ∀ k, l.pc ≠ .checkMutex k) : (m.after l x v pc).first = m.first := by
  rw [Mem.after]
  cases hpc : l.pc <;> first | rfl | exact absurd hpc (h _)

omit [DecidableEq T] [DecidableEq M] in
/-- The mutex of a call stays. -/
theorem Local.next_eq (h : l.pc ≠ .idle) : l.next c = l.mtxp := by
  rw [Local.next]
  cases hpc : l.pc <;> first | rfl | exact absurd hpc h

omit [DecidableEq M] in
/-- A wait looks at `__mutex`. -/
theorem Coupled.check_step {k : Requeue.WaitCall} (hs : Coupled s) (htog : Together s)
    (hpc : (s.loc t).pc = .checkMutex k) (hmutex : m.mutex = s.mem.mutex)
    (hfirst : m.first = s.mem.first.or (some (s.loc t).mtxp)) (hmtxp : l.mtxp = (s.loc t).mtxp)
    (hl : l.pc = if s.mem.mutex.isSome then .unlock k .unlockSwap else .storeMutex k) :
    Coupled ⟨m, Function.update s.loc t l⟩ := by
  have hkeep : ∀ x, s.mem.first = some x → m.first = some x := by
    intro x hx
    rw [hfirst, hx]
    rfl
  constructor
  · intro x hx
    exact hkeep x (hs.first x (hmutex.symm.trans hx))
  · refine (forall_loc_iff (P := fun _ (l : Local T M) => ∀ k, l.pc = .storeMutex k →
      m.first = some l.mtxp)).mpr ⟨fun k' hk' => ?_, fun u _ k hk => hkeep _ (hs.store u k hk)⟩
    have hnone : s.mem.mutex = none := by
      by_contra hne
      rw [if_pos (Option.isSome_iff_ne_none.mpr hne)] at hl
      cases hl.symm.trans hk'
    by_cases hno : s.mem.first = none
    · rw [hfirst, hno, hmtxp]
      rfl
    · -- Somebody is before the store, and waits together with this thread.
      obtain ⟨u, k'', hu⟩ := hs.unset hnone hno
      have hsame : (s.loc u).mtxp = (s.loc t).mtxp := by
        refine htog u t ?_ ?_
        · rw [Waiting, hu]
          exact ⟨rfl, nofun⟩
        · rw [Waiting, hpc]
          exact ⟨rfl, nofun⟩
      rw [hmtxp, ← hsame]
      exact hkeep _ (hs.store u k'' hu)
  · intro hnone _
    have hmiss : s.mem.mutex.isSome = false := by
      rw [← hmutex, hnone]
      rfl
    refine ⟨t, k, ?_⟩
    show (Function.update s.loc t l t).pc = _
    rw [Function.update_self, hl, hmiss]
    rfl
  · refine (forall_loc_iff (P := fun _ (l : Local T M) => l.pc = .bcRequeue →
      m.mutex ≠ none)).mpr ⟨fun hb => ?_, fun u _ hu => hmutex ▸ hs.requeue u hu⟩
    rw [hl] at hb
    split at hb <;> cases hb

omit [DecidableEq M] in
/-- A wait sets `__mutex`. -/
theorem Coupled.store_step {k : Requeue.WaitCall} (hs : Coupled s)
    (hpc : (s.loc t).pc = .storeMutex k) (hmutex : m.mutex = some (s.loc t).mtxp)
    (hfirst : m.first = s.mem.first) (hasks : AsksMutex l.pc = false) :
    Coupled ⟨m, Function.update s.loc t l⟩ := by
  constructor
  · intro x hx
    obtain rfl := Option.some.inj (hmutex.symm.trans hx)
    exact hfirst.trans (hs.store t k hpc)
  · refine (forall_loc_iff (P := fun _ (l : Local T M) => ∀ k, l.pc = .storeMutex k →
      m.first = some l.mtxp)).mpr ⟨fun k hk => ?_, fun u _ k hk => hfirst.trans (hs.store u k hk)⟩
    rw [hk] at hasks
    cases hasks
  · intro hnone
    cases hmutex.symm.trans hnone
  · intro u _ hnone
    cases hmutex.symm.trans hnone

omit [DecidableEq M] in
/-- A step that leaves `__mutex` alone. -/
theorem Coupled.other_step (hs : Coupled s) (hpc : ∀ k, (s.loc t).pc ≠ .storeMutex k)
    (hmutex : m.mutex = s.mem.mutex) (hfirst : m.first = s.mem.first)
    (hstore : ∀ k, l.pc ≠ .storeMutex k) (hreq : l.pc = .bcRequeue → s.mem.mutex ≠ none) :
    Coupled ⟨m, Function.update s.loc t l⟩ := by
  constructor
  · intro x hx
    exact hfirst.trans (hs.first x (hmutex.symm.trans hx))
  · exact (forall_loc_iff (P := fun _ (l : Local T M) => ∀ k, l.pc = .storeMutex k →
      m.first = some l.mtxp)).mpr
        ⟨fun k hk => absurd hk (hstore k), fun u _ k hk => hfirst.trans (hs.store u k hk)⟩
  · intro hnone hne
    obtain ⟨u, k, hu⟩ := hs.unset (hmutex.symm.trans hnone) (hfirst ▸ hne)
    have hut : u ≠ t := by
      rintro rfl
      exact hpc k hu
    refine ⟨u, k, ?_⟩
    show (Function.update s.loc t l u).pc = _
    rw [Function.update_of_ne hut, hu]
  · exact (forall_loc_iff (P := fun _ (l : Local T M) => l.pc = .bcRequeue →
      m.mutex ≠ none)).mpr ⟨fun hb => hmutex ▸ hreq hb, fun u _ hu => hmutex ▸ hs.requeue u hu⟩

/-- A step keeps the remembered mutex, when the threads that wait do so together. -/
theorem Coupled.step (hs : Coupled s) (htog : Together s)
    (h : exec t c s.mem (s.loc t) = some (m, l)) : Coupled ⟨m, Function.update s.loc t l⟩ := by
  obtain ⟨⟨v, p⟩, hexec, hr⟩ := Option.map_eq_some_iff.mp h
  cases hr
  rcases Requeue.exec_mutex hexec with ⟨k, hpc, -, hl⟩ | ⟨k, hpc, -, hasks⟩ | ⟨hpc, -, hl⟩ |
    ⟨hpc, hasks, -⟩
  · have hpc : (s.loc t).pc = .checkMutex k := hpc
    refine hs.check_step htog hpc ?_ ?_ (Local.next_eq (by rw [hpc]; exact nofun)) hl
    · simp only [Mem.after, hpc]
    · simp only [Mem.after, hpc]
  · have hpc : (s.loc t).pc = .storeMutex k := hpc
    refine hs.store_step hpc ?_ ?_ hasks
    · simp only [Mem.after, hpc]
    · simp only [Mem.after, hpc]
  · have hpc : (s.loc t).pc = .bcMutex := hpc
    refine hs.other_step (by rw [hpc]; exact nofun) ?_ ?_ (fun k hk => ?_) (fun hb hnone => ?_)
    · simp only [Mem.after, hpc]
    · simp only [Mem.after, hpc]
    · rw [hl] at hk
      split at hk <;> cases hk
    · rw [hl] at hb
      split at hb
      · rename_i hsome
        rw [Mem.view, hnone] at hsome
        cases hsome
      · cases hb
  · refine hs.other_step (fun k => (hpc k).2) ?_ ?_ (fun k hk => ?_) (fun hb => ?_)
    · exact Mem.after_mutex fun k => (hpc k).2
    · exact Mem.after_first fun k => (hpc k).1
    · cases (congrArg AsksMutex hk).symm.trans hasks
    · cases (congrArg AsksMutex hb).symm.trans hasks

/-! ### Runs -/

variable [Fintype T]

/-- The word counts the registered waits and the ones that left without being uncounted. -/
def Counted (s : Global T (Mem T M) (Local T M)) : Prop :=
  s.mem.hi = BitVec.ofNat 32 ((∑ u, (Registered (s.loc u).pc).toNat) + s.mem.leaked)

omit [DecidableEq M] in
/-- The word goes on counting. -/
theorem Counted.step_of {n : ℕ} (hs : Counted s) (hleaked : m.leaked = s.mem.leaked + n)
    (h : CountStep s.mem.hi m.hi (Registered (s.loc t).pc).toNat
      ((Registered l.pc).toNat + n)) : Counted ⟨m, Function.update s.loc t l⟩ := by
  have hsum := sum_update (fun l : Local T M => (Registered l.pc).toNat) s.loc t l
  refine word_step hs ?_
  show CountStep s.mem.hi m.hi _
    ((∑ u, (Registered (Function.update s.loc t l u).pc).toNat) + m.leaked)
  rw [hleaked]
  rcases h with ⟨hhi, hn⟩ | ⟨hhi, hn⟩ | ⟨hhi, hn⟩
  · exact .inl ⟨hhi, by omega⟩
  · exact .inr (.inl ⟨hhi, by omega⟩)
  · exact .inr (.inr ⟨hhi, by omega⟩)

/-- A step keeps the count. -/
theorem Counted.step (hs : Counted s) (h : exec t c s.mem (s.loc t) = some (m, l)) :
    Counted ⟨m, Function.update s.loc t l⟩ := by
  obtain ⟨⟨v, p⟩, hexec, hr⟩ := Option.map_eq_some_iff.mp h
  cases hr
  refine hs.step_of (n := (leaks (s.loc t).pc p.pc).toNat) ?_ (Requeue.exec_hi hexec)
  rw [Mem.after]
  cases leaks (s.loc t).pc p.pc <;> rfl

/-- In every state that is reached while the threads that wait do so together, the sleepers
are where they belong, `__mutex` is the mutex of the first wait, and the word counts. -/
theorem inv_of_reach (h : machine.ReachVia (fun s _ => Together s) s) :
    Kernel s ∧ Coupled s ∧ Counted s := by
  refine Exec.invariant (P := fun s => Kernel s ∧ Coupled s ∧ Counted s) (fun s hs => ?_)
    (fun s t c m p hp hok he => ⟨hp.1.step he, hp.2.1.step hok he, hp.2.2.step he⟩) h
  obtain ⟨hm, hl⟩ := hs
  refine ⟨?_, ?_, ?_⟩
  · constructor <;> simp [hm]
  · constructor <;> simp [hm, hl]
  · simp [Counted, hm, hl, Registered]

/-! ### What a broadcast does -/

omit [DecidableEq T] [DecidableEq M] [Fintype T] in
/-- A sleeper on the sequence waits. -/
theorem Kernel.waiting (hs : Kernel s) {u : T} (hu : u ∈ s.mem.queue) : Waiting s u := by
  obtain ⟨k, sw, hpc⟩ := hs.queue u hu
  rw [Waiting, hpc]
  exact ⟨rfl, fun _ => hu⟩

omit [DecidableEq T] [DecidableEq M] in
/-- A broadcast that finds no waiter in the word leaves nobody asleep. -/
theorem Counted.queue_empty (D : Cond.Descriptors T) (hs : Counted s) (hkernel : Kernel s)
    (hfew : Few s) (hhi : s.mem.hi = 0) : s.mem.queue = ∅ := by
  apply Finset.eq_empty_of_forall_notMem
  intro u hu
  obtain ⟨k, sw, hpc⟩ := hkernel.queue u hu
  have hone : 1 ≤ ∑ u, (Registered (s.loc u).pc).toNat := by
    refine le_trans ?_ (le_sum_loc (fun l : Local T M => (Registered l.pc).toNat) s.loc u)
    rw [hpc]
    exact le_refl 1
  have hcard : ∑ u, (Registered (s.loc u).pc).toNat ≤ Fintype.card T := by
    have hle := Finset.sum_le_card_nsmul Finset.univ
      (fun u => (Registered (s.loc u).pc).toNat) 1 fun u _ => Bool.toNat_le _
    simpa using hle
  have hsmall : (∑ u, (Registered (s.loc u).pc).toNat) + s.mem.leaked < 2 ^ 32 := by
    have hD := D.card_lt
    rcases hfew with h | h <;> omega
  have hzero := (ofNat_eq_iff hsmall (by decide : 0 < 2 ^ 32)).mp (hs.symm.trans hhi)
  omega

omit [Fintype T] in
/-- A requeue serves the waiters when the ones that it moves use the mutex that it moves them
to. -/
theorem Kernel.served_requeue {x : M} {q : Finset T} {f : T → Local T M} (hs : Kernel s)
    (hq : q ⊆ s.mem.queue) (hqueue : m.queue = ∅)
    (hlock : m.lock = Function.update s.mem.lock x
      { s.mem.lock x with sleepers := (s.mem.lock x).sleepers ∪ q }) :
    Served s ⟨m, f⟩ ↔ ∀ u ∈ q, (s.loc u).mtxp = x := by
  constructor
  · intro h u hu
    refine ((h u (hq hu)).2 x ?_).symm
    show u ∈ (m.lock x).sleepers
    rw [hlock, Function.update_self]
    exact Finset.mem_union_right _ hu
  · intro h u hu
    refine ⟨?_, fun y hy => ?_⟩
    · show u ∉ m.queue
      rw [hqueue]
      exact Finset.notMem_empty u
    · have hin : u ∈ (Function.update s.mem.lock x
          { s.mem.lock x with sleepers := (s.mem.lock x).sleepers ∪ q } y).sleepers := hlock ▸ hy
      by_cases hyx : y = x
      · subst hyx
        rw [Function.update_self] at hin
        rcases Finset.mem_union.mp hin with hin | hin
        · exact absurd hin (hs.apart u hu y)
        · exact (h u hin).symm
      · rw [Function.update_of_ne hyx] at hin
        exact absurd hin (hs.apart u hu y)

omit [Fintype T] [DecidableEq M] in
/-- All waiters that are left after one was woken use a mutex, if and only if there is none
left or all waiters use it. -/
theorem Kernel.rest_iff {x : M} {q : Finset T} {pick : Option T} (hs : Kernel s)
    (htog : Together s) (hwake : wakeOne s.mem.queue pick = some q) :
    (∀ u ∈ q, (s.loc u).mtxp = x) ↔
      s.mem.queue.card ≤ 1 ∨ ∀ u ∈ s.mem.queue, (s.loc u).mtxp = x := by
  have hq : q ⊆ s.mem.queue := wakeOne_subset hwake
  rcases q.eq_empty_or_nonempty with rfl | hne
  · refine iff_of_true (fun u hu => absurd hu (Finset.notMem_empty u)) (.inl ?_)
    rcases wakeOne_eq_some.mp hwake with ⟨hqueue, -, -⟩ | ⟨u, hu, -, herase⟩
    · rw [hqueue]
      exact Nat.zero_le 1
    · rw [← Finset.card_erase_add_one hu, ← herase]
      exact le_refl 1
  · have hcard := card_of_wakeOne hwake hne
    have hpos := hne.card_pos
    constructor
    · intro h
      right
      intro u hu
      obtain ⟨w, hw⟩ := hne
      rw [htog u w (hs.waiting hu) (hs.waiting (hq hw))]
      exact h w hw
    · rintro (h | h)
      · omega
      · exact fun u hu => h u (hq hu)

/-- A broadcast wakes each waiter or moves it to the mutex of its own wait, if and only if it
does not requeue, or at most one waiter sleeps, or the waiters use the mutex of the first
wait on the condition variable. So it is in every run in which the threads that wait at the
same time use the same mutex. -/
theorem broadcast_coupled (D : Cond.Descriptors T) {s' : Global T (Mem T M) (Local T M)}
    (h : machine.ReachVia (fun s _ => Together s) s) (htog : Together s) (hfew : Few s)
    (hstep : machine.step s (t, c) = some s') (hend : EndsBroadcast s s' t) :
    Served s s' ↔ Fits s t := by
  obtain ⟨hkernel, hcoupled, hcounted⟩ := inv_of_reach h
  obtain ⟨m, l, hexec, rfl⟩ := Exec.machine_step_eq_some.mp hstep
  obtain ⟨⟨v, p⟩, hbase, hr⟩ := Option.map_eq_some_iff.mp hexec
  cases hr
  obtain ⟨hpc, hret⟩ := hend
  have hret : p.pc = .ret (.code .ok) := by
    simpa using hret
  rcases hpc with ⟨lo, hi, hk⟩ | hk | hk
  · have hempty : s.mem.queue = ∅ :=
      hcounted.queue_empty D hkernel hfew (Requeue.hi_eq_zero_of_exec hbase hk hret)
    refine iff_of_true (fun u hu => ?_) fun hbc => ?_
    · rw [hempty] at hu
      exact absurd hu (Finset.notMem_empty u)
    · cases hk.symm.trans hbc
  · -- The broadcast found a mutex, which is the one of the first wait.
    obtain ⟨y, hy⟩ := Option.ne_none_iff_exists'.mp (hcoupled.requeue t hk)
    have hfirst : s.mem.first = some y := hcoupled.first y hy
    have hsite : site t c s.mem (s.loc t) = y := by
      simp only [site, hk, hy, Option.getD_some]
    obtain ⟨hreq, -⟩ := Requeue.requeue_of_exec hbase hk
    obtain ⟨q, hwake, rfl⟩ := Option.map_eq_some_iff.mp hreq
    rw [hkernel.served_requeue (wakeOne_subset hwake) rfl rfl, hkernel.rest_iff htog hwake, hsite]
    constructor
    · rintro (h | h) -
      · exact .inl h
      · exact .inr fun u hu => hfirst.trans (congrArg some (h u hu).symm)
    · intro h
      rcases h hk with h | h
      · exact .inl h
      · exact .inr fun u hu => Option.some.inj ((h u hu).symm.trans hfirst)
  · obtain rfl := Requeue.wakeAll_of_exec hbase hk
    refine iff_of_true (fun u hu => ⟨Finset.notMem_empty u, fun x hx => ?_⟩) fun hbc => ?_
    · have hin : u ∈ (Function.update s.mem.lock (site t c s.mem (s.loc t))
          (s.mem.lock (site t c s.mem (s.loc t))) x).sleepers := hx
      rw [Function.update_eq_self] at hin
      exact absurd hin (hkernel.apart u hu x)
    · cases hk.symm.trans hbc

instance (s : Global T (Mem T M) (Local T M)) (u : T) : Decidable (Waiting s u) :=
  inferInstanceAs (Decidable (_ ∧ _))

instance (s : Global T (Mem T M) (Local T M)) : Decidable (Together s) :=
  inferInstanceAs (Decidable (∀ _ _, _ → _ → _))

/-- One of three threads goes on for some steps. -/
def goesOn (t : Fin 3) (n : ℕ) : List (Fin 3 × Choice (Fin 3) (Fin 2)) :=
  List.replicate n (t, ⟨0, {}⟩)

/-- Before the call of any thread. -/
def start : Global (Fin 3) (Mem (Fin 3) (Fin 2)) (Local (Fin 3) (Fin 2)) :=
  ⟨⟨fun _ => ⟨0, ∅⟩, 0, 0, none, ∅, fun _ => false, fun _ => false, fun _ => false, none,
    fun _ => none, 0⟩, fun _ => ⟨.idle, 0, fun _ => false⟩⟩

/-- One thread locks the mutex `x` and waits with it, when a mutex is remembered. -/
def waitsWith (t : Fin 3) (x : Fin 2) : List (Fin 3 × Choice (Fin 3) (Fin 2)) :=
  (t, ⟨x, {}⟩) :: goesOn t 3 ++ (t, ⟨x, { call := .wait ⟨false, none⟩ }⟩) :: goesOn t 6

/-- The threads 0 and 1 wait with the mutex 0, and 2 broadcasts. -/
theorem broadcast_coupled_three :
    ∃ (s s' : Global (Fin 3) (Mem (Fin 3) (Fin 2)) (Local (Fin 3) (Fin 2)))
      (c : Choice (Fin 3) (Fin 2)),
      (machine.ReachVia (fun s _ => Together s) s ∧ Together s ∧ Few s) ∧
      s.mem.queue = {0, 1} ∧ machine.step s (2, c) = some s' ∧ EndsBroadcast s s' 2 ∧
      Served s s' := by
  obtain ⟨s, hs, htog, hfew, hpc, hqueue, hfirst, hstep⟩ :=
    (machine (T := Fin 3) (M := Fin 2)).exists_reachVia (fun s _ => Together s)
    (s := start) ⟨rfl, fun _ => ⟨rfl, fun _ => rfl⟩⟩
    (waitsWith 0 0 ++ goesOn 0 1 ++ waitsWith 1 0 ++
      (2, ⟨0, { call := .broadcast }⟩) :: goesOn 2 3)
    (fun s => Together s ∧ s.mem.leaked = 0 ∧ (s.loc 2).pc = .bcRequeue ∧
      s.mem.queue = {0, 1} ∧ (∀ u ∈ s.mem.queue, s.mem.first = some (s.loc u).mtxp) ∧
      (machine.step s (2, ⟨0, { pick := some 0 }⟩)).any fun s' =>
        (s'.loc 2).pc = .ret (.code .ok)) (by decide +kernel)
  obtain ⟨s', hs', hret⟩ := (Option.any_eq_true ..).mp hstep
  have hend : EndsBroadcast s s' 2 := ⟨.inr (.inl hpc), of_decide_eq_true hret⟩
  exact ⟨s, s', _, ⟨hs, htog, .inl hfew⟩, hqueue, hs', hend,
    (broadcast_coupled Cond.Descriptors.three hs htog (.inl hfew) hs' hend).mpr
      fun _ => .inr hfirst⟩

/-- Two groups. The thread 0 waits with the mutex 0, is signalled, returns and unlocks. Then
the threads 0 and 1 wait with the mutex 1. A broadcast wakes 0, and 1 now sleeps on the mutex
0, which nobody uses. -/
theorem broadcast_uncoupled :
    ∃ (s s' : Global (Fin 3) (Mem (Fin 3) (Fin 2)) (Local (Fin 3) (Fin 2)))
      (c : Choice (Fin 3) (Fin 2)),
      (machine.ReachVia (fun s _ => Together s) s ∧ Together s ∧ Few s) ∧
      machine.step s (2, c) = some s' ∧ EndsBroadcast s s' 2 ∧ ¬ Served s s' := by
  obtain ⟨s, hs, htog, hfew, hpc, hqueue, hone, hstep⟩ :=
    (machine (T := Fin 3) (M := Fin 2)).exists_reachVia (fun s _ => Together s)
    (s := start) ⟨rfl, fun _ => ⟨rfl, fun _ => rfl⟩⟩
    (waitsWith 0 0 ++ goesOn 0 1 ++
      (2, ⟨0, { call := .signal }⟩) :: goesOn 2 2 ++ (2, ⟨0, { pick := some 0 }⟩) ::
      goesOn 2 1 ++ goesOn 0 7 ++ (0, ⟨0, { call := .unlock }⟩) :: goesOn 0 3 ++
      waitsWith 0 1 ++ waitsWith 1 1 ++ (2, ⟨0, { call := .broadcast }⟩) :: goesOn 2 3)
    (fun s => Together s ∧ s.mem.leaked = 0 ∧ (s.loc 2).pc = .bcRequeue ∧
      1 ∈ s.mem.queue ∧ (s.loc 1).mtxp = 1 ∧
      (machine.step s (2, ⟨0, { pick := some 0 }⟩)).any fun s' =>
        (s'.loc 2).pc = .ret (.code .ok) ∧ 1 ∈ (s'.mem.lock 0).sleepers) (by decide +kernel)
  obtain ⟨s', hs', hret⟩ := (Option.any_eq_true ..).mp hstep
  obtain ⟨hret, hmoved⟩ := of_decide_eq_true hret
  refine ⟨s, s', _, ⟨hs, htog, .inl hfew⟩, hs', ⟨.inr (.inl hpc), hret⟩, fun hserved => ?_⟩
  have hown := (hserved 1 hqueue).2 0 hmoved
  rw [hone] at hown
  exact absurd hown (by decide)

end Hlpt.Coupling
