import Hlpt.Fork.Model
import Hlpt.Mutex.Private
import Hlpt.Rwlock.Exclusion

/-!
# `Hlpt.Fork.Ownership`: whether the ownership of locks survives a fork

A lock knows its owner by the id of the thread. `pt_atfork_child` gives the id 1 to the
survivor, whatever its id was. So the child takes it for the owner of the locks that store
the id 1, which were the main thread's.

* `owns_iff`: in the parent, the owner is the thread whose id is stored.
* `unlockSees_iff` and `relockSees_iff`: in the child, it is whoever has the id 1.
* `fork_ownership`: both agree on all locks exactly when the thread that forks has the id 1,
  or when it owns no lock and no lock stores the id 1.
-/

set_option autoImplicit false

namespace Hlpt.Fork

open Hlpt.Lib

universe u v

variable {T : Type u} {L : Type v} [DecidableEq T] [DecidableEq L] {P : Process T}
  {P' : Process Unit} {f : T} {x : Lock T}

/-! ### The parent -/

/-- A lock in a reachable state of its own machine. -/
def Lock.Reached (P : Process T) : Lock T → Prop
  | mutex k s => (Mutex.machine P.threads (attr k)).Reach s
  | rwlock s => (Rwlock.machine P.ids).Reach s

/-- A step on a lock is one of its own machine. -/
theorem Lock.Reached.step {t : T} {c : Choice T} {x' : Lock T} (hx : x.Reached P)
    (h : x.step P t c = some x') : x'.Reached P := by
  cases x with
  | mutex k s =>
      cases c with
      | mutex c =>
          obtain ⟨s', hs', rfl⟩ := Option.map_eq_some_iff.mp h
          exact Machine.ReachVia.step hx trivial hs'
      | rwlock c => cases h
  | rwlock s =>
      cases c with
      | mutex c => cases h
      | rwlock c =>
          obtain ⟨s', hs', rfl⟩ := Option.map_eq_some_iff.mp h
          exact Machine.ReachVia.step hx trivial hs'

/-- Every lock of a reachable process is in a reachable state of its own. -/
theorem reached_of_reach {s : L → Lock T} (h : (machine P).Reach s) : ∀ i, (s i).Reached P := by
  refine h.invariant (P := fun s => ∀ i, (s i).Reached P) (fun s hs i => ?_)
    fun s a s' hs _ hstep => ?_
  · have hi := hs i
    cases hx : s i with
    | mutex k g =>
        rw [hx] at hi
        exact Machine.ReachVia.init hi
    | rwlock g =>
        rw [hx] at hi
        exact Machine.ReachVia.init hi
  · obtain ⟨x', hx', rfl⟩ := Option.map_eq_some_iff.mp hstep
    exact forall_loc_iff.mpr ⟨(hs a.1).step hx', fun i _ => hs i⟩

/-- A thread that is in no call on the lock owns it if and only if its id is stored. -/
theorem owns_iff (hx : x.Reached P) (hidle : x.Idle f) : x.Owns P f ↔ x.storedId = P.id f := by
  cases x with
  | mutex k s =>
      have hs : Mutex.Inv P.threads (Lock.attr k) s := Mutex.inv_of_reach
        (fun _ _ _ hshared => absurd hshared Bool.false_ne_true) (fun _ _ _ => rfl)
        (fun hshared => absurd hshared Bool.false_ne_true) hx
      have hrest : Mutex.Resting P.threads (Lock.attr k) s.mem f := by
        have hpc := hs.pc f
        rw [show s.loc f = _ from hidle] at hpc
        exact hpc
      exact (hs.ownerId_iff (fun _ _ => rfl) hrest).symm
  | rwlock s => exact Iff.rfl

/-! ### The child -/

/-- The test of the owner decides between two control points. -/
theorem some_ite_eq_iff {α β : Type*} {p : Prop} [Decidable p] {m : α} {a b : β} (h : b ≠ a) :
    some (m, if p then a else b) = some (m, a) ↔ p := by
  by_cases hp : p
  · simp [hp]
  · simp [hp, h]

/-- An unlock in the child compares the stored id with the one of the survivor. -/
theorem unlockSees_iff : (x.fork f).UnlockSees P' ↔ x.storedId = P'.id () := by
  cases x with
  | mutex k s =>
      refine some_ite_eq_iff (p := s.mem.ownerId = P'.id ()) ?_
      cases k <;> exact nofun
  | rwlock s =>
      show (Rwlock.exec P'.ids).alone () [{}, {}] _ = _ ↔ s.mem.oid = P'.id ()
      simp only [Exec.alone, Rwlock.exec, Lock.copyRwlock, Option.bind_some]
      by_cases hmask : s.mem.oid &&& PTHREAD_ID_MASK = 0
      · -- The branch of a reader. The id of a thread does not lead there.
        have hne : s.mem.oid ≠ P'.id () := by
          intro he
          rw [he] at hmask
          exact P'.masked () hmask
        simp only [hmask, ne_eq, not_true_eq_false, if_false, Option.bind_some, hne, iff_false]
        split <;> simp
      · simp only [hmask, ne_eq, not_false_eq_true, if_true, Option.bind_some]
        by_cases he : s.mem.oid = P'.id ()
        · simp [he, Process.ids]
        · simp [he, Process.ids]

/-- So does locking again, by any of the calls. -/
theorem relockSees_iff {call : (x.fork f).RelockCall} :
    (x.fork f).RelockSees P' call ↔ x.storedId = P'.id () := by
  cases x with
  | mutex k s =>
      have hcall (call : Mutex.LockCall) : (Mutex.exec P'.threads (Lock.attr k)).alone ()
          [{ call := .lock call }, {}] (Lock.copyMutex f s.mem, .idle) =
            some (Lock.copyMutex f s.mem, (Lock.attr k).owned (.lock call)) ↔
          s.mem.ownerId = P'.id () := by
        cases call <;> refine some_ite_eq_iff (p := s.mem.ownerId = P'.id ()) ?_ <;>
          cases k <;> exact nofun
      exact hcall call
  | rwlock s =>
      show some (_, { s.loc f with
        pc := if s.mem.oid = P'.id () then .ret .edeadlk else .wrLoad call }) =
          some (_, { s.loc f with pc := .ret .edeadlk }) ↔ s.mem.oid = P'.id ()
      by_cases he : s.mem.oid = P'.id ()
      · simp [he, Lock.copyRwlock]
      · simp [he, Lock.copyRwlock]

/-! ### The ownership across the fork -/

/-- The ownership of one lock survives if and only if the stored id says the same with the
old id of the survivor and with the new one. -/
theorem survives_iff (hx : x.Reached P) (hidle : x.Idle f) :
    x.Survives P P' f ↔ (x.storedId = P.id f ↔ x.storedId = P'.id ()) := by
  rw [Lock.Survives, unlockSees_iff, owns_iff hx hidle]
  constructor
  · rintro ⟨hown, hnot⟩
    refine ⟨fun h => (hown h).1, fun h => ?_⟩
    by_contra hne
    exact (hnot hne).1 h
  · intro h
    have hrelock (call : (x.fork f).RelockCall) :
        (x.fork f).RelockSees P' call ↔ x.storedId = P.id f := relockSees_iff.trans h.symm
    exact ⟨fun hown => ⟨h.mp hown, fun call => (hrelock call).mpr hown⟩,
      fun hnot => ⟨fun hc => hnot (h.mpr hc), fun call hc => hnot ((hrelock call).mp hc)⟩⟩

/-- In a reachable process, a thread that is in no call on a lock forks. In the child it is
taken for the owner of exactly the locks that it owned, if and only if it has the id 1, or it
owns no lock and none stores the id 1. -/
theorem fork_ownership {s : L → Lock T} (h : (machine P).Reach s)
    (hidle : ∀ i, (s i).Idle f) {pid : BitVec 32} (hpid : pid ≠ 0) :
    (∀ i, (s i).Survives P (child pid hpid) f) ↔
      P.id f = 1 ∨ ∀ i, ¬ (s i).Owns P f ∧ (s i).storedId ≠ 1 := by
  have hreach := reached_of_reach h
  have hiff : ∀ i, (s i).Survives P (child pid hpid) f ↔
      ((s i).storedId = P.id f ↔ (s i).storedId = 1) := fun i =>
    survives_iff (hreach i) (hidle i)
  have hown : ∀ i, (s i).Owns P f ↔ (s i).storedId = P.id f := fun i =>
    owns_iff (hreach i) (hidle i)
  constructor
  · intro hall
    by_cases hid : P.id f = 1
    · exact .inl hid
    · right
      intro i
      have hsame := (hiff i).mp (hall i)
      rw [hown i]
      -- A lock that stores one of the two ids stores the other one, too.
      refine ⟨fun hf => hid (hf.symm.trans (hsame.mp hf)), fun h1 => hid ?_⟩
      exact (hsame.mpr h1).symm.trans h1
  · rintro (hid | hnone) i
    · rw [hiff i, hid]
    · obtain ⟨hnot, hne⟩ := hnone i
      rw [hiff i]
      exact iff_of_false (fun hf => hnot ((hown i).mpr hf)) hne

instance (x : Lock T) : Decidable (x.Idle f) :=
  match x with
  | .mutex _ s => inferInstanceAs (Decidable (s.loc f = .idle))
  | .rwlock s => inferInstanceAs (Decidable ((s.loc f).pc = .idle))

instance (x : Lock T) : Decidable (x.Owns P f) :=
  match x with
  | .mutex _ s => inferInstanceAs (Decidable (f ∈ s.mem.owners))
  | .rwlock s => inferInstanceAs (Decidable (s.mem.oid = P.id f))

/-- The main thread with the id 1 and another one with the id 2, in the process 1. -/
def Process.two : Process (Fin 2) where
  id t := BitVec.ofNat 32 (t + 1)
  pid := 1
  inj := ids_inj_two
  masked := Hlpt.Rwlock.ids_masked_two
  pid_ne := id_one_ne

/-- A recursive mutex and a read-write lock that nobody has used. -/
def start : Fin 2 → Lock (Fin 2)
  | 0 => .mutex .recursive ⟨⟨⟨0, ∅⟩, 0, 0, 0, ∅, 0⟩, fun _ => .idle⟩
  | 1 => .rwlock ⟨⟨0, 0, 0, ∅, ∅⟩, fun _ => ⟨.idle, 0, false⟩⟩

theorem start_isInit : (machine (L := Fin 2) Process.two).init start := by
  intro i
  match i with
  | 0 => exact ⟨rfl, fun _ => rfl⟩
  | 1 => exact ⟨rfl, fun _ => rfl⟩

/-- The thread `t` locks the mutex and `u` the read-write lock. -/
def lockBoth (t u : Fin 2) : List (Fin 2 × Fin 2 × Choice (Fin 2)) :=
  (0, t, .mutex { call := .lock .lock }) :: List.replicate 6 (0, t, .mutex {}) ++
    (1, u, .rwlock { call := .wr .wrlock }) :: List.replicate 4 (1, u, .rwlock {})

/-- The main thread has locked the mutex and forks. The other one has the read-write
lock. -/
theorem fork_ownership_two : ∃ s : Fin 2 → Lock (Fin 2), (machine Process.two).Reach s ∧
    ((s 0).Owns Process.two 0 ∧ (s 1).Owns Process.two 1) ∧
    ∀ i, (s i).Survives Process.two (child 2 (by decide)) 0 := by
  obtain ⟨s, hs, hidle, hown⟩ := (machine Process.two).exists_reach start_isInit (lockBoth 0 1)
    (fun s => (∀ i, (s i).Idle 0) ∧ (s 0).Owns Process.two 0 ∧ (s 1).Owns Process.two 1)
    (by decide)
  exact ⟨s, hs, hown, (fork_ownership hs hidle (by decide)).mpr (.inl rfl)⟩

/-- The thread with the id 2 has locked the mutex and forks. The main thread has the
read-write lock. In the child the mutex is lost, and the read-write lock is taken for the
survivor's. -/
theorem fork_ownership_lost : ∃ s : Fin 2 → Lock (Fin 2), (machine Process.two).Reach s ∧
    ((∀ i, (s i).Idle 1) ∧ (s 0).Owns Process.two 1 ∧ (s 1).Owns Process.two 0) ∧
    ¬ ((s 0).fork 1).UnlockSees (child 2 (by decide)) ∧
    ((s 1).fork 1).UnlockSees (child 2 (by decide)) ∧
    ¬ (s 0).Survives Process.two (child 2 (by decide)) 1 ∧
    ¬ (s 1).Survives Process.two (child 2 (by decide)) 1 := by
  obtain ⟨s, hs, ⟨hidle, hown⟩, h0, h1⟩ := (machine Process.two).exists_reach start_isInit
    (lockBoth 1 0)
    (fun s => ((∀ i, (s i).Idle 1) ∧ (s 0).Owns Process.two 1 ∧ (s 1).Owns Process.two 0) ∧
      (s 0).storedId = 2 ∧ (s 1).storedId = 1) (by decide)
  have hreach := reached_of_reach hs
  have hlost : ¬ ((s 0).fork 1).UnlockSees (child 2 (by decide)) := by
    rw [unlockSees_iff, h0]
    decide
  have htaken : ((s 1).fork 1).UnlockSees (child 2 (by decide)) := by
    rw [unlockSees_iff, h1]
    rfl
  have hnot : ¬ (s 1).Owns Process.two 1 := by
    rw [owns_iff (hreach 1) (hidle 1), h1]
    decide
  exact ⟨s, hs, ⟨hidle, hown⟩, hlost, htaken, fun h => hlost (h.1 hown.1).1,
    fun h => (h.2 hnot).1 htaken⟩

end Hlpt.Fork
