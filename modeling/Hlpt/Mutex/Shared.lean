import Hlpt.Mutex.Owner

/-!
# `Hlpt.Mutex.Shared`: ownership of a mutex of several processes

Thread ids are unique in a process only, so `mtx_owned_p` compares the id of the thread
and the id of the process. It reads them one after the other, and the owner may change
in between. `mutex_shared` says when this goes wrong: exactly if some thread has the id of
a thread of another process, and its own process has a third thread. The other process'
thread then lends the id, and the third thread the process.

* `OwnerOnly`: the test succeeds for an owner only, and only an owner goes on as one.
* `not_ownerOnly`: the schedule of the three threads.
* `mutex_shared`: the equivalence.
* `mutex_stolen`: an unlock of a thread that does not own the mutex releases it.
-/

set_option autoImplicit false

namespace Hlpt.Mutex

open Hlpt.Lib

universe u

variable {T : Type u}

/-- The control points after a test that succeeded: a lock call that goes on to return 0
by recursion, and an unlock that goes on to take effect. -/
def AtWork : Pc T → Prop
  | .cntTest | .incLoad | .incStore _ => True
  | .decLoad | .decStore _ | .clearPid | .clearOwner => True
  | .unlockWord p => p = .unlockSwap
  | _ => False

/-- The test succeeds for an owner only, and only an owner goes on as one. -/
def OwnerOnly (I : Threads T) (s : Global T (Mem T) (Pc T)) : Prop :=
  (∀ t k, s.loc t = .testPid k → s.mem.shpid = I.pid t → t ∈ s.mem.owners) ∧
  ∀ t, AtWork (s.loc t) → t ∈ s.mem.owners

variable [DecidableEq T] {I : Threads T} {K : Attr} {s : Global T (Mem T) (Pc T)}

omit [DecidableEq T] in
/-- Threads that are told apart pass the test as owners only. -/
theorem Inv.ownerOnly (hs : Inv I K s) (hI : Distinguished I) : OwnerOnly I s := by
  constructor
  · intro t k hpc hpid
    have hok := hs.pc t
    rw [hpc] at hok
    exact hs.owner_of_pid hI hok.2.2.2 hpid
  · intro t hwork
    have hok := hs.pc t
    generalize s.loc t = pc at hwork hok
    cases pc <;> first | exact hwork.elim | skip
    case cntTest | incLoad | incStore | decLoad | decStore => exact hok.1.1
    case clearPid | clearOwner => exact hok.1
    case unlockWord p =>
      -- The word is still taken before the swap.
      obtain rfl : p = .unlockSwap := hwork
      rcases hok with ⟨-, ht, -⟩ | ⟨hp, -⟩
      · exact ht
      · cases hp

/-! ### Three threads that are not told apart -/

/-- The memory of a mutex that nobody owns. -/
def Mem.free : Mem T := ⟨⟨0, ∅⟩, 0, 0, 0, ∅, 0⟩

/-- The memory after one lock call of the thread `t` on it. -/
def Mem.taken (I : Threads T) (k : Kind) (t : T) : Mem T :=
  ⟨⟨1, ∅⟩, I.id t, I.pid t, match k with | .recursive => 1 | .errorcheck => 0, {t}, 1⟩

/-- A thread locks a free mutex. -/
theorem alone_lock (k : Kind) (t : T) : ∃ n,
    (exec I ⟨k, true⟩).alone t (List.replicate n {}) (Mem.free, .idle) =
      some (Mem.taken I k t, .idle) := by
  have hid : 0#32 ≠ I.id t := (I.id_ne t).symm
  have hword : (exec I ⟨k, true⟩).alone t (List.replicate 4 {}) (Mem.free, .idle) =
      some (⟨⟨1, ∅⟩, 0, 0, 0, {t}, 1⟩, .setOwner) := by
    simp [List.replicate, Exec.alone, exec, enter, unowned, LockCall.start, LowLevelLock.exec,
      Mem.free, Mem.onWord, afterLock, hid]
  cases k with
  | recursive =>
      refine ⟨4 + 4, List.replicate_add .. ▸ Exec.alone_append hword ?_⟩
      simp [List.replicate, Exec.alone, exec, Attr.counted, Mem.taken]
  | errorcheck =>
      refine ⟨4 + 3, List.replicate_add .. ▸ Exec.alone_append hword ?_⟩
      simp [List.replicate, Exec.alone, exec, Attr.counted, Mem.taken]

/-- The owner unlocks. -/
theorem alone_unlock (k : Kind) (t : T) : ∃ n,
    (exec I ⟨k, true⟩).alone t ({ call := .unlock } :: List.replicate n {})
      (Mem.taken I k t, .idle) = some (Mem.free, .idle) := by
  cases k with
  | recursive =>
      have htest : (exec I ⟨.recursive, true⟩).alone t
          ({ call := .unlock } :: List.replicate 4 {}) (Mem.taken I .recursive t, .idle) =
          some (⟨⟨1, ∅⟩, I.id t, I.pid t, 0, {t}, 0⟩, .clearPid) := by
        simp [List.replicate, Exec.alone, exec, enter, Mem.taken, Attr.testsPid, Attr.owned]
      refine ⟨4 + 4, ?_⟩
      rw [List.replicate_add, ← List.cons_append]
      refine Exec.alone_append htest ?_
      simp [List.replicate, Exec.alone, exec, LowLevelLock.exec, Mem.onWord, afterUnlock, Mem.free]
  | errorcheck =>
      have htest : (exec I ⟨.errorcheck, true⟩).alone t
          ({ call := .unlock } :: List.replicate 2 {}) (Mem.taken I .errorcheck t, .idle) =
          some (⟨⟨1, ∅⟩, I.id t, I.pid t, 0, {t}, 1⟩, .clearPid) := by
        simp [List.replicate, Exec.alone, exec, enter, Mem.taken, Attr.testsPid, Attr.owned]
      refine ⟨2 + 4, ?_⟩
      rw [List.replicate_add, ← List.cons_append]
      refine Exec.alone_append htest ?_
      simp [List.replicate, Exec.alone, exec, LowLevelLock.exec, Mem.onWord, afterUnlock, Mem.free]

/-- A thread with the id of the owner calls unlock, and comes to compare the process. -/
theorem alone_compare (k : Kind) {a u : T} (hid : I.id a = I.id u) :
    (exec I ⟨k, true⟩).alone a [{ call := .unlock }, {}] (Mem.taken I k u, .idle) =
      some (Mem.taken I k u, .testPid .unlock) := by
  simp [Exec.alone, exec, enter, Mem.taken, Attr.testsPid, hid]

omit [DecidableEq T] in
/-- Each choice of a run of locks and unlocks is a call of a mutex of several processes. -/
theorem sharedUse_replicate (n : ℕ) (t : T) :
    ∀ c ∈ List.replicate n ({} : Choice T), ∀ s, SharedUse K s (t, c) := by
  intro c hc s _ _
  rw [List.eq_of_mem_replicate hc]
  trivial

/-- Three threads that are not distinguished get to a wrong test. The thread `u` locks; `a`
calls unlock and reads the id of `u`, which is its own; `u` unlocks; `v` locks. The process
that `a` reads next is the one of `v`, which is its own. -/
theorem not_ownerOnly {a u v : T} {k : Kind} (hpid : I.pid u ≠ I.pid a)
    (hid : I.id u = I.id a) (hproc : I.pid v = I.pid a) (hva : v ≠ a) :
    ∃ s, (machine I ⟨k, true⟩).ReachVia (SharedUse ⟨k, true⟩) s ∧ ¬ OwnerOnly I s := by
  have hua : u ≠ a := fun h => hpid (congrArg I.pid h)
  have huv : u ≠ v := fun h => hpid ((congrArg I.pid h).trans hproc)
  obtain ⟨n, hlock⟩ := alone_lock (I := I) k u
  obtain ⟨n', hlock'⟩ := alone_lock (I := I) k v
  obtain ⟨n'', hunlock⟩ := alone_unlock (I := I) k u
  have h₀ : (machine I ⟨k, true⟩).ReachVia (SharedUse ⟨k, true⟩)
      (⟨Mem.free, fun _ => .idle⟩ : Global T (Mem T) (Pc T)) := .init ⟨rfl, fun _ => rfl⟩
  have h₁ := Exec.reachVia_alone h₀ rfl (sharedUse_replicate n u) hlock
  have h₂ := Exec.reachVia_alone h₁ (Function.update_of_ne hua.symm _ _)
    (by
      intro c hc s _ _
      rcases List.mem_cons.mp hc with rfl | hc
      · trivial
      · rw [List.mem_singleton.mp hc]
        trivial)
    (alone_compare k hid.symm)
  have h₃ := Exec.reachVia_alone h₂ ((Function.update_of_ne hua _ _).trans
    (Function.update_self _ _ _))
    (by
      intro c hc s hshared hidle
      rcases List.mem_cons.mp hc with rfl | hc
      · trivial
      · exact sharedUse_replicate n'' u c hc s hshared hidle)
    hunlock
  have h₄ := Exec.reachVia_alone h₃ ((Function.update_of_ne huv.symm _ _).trans
    ((Function.update_of_ne hva _ _).trans (Function.update_of_ne huv.symm _ _)))
    (sharedUse_replicate n' v) hlock'
  refine ⟨_, h₄, fun honly => hva.symm ?_⟩
  have htest := honly.1 a .unlock ((Function.update_of_ne hva.symm _ _).trans
    ((Function.update_of_ne hua.symm _ _).trans (Function.update_self _ _ _))) hproc
  exact Finset.mem_singleton.mp htest

/-- Ownership of a mutex that several processes share. Over every run of lock, trylock and
unlock calls, the test of the owner succeeds for the owner only, and nobody else returns 0
by recursion or unlocks, if and only if the threads are distinguished. -/
theorem mutex_shared (hK : K.shared = true) :
    (∀ s, (machine I K).ReachVia (SharedUse K) s → OwnerOnly I s) ↔ Distinguished I := by
  obtain ⟨k, shared⟩ := K
  obtain rfl : shared = true := hK
  constructor
  · intro h a u v hpid hid hproc
    by_contra hva
    obtain ⟨s, hs, hne⟩ := not_ownerOnly (k := k) hpid hid hproc hva
    exact hne (h s hs)
  · intro hI s h
    have hs : Inv I ⟨k, true⟩ s := inv_of_reach (fun _ _ ha => ha) (fun h => by cases h)
      (fun _ => hI) h
    exact hs.ownerOnly hI

/-- Two threads of the process 1, with the ids 1 and 2, and one of the process 2, with the
id 2. -/
def Threads.crossed : Threads (Fin 3) where
  id t := if t = 0 then 1 else 2
  pid t := if t = 2 then 2 else 1
  id_ne := first_ne_three
  pid_ne := last_ne_three
  inj := by decide

/-- Two threads of the process 1, with the ids 1 and 2, and one of the process 2, with the
id 3. -/
def Threads.apart : Threads (Fin 3) where
  id t := BitVec.ofNat 32 (t + 1)
  pid t := if t = 2 then 2 else 1
  id_ne := ids_ne_three
  pid_ne := last_ne_three
  inj := by decide

/-- The threads that are apart are distinguished, and the test is right for them. The
crossed ones are not, and get to a wrong test. -/
theorem mutex_shared_three :
    (∀ s, (machine Threads.apart ⟨.recursive, true⟩).ReachVia (SharedUse ⟨.recursive, true⟩) s →
      OwnerOnly Threads.apart s) ∧
    ¬ ∀ s, (machine Threads.crossed ⟨.recursive, true⟩).ReachVia
      (SharedUse ⟨.recursive, true⟩) s → OwnerOnly Threads.crossed s :=
  ⟨(mutex_shared rfl).mpr (by unfold Distinguished; decide),
    fun h => absurd ((mutex_shared rfl).mp h) (by unfold Distinguished; decide)⟩

/-- An unlock of a thread that does not own the mutex takes effect. The thread 2 locks and
unlocks while the thread 1 compares, then the thread 0 locks, and the thread 1 goes on to
release the word while the thread 0 owns the mutex. -/
theorem mutex_stolen : ∃ s : Global (Fin 3) (Mem (Fin 3)) (Pc (Fin 3)),
    (machine Threads.crossed ⟨.errorcheck, true⟩).ReachVia (SharedUse ⟨.errorcheck, true⟩) s ∧
    ¬ OwnerOnly Threads.crossed s ∧ s.mem.owners = {0} ∧
    (exec Threads.crossed ⟨.errorcheck, true⟩ 1 {} s.mem (s.loc 1)).map
      (fun r => (r.1.lock.word, r.2)) = some (0, .ret .ok) := by
  obtain ⟨s, hs, howners, hpc, hword⟩ :=
    (machine Threads.crossed ⟨.errorcheck, true⟩).exists_reachVia
    (SharedUse ⟨.errorcheck, true⟩)
    (s := ⟨⟨⟨0, ∅⟩, 0, 0, 0, ∅, 0⟩, fun _ => .idle⟩) ⟨rfl, fun _ => rfl⟩
    [(2, { call := .lock .lock }), (2, {}), (2, {}), (2, {}), (2, {}), (2, {}), (2, {}),
      (1, { call := .unlock }), (1, {}),
      (2, { call := .unlock }), (2, {}), (2, {}), (2, {}), (2, {}), (2, {}), (2, {}),
      (0, { call := .lock .lock }), (0, {}), (0, {}), (0, {}), (0, {}), (0, {}), (0, {}),
      (1, {}), (1, {}), (1, {})]
    (fun s => s.mem.owners = {0} ∧ s.loc 1 = .unlockWord .unlockSwap ∧
      (exec Threads.crossed ⟨.errorcheck, true⟩ 1 {} s.mem (s.loc 1)).map
        (fun r => (r.1.lock.word, r.2)) = some (0, .ret .ok)) (by decide)
  refine ⟨s, hs, fun honly => ?_, howners, hword⟩
  have hone : (1 : Fin 3) ∈ s.mem.owners := honly.2 1 (by rw [hpc]; exact rfl)
  rw [howners] at hone
  exact absurd hone (by decide)

end Hlpt.Mutex
