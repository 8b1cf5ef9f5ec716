import Hlpt.Recovery.Invariant

/-!
# `Hlpt.Recovery.Remembered`: an inconsistent mutex is not forgotten

* `Remembered`: what holds in every reachable state of a robust mutex of type normal or
  errorcheck. Once it is lost, no lock call returns 0 and each one that acquires it reports
  so, until `pthread_mutex_consistent` returns 0. Once it is wrecked, each lock call that
  begins reports `ENOTRECOVERABLE`.
* `Refused`: the same for the lock calls that are under way when it is wrecked.
  An errorcheck call may report `EDEADLK` instead: it finds its own id and its own process
  in two fields that come from two owners.
* `robust_remembered`: the first always holds, and the second exactly for threads that
  cannot be mistaken in this way.
* `robust_edeadlk`: a call that is mistaken.
-/

set_option autoImplicit false

namespace Hlpt.Recovery

open Hlpt.Lib Hlpt.Robust

universe u

variable {T : Type u} [DecidableEq T]

/-- An inconsistent mutex is remembered. -/
structure Remembered (E : Env T) (s : Global T (Mem T) (Local T)) : Prop where
  /-- A death with the mutex held loses it. -/
  died : ∀ t c m l, exec E t c s.mem (s.loc t) = some (m, l) → c.lib.dies = true →
    (∃ u, E.pid u = E.pid t ∧ 0 < s.mem.holds u) → m.lost = true
  /-- It stays lost until `pthread_mutex_consistent` returns 0. -/
  kept : ∀ t c m l, exec E t c s.mem (s.loc t) = some (m, l) → s.mem.lost = true →
    m.lost = true ∨ (s.loc t).pc = .conRet .ok
  /-- An unlock of a lost mutex wrecks it, for good. -/
  released : ∀ t c m l, exec E t c s.mem (s.loc t) = some (m, l) →
    (s.mem.wrecked = true ∨ s.mem.lost = true ∧ s.mem.mutex.lock ≠ 0 ∧ m.mutex.lock = 0) →
    m.wrecked = true
  /-- No lock call returns 0. -/
  nonzero : s.mem.lost = true → ∀ t, Live E s.mem t → (s.loc t).pc ≠ .lib (.lockRet .ok)
  /-- A lock call that returns with the mutex acquired says so. -/
  acquired : s.mem.lost = true → ∀ t r, Live E s.mem t → (s.loc t).pc = .lib (.lockRet r) →
    s.mem.mutex.taker = some t → s.mem.holds t = 0 → r = .eownerdead ∨ r = .enotrecoverable
  /-- A lock call that begins on a wrecked mutex is refused. -/
  late : s.mem.wrecked = true → ∀ t r, Live E s.mem t → (s.loc t).pc = .lib (.lockRet r) →
    (s.loc t).late = true → r = .enotrecoverable

/-- The lock calls that are under way are refused too, or time out, or find the mutex
busy. -/
def Refused (E : Env T) (s : Global T (Mem T) (Local T)) : Prop :=
  s.mem.wrecked = true → ∀ t r, Live E s.mem t → (s.loc t).pc = .lib (.lockRet r) →
    r = .enotrecoverable ∨ ((∃ tsp, (s.loc t).call = .timedlock tsp) ∧ r = .etimedout) ∨
      ((s.loc t).call = .trylock ∧ r = .ebusy)

variable {E : Env T} {s : Global T (Mem T) (Local T)}

omit [DecidableEq T] in
/-- A lock call that returns 0 or `EOWNERDEAD` leaves the mutex to its thread. -/
theorem Inv.owner_of_ret (hs : Inv E s) {t : T} {r : Code} (hlive : Live E s.mem t)
    (hpc : (s.loc t).pc = .lib (.lockRet r)) (hr : r = .ok ∨ r = .eownerdead) :
    s.mem.mutex.taker = some t ∧ s.mem.mutex.ownerId = E.id t := by
  have hbase := hs.base.pc t hlive
  have hloc : (lower s).loc t = ⟨.lockRet r, s.mem.holds t⟩ := by
    simp only [lower, hpc, Pc.lower]
  rw [hloc] at hbase
  simp only [Robust.PcOk, if_pos hr] at hbase
  exact ⟨hbase.1, hbase.2.1⟩

/-- What an access does to the ghosts. -/
theorem act_ghosts {t : T} {c : Choice T} {m m' : Mem T} {l l' : Local T}
    (h : act E t c m l = some (m', l')) :
    (m'.lost = m.lost ∨ l.pc = .conRet .ok) ∧ (m.wrecked = true → m'.wrecked = true) ∧
      (m.lost = true → m.mutex.lock ≠ 0 → m'.mutex.lock = 0 → m'.wrecked = true) := by
  unfold act at h
  cases hpc : l.pc with
  | lib p =>
      simp only [hpc] at h
      cases hcall : c.holderCall with
      | none =>
          simp only [hcall] at h
          obtain ⟨r, -, hr⟩ := Option.map_eq_some_iff.mp h
          obtain ⟨rfl, -⟩ := Prod.mk.inj hr
          refine ⟨.inl rfl, fun hw => ?_, fun hlost hne h0 => ?_⟩
          · simp [Mem.after, hw]
          · show (m.wrecked || (m.lost && decide (m.mutex.lock ≠ 0 ∧ r.1.lock = 0))) = true
            rw [hlost, decide_eq_true ⟨hne, h0⟩, Bool.and_self, Bool.or_true]
      | some k =>
          simp only [hcall] at h
          split at h
          · obtain ⟨pc, -, hr⟩ := Option.map_eq_some_iff.mp h
            obtain ⟨rfl, -⟩ := Prod.mk.inj hr
            exact ⟨.inl rfl, id, fun _ hne h0 => absurd h0 hne⟩
          · cases h
  | conCas val =>
      simp only [hpc] at h
      split at h
      · obtain ⟨rfl, -⟩ := Prod.mk.inj (Option.some.inj h)
        exact ⟨.inl rfl, id, fun _ _ h0 => absurd h0 (waiters_ne_zero _)⟩
      · obtain ⟨rfl, -⟩ := Prod.mk.inj (Option.some.inj h)
        exact ⟨.inl rfl, id, fun _ hne h0 => absurd h0 hne⟩
  | conRet r =>
      simp only [hpc] at h
      obtain ⟨rfl, -⟩ := Prod.mk.inj (Option.some.inj h)
      refine ⟨?_, id, fun _ hne h0 => absurd h0 hne⟩
      by_cases hr : r = .ok
      · exact .inr (by rw [hr])
      · exact .inl (if_neg hr)
  | _ =>
      simp only [hpc] at h
      obtain ⟨rfl, -⟩ := Prod.mk.inj (Option.some.inj h)
      exact ⟨.inl rfl, id, fun _ hne h0 => absurd h0 hne⟩

omit [DecidableEq T] in
/-- While the mutex is lost, no live thread is about to return 0 from a lock call. -/
theorem Inv.nonzero (hs : Inv E s) (hlost : s.mem.lost = true) {t : T} (hlive : Live E s.mem t) :
    (s.loc t).pc ≠ .lib (.lockRet .ok) := by
  intro hpc
  obtain ⟨ht, hid⟩ := hs.owner_of_ret hlive hpc (.inl rfl)
  rcases hs.lost hlost with hm | ⟨u, hu, hmark⟩
  · exact E.id_ne_notrecoverable t (hid.symm.trans hm)
  · obtain rfl := Option.some.inj (ht.symm.trans hu)
    have hno := hmark hlive
    rw [hpc] at hno
    exact hno

/-- Every reachable state remembers. -/
theorem Inv.remembered (hs : Inv E s) : Remembered E s := by
  constructor
  case died =>
    rintro t c m l h hdies ⟨u, hproc, hd⟩
    unfold exec at h
    split at h
    · cases h
    rename_i hlive
    rw [Bool.not_eq_true] at hlive
    cases h
    have hliveu : Live E s.mem u := by rw [Live, hproc, hlive]
    simp [Mem.afterDeath, (hs.holder hliveu hd).1, hproc]
  case kept =>
    intro t c m l h hlost
    unfold exec at h
    split at h
    · cases h
    split at h
    · obtain ⟨rfl, -⟩ := Prod.mk.inj (Option.some.inj h)
      exact .inl (by simp [Mem.afterDeath, hlost])
    · exact (act_ghosts h).1.imp_left fun heq => heq.trans hlost
  case released =>
    intro t c m l h hwrecks
    unfold exec at h
    split at h
    · cases h
    split at h
    · obtain ⟨rfl, -⟩ := Prod.mk.inj (Option.some.inj h)
      rcases hwrecks with hw | ⟨-, hne, h0⟩
      · exact hw
      · exact absurd h0 hne
    · obtain ⟨-, hkept, hnew⟩ := act_ghosts h
      rcases hwrecks with hw | ⟨hlost, hne, h0⟩
      · exact hkept hw
      · exact hnew hlost hne h0
  case nonzero => exact fun hlost t hlive => hs.nonzero hlost hlive
  case acquired =>
    intro hlost t r hlive hpc ht hd
    have hseek := hs.seek t hlive ht hd
    rw [hpc] at hseek
    by_contra hne
    push Not at hne
    refine hseek ⟨?_, hne⟩
    rintro rfl
    exact hs.nonzero hlost hlive hpc
  case late =>
    intro _ t r hlive hpc hlate
    have hl := (hs.late t hlive hlate).2
    rw [hpc] at hl
    cases r <;> first | rfl | exact hl.elim

omit [DecidableEq T] in
/-- Threads that are apart are refused with the right code. -/
theorem Inv.refused (hs : Inv E s) (hk : E.kind ≠ .recursive) (hapart : Apart E) :
    Refused E s := by
  intro hw t r hlive hpc
  have hm := hs.wrecked hw
  have hcall := hs.call t
  rw [hpc] at hcall
  cases r with
  | ok =>
      have hid := (hs.owner_of_ret hlive hpc (.inl rfl)).2
      exact absurd (hid.symm.trans hm) (E.id_ne_notrecoverable t)
  | eownerdead =>
      have hid := (hs.owner_of_ret hlive hpc (.inr rfl)).2
      exact absurd (hid.symm.trans hm) (E.id_ne_notrecoverable t)
  | edeadlk =>
      -- Who finds itself to be the owner holds the mutex, and nobody holds a wrecked one.
      have hd := hs.pc t hlive
      rw [hpc] at hd
      exact absurd hm (hs.holder_ne hlive (hd hapart)).1
  | eagain => exact absurd hcall hk
  | enotrecoverable => exact .inl rfl
  | etimedout => exact .inr (.inl ⟨hcall, rfl⟩)
  | ebusy => exact .inr (.inr ⟨hcall, rfl⟩)
  | _ => exact hcall.elim

/-! ### A call that is mistaken -/

section

variable {a b c : T}

/-- The mutex that the thread `a` locked first. -/
def Mem.held (E : Env T) (a : T) : Mem T :=
  ⟨⟨E.pid a, E.id a, 1, fun _ => false, some a⟩, Function.update (fun _ => 0) a 1, false, false⟩

/-- A free mutex is locked. -/
theorem alone_lock (a : T) :
    (exec E).alone a (List.replicate 9 {})
      (⟨⟨0, 0, 0, fun _ => false, none⟩, fun _ => 0, false, false⟩, ⟨.lib .idle, .lock, false⟩) =
      some (Mem.held E a, ⟨.lib .idle, .lock, false⟩) := by
  have hid : 0#32 ≠ E.id a := (E.id_ne a).symm
  have hrec : 0#32 ≠ NOTRECOVERABLE_ID := by decide
  have hchecks : (exec E).alone a (List.replicate 3 {})
      (⟨⟨0, 0, 0, fun _ => false, none⟩, fun _ => 0, false, false⟩, ⟨.lib .idle, .lock, false⟩) =
      some (⟨⟨0, 0, 0, fun _ => false, none⟩, fun _ => 0, false, false⟩,
        ⟨.lib (.spinLoad .lock), .lock, false⟩) := by
    simp [List.replicate, Exec.alone, exec, act, Robust.act, Mem.after, Local.after, begins,
      LockCall.acquire, hid, hrec]
  have hword : (exec E).alone a (List.replicate 2 {})
      (⟨⟨0, 0, 0, fun _ => false, none⟩, fun _ => 0, false, false⟩,
        ⟨.lib (.spinLoad .lock), .lock, false⟩) =
      some (⟨⟨E.pid a, 0, 0, fun _ => false, some a⟩, fun _ => 0, false, false⟩,
        ⟨.lib (.taken false), .lock, false⟩) := by
    simp [List.replicate, Exec.alone, exec, act, Robust.act, Mem.after, Local.after, begins]
  have hfields : (exec E).alone a (List.replicate 4 {})
      (⟨⟨E.pid a, 0, 0, fun _ => false, some a⟩, fun _ => 0, false, false⟩,
        ⟨.lib (.taken false), .lock, false⟩) =
      some (Mem.held E a, ⟨.lib .idle, .lock, false⟩) := by
    simp [List.replicate, Exec.alone, exec, act, Robust.act, Mem.after, Local.after, begins,
      Mem.held, hrec]
  exact Exec.alone_append hchecks (Exec.alone_append hword hfields)

/-- A thread with the id of the owner goes on to compare the process ids. -/
theorem alone_check (hid : E.id a = E.id b) :
    (exec E).alone b (List.replicate 3 {}) (Mem.held E a, ⟨.lib .idle, .lock, false⟩) =
      some (Mem.held E a, ⟨.lib (.checkPid .lock), .lock, false⟩) := by
  have hrec := E.id_ne_notrecoverable b
  simp [List.replicate, Exec.alone, exec, act, Robust.act, Mem.after, Local.after, begins,
    Mem.held, hid, hrec]

/-- The mutex after the process of the thread `a` died. -/
def Mem.orphan (E : Env T) (a : T) : Mem T :=
  ⟨⟨E.pid a, E.id a, 1, Function.update (fun _ => false) (E.pid a) true, some a⟩,
    Function.update (fun _ => 0) a 1, true, false⟩

/-- The process of the holder dies. -/
theorem alone_death (a : T) (l : Local T) :
    (exec E).alone a [{ lib := { dies := true } }] (Mem.held E a, l) =
      some (Mem.orphan E a, l) := by
  simp [Exec.alone, exec, Mem.held, Mem.orphan, Mem.afterDeath]

/-- The mutex that the thread `c` took over, when the word is `lock`. -/
def Mem.taken (E : Env T) (a c : T) (lock ownerId : BitVec 32) : Mem T :=
  ⟨⟨lock, ownerId, 1, Function.update (fun _ => false) (E.pid a) true, some c⟩,
    Function.update (fun _ => 0) a 1, true, false⟩

/-- The mutex that the thread `c` inherited. -/
def Mem.inherited (E : Env T) (a c : T) : Mem T :=
  ⟨⟨E.pid c ||| LLL_DEAD_OWNER, E.id c, 1, Function.update (fun _ => false) (E.pid a) true,
    some c⟩, Function.update (Function.update (fun _ => 0) a 1) c 1, true, false⟩

/-- A thread of another process takes the mutex over. -/
theorem alone_inherit (hpid : E.pid c ≠ E.pid a) (hid : E.id c ≠ E.id a) :
    (exec E).alone c ({ lib := { call := .lock .trylock } } :: List.replicate 11 {})
      (Mem.orphan E a, ⟨.lib .idle, .lock, false⟩) =
      some (Mem.inherited E a c, ⟨.lib .idle, .trylock, false⟩) := by
  have hrec := E.id_ne_notrecoverable a
  have hca : c ≠ a := fun h => hpid (congrArg E.pid h)
  have hne : ∀ t, E.pid t ≠ 0#32 := E.pid_ne
  have hchecks : (exec E).alone c ({ lib := { call := .lock .trylock } } :: List.replicate 2 {})
      (Mem.orphan E a, ⟨.lib .idle, .lock, false⟩) =
      some (Mem.orphan E a, ⟨.lib .tryLoad, .trylock, false⟩) := by
    simp [List.replicate, Exec.alone, exec, act, Robust.act, Mem.after, Local.after, begins,
      Mem.orphan, LockCall.acquire, hpid, hid.symm, hrec, hca]
  have hword : (exec E).alone c (List.replicate 3 {})
      (Mem.orphan E a, ⟨.lib .tryLoad, .trylock, false⟩) =
      some (Mem.taken E a c (E.pid c) (E.id a), ⟨.lib (.taken true), .trylock, false⟩) := by
    simp [List.replicate, Exec.alone, exec, act, Robust.act, Mem.after, Local.after, begins,
      Mem.orphan, Mem.taken, hpid, hca, hne, E.pid_masked]
  have hfields : (exec E).alone c (List.replicate 3 {})
      (Mem.taken E a c (E.pid c) (E.id a), ⟨.lib (.taken true), .trylock, false⟩) =
      some (Mem.taken E a c (E.pid c) (E.id c), ⟨.lib .deadLoad, .trylock, false⟩) := by
    simp [List.replicate, Exec.alone, exec, act, Robust.act, Mem.after, Local.after, begins,
      Mem.taken, hpid, hca, hne, hrec]
  have hflag : (exec E).alone c (List.replicate 3 {})
      (Mem.taken E a c (E.pid c) (E.id c), ⟨.lib .deadLoad, .trylock, false⟩) =
      some (Mem.inherited E a c, ⟨.lib .idle, .trylock, false⟩) := by
    simp [List.replicate, Exec.alone, exec, act, Robust.act, Mem.after, Local.after, begins,
      Mem.taken, Mem.inherited, hpid, hne, hca]
  exact Exec.alone_append hchecks (Exec.alone_append hword (Exec.alone_append hfields hflag))

/-- The comparison with the process of the new owner: the mutex looks like the thread's
own. -/
theorem alone_mistake (hkind : E.kind = .errorcheck) (hpid : E.pid a ≠ E.pid b)
    (hproc : E.pid c = E.pid b) :
    (exec E).alone b [{}] (Mem.inherited E a c, ⟨.lib (.checkPid .lock), .lock, false⟩) =
      some (Mem.inherited E a c, ⟨.lib (.lockRet .edeadlk), .lock, false⟩) := by
  have hmask : (E.pid b ||| LLL_DEAD_OWNER) &&& LLL_OWNER_MASK = E.pid b := by
    rw [deadOwner_masked, E.pid_masked]
  have hne : E.pid b ≠ 0#32 := E.pid_ne b
  simp [Exec.alone, exec, act, Robust.act, Mem.after, Local.after, begins, Mem.inherited, hkind,
    hpid.symm, hproc, hmask, hne]

/-- The mutex that the thread `c` wrecked. -/
def Mem.wreck (E : Env T) (a c : T) : Mem T :=
  ⟨⟨0, NOTRECOVERABLE_ID, 0, Function.update (fun _ => false) (E.pid a) true, none⟩,
    Function.update (Function.update (fun _ => 0) a 1) c 0, true, true⟩

/-- The heir unlocks without a call of `pthread_mutex_consistent`. -/
theorem alone_wreck (hpid : E.pid c ≠ E.pid a) (call : LockCall) :
    (exec E).alone c ({ lib := { call := .unlock } } :: List.replicate 10 {})
      (Mem.inherited E a c, ⟨.lib .idle, call, false⟩) =
      some (Mem.wreck E a c, ⟨.lib .idle, call, false⟩) := by
  have hrec := E.id_ne_notrecoverable c
  obtain ⟨hw, -⟩ := E.pid_flags c
  have hne : E.pid c ≠ 0#32 := E.pid_ne c
  have hmask : (E.pid c ||| LLL_DEAD_OWNER) &&& LLL_OWNER_MASK = E.pid c := by
    rw [deadOwner_masked, E.pid_masked]
  have hdead : (E.pid c ||| LLL_DEAD_OWNER) &&& LLL_DEAD_OWNER ≠ 0#32 := by
    rw [or_and_self]
    decide
  have hwaiters : (E.pid c ||| LLL_DEAD_OWNER) &&& LLL_WAITERS = 0#32 := by
    rw [or_and_of_disjoint (by decide)]
    exact hw
  have hchecks : (exec E).alone c ({ lib := { call := .unlock } } :: List.replicate 3 {})
      (Mem.inherited E a c, ⟨.lib .idle, call, false⟩) =
      some ({ Mem.inherited E a c with
        holds := Function.update (Function.update (fun _ => 0) a 1) c 0 },
        ⟨.lib .unLoad, call, false⟩) := by
    simp [List.replicate, Exec.alone, exec, act, Robust.act, Mem.after, Local.after, begins,
      Mem.inherited, hpid, hne, hrec, hmask]
  have hfields : (exec E).alone c (List.replicate 4 {})
      ({ Mem.inherited E a c with
        holds := Function.update (Function.update (fun _ => 0) a 1) c 0 },
        ⟨.lib .unLoad, call, false⟩) =
      some ({ Mem.inherited E a c with
        mutex := ⟨E.pid c ||| LLL_DEAD_OWNER, NOTRECOVERABLE_ID, 0,
          Function.update (fun _ => false) (E.pid a) true, some c⟩
        holds := Function.update (Function.update (fun _ => 0) a 1) c 0 },
        ⟨.lib .unWord, call, false⟩) := by
    simp [List.replicate, Exec.alone, exec, act, Robust.act, Mem.after, Local.after, begins,
      Mem.inherited, hpid, hne, hdead]
  have hword : (exec E).alone c (List.replicate 3 {})
      ({ Mem.inherited E a c with
        mutex := ⟨E.pid c ||| LLL_DEAD_OWNER, NOTRECOVERABLE_ID, 0,
          Function.update (fun _ => false) (E.pid a) true, some c⟩
        holds := Function.update (Function.update (fun _ => 0) a 1) c 0 },
        ⟨.lib .unWord, call, false⟩) =
      some (Mem.wreck E a c, ⟨.lib .idle, call, false⟩) := by
    simp [List.replicate, Exec.alone, exec, act, Robust.act, Mem.after, Local.after, begins,
      Mem.inherited, Mem.wreck, hpid, hne, hwaiters]
  exact Exec.alone_append hchecks (Exec.alone_append hfields hword)

/-- Three threads that are not apart get to a wrong code. The thread `a` locks; `b` reads
the id of `a`, which is its own; the process of `a` dies; `c` takes the mutex over; `b`
reads the process id of `c`, which is its own; `c` unlocks the inconsistent mutex. The call
of `b` reports `EDEADLK`. -/
theorem not_refused (hkind : E.kind = .errorcheck) (hpid : E.pid a ≠ E.pid b)
    (hid : E.id a = E.id b) (hproc : E.pid c = E.pid b) (hcb : c ≠ b) :
    ∃ s, (machine E).Reach s ∧ ¬ Refused E s := by
  have hab : a ≠ b := fun h => hpid (congrArg E.pid h)
  have hac : a ≠ c := fun h => hpid ((congrArg E.pid h).trans hproc)
  have hpca : E.pid c ≠ E.pid a := fun h => hpid (h.symm.trans hproc)
  have hica : E.id c ≠ E.id a := fun h => hcb (E.unique c b hproc (h.trans hid))
  let s₀ : Global T (Mem T) (Local T) :=
    ⟨⟨⟨0, 0, 0, fun _ => false, none⟩, fun _ => 0, false, false⟩, fun _ =>
      ⟨.lib .idle, .lock, false⟩⟩
  have h₀ : (machine E).Reach s₀ := .init ⟨rfl, fun _ => rfl⟩
  have h₁ := Exec.reach_alone h₀ rfl (alone_lock a)
  have h₂ := Exec.reach_alone h₁ (Function.update_of_ne hab.symm _ _) (alone_check hid)
  have h₃ := Exec.reach_alone h₂ ((Function.update_of_ne hab _ _).trans
    (Function.update_self _ _ _)) (alone_death a _)
  have h₄ := Exec.reach_alone h₃ ((Function.update_of_ne hac.symm _ _).trans
    ((Function.update_of_ne hcb _ _).trans (Function.update_of_ne hac.symm _ _)))
    (alone_inherit hpca hica)
  have h₅ := Exec.reach_alone h₄ ((Function.update_of_ne hcb.symm _ _).trans
    ((Function.update_of_ne hab.symm _ _).trans (Function.update_self _ _ _)))
    (alone_mistake hkind hpid hproc)
  have h₆ := Exec.reach_alone h₅ ((Function.update_of_ne hcb _ _).trans
    (Function.update_self _ _ _)) (alone_wreck hpca _)
  refine ⟨_, h₆, ?_⟩
  intro href
  have hcode := href rfl b .edeadlk (by simp [Live, Mem.wreck, hpid.symm])
    (by simp [Function.update_of_ne hcb.symm])
  simp at hcode

end

/-- The inconsistency of a robust mutex of type normal or errorcheck, over every run of any
threads of any processes, whichever of them die. It is never forgotten. The lock calls that
are under way when an inconsistent mutex is unlocked report so as well, if and only if the
type is normal or the threads are apart. -/
theorem robust_remembered (hk : E.kind ≠ .recursive) :
    (∀ s, (machine E).Reach s → Remembered E s) ∧
    ((∀ s, (machine E).Reach s → Refused E s) ↔ Apart E) := by
  refine ⟨fun s h => (inv_of_reach hk h).remembered, fun h hkind a b c hpid hid hproc => ?_,
    fun hapart s h => (inv_of_reach hk h).refused hk hapart⟩
  by_contra hcb
  obtain ⟨s, hs, hne⟩ := not_refused hkind hpid hid hproc hcb
  exact hne (h s hs)

/-- Four threads: 0 in the process 1, 1 in the process 2, and 2 and 3 in the process 3. The
threads 1 and 2 have the id 5. -/
def fourThreads (kind : Kind) : Env (Fin 4) where
  kind := kind
  pid t := if t = 0 then 1 else if t = 1 then 2 else 3
  id t := if t = 0 then 4 else if t = 3 then 6 else 5
  pid_ne := by decide
  pid_masked := by decide
  id_ne := by decide
  id_masked := by decide
  unique := by decide

/-- The two types side by side. -/
theorem robust_remembered_four :
    ((∀ s, (machine (fourThreads .normal)).Reach s → Remembered (fourThreads .normal) s) ∧
      ∀ s, (machine (fourThreads .normal)).Reach s → Refused (fourThreads .normal) s) ∧
    ¬ ∀ s, (machine (fourThreads .errorcheck)).Reach s → Refused (fourThreads .errorcheck) s := by
  obtain ⟨hall, hiff⟩ := robust_remembered (E := fourThreads .normal) (by decide)
  refine ⟨⟨hall, hiff.mpr fun h => by cases h⟩, ?_⟩
  intro h
  have hapart := (robust_remembered (E := fourThreads .errorcheck) (by decide)).2.mp h
  exact absurd (hapart rfl 1 2 3 (by decide) rfl rfl) (by decide)

/-- A thread that goes on for some steps. -/
def goesOn (t : T) (n : ℕ) : List (T × Choice T) := List.replicate n (t, {})

/-- A mistaken call after the unlock has returned. The process of the thread 0 dies with
the mutex, 1 inherits it and unlocks it without making it consistent, 3 takes the word and
gets `ENOTRECOVERABLE`. The call of 2 began before the unlock, with the id of 1 in the
mutex. It finds the process of 3 in the word, which is its own. -/
theorem robust_edeadlk : ∃ s : Global (Fin 4) (Mem (Fin 4)) (Local (Fin 4)),
    (machine (fourThreads .errorcheck)).Reach s ∧ ¬ Refused (fourThreads .errorcheck) s := by
  obtain ⟨s, hs, hw, hlive, hpc⟩ := (machine (fourThreads .errorcheck)).exists_reach
    (s := ⟨⟨⟨0, 0, 0, fun _ => false, none⟩, fun _ => 0, false, false⟩, fun _ =>
      ⟨.lib .idle, .lock, false⟩⟩) ⟨rfl, fun _ => rfl⟩
    (goesOn 0 9 ++ (0, { lib := { dies := true } }) ::
      (1, { lib := { call := .lock .trylock } }) :: goesOn 1 11 ++ goesOn 2 3 ++ goesOn 3 3 ++
      (1, { lib := { call := .unlock } }) :: goesOn 1 10 ++ goesOn 3 4 ++ goesOn 2 1)
    (fun s => s.mem.wrecked = true ∧ s.mem.mutex.dead 3 = false ∧
      (s.loc 2).pc = .lib (.lockRet .edeadlk)) (by decide +kernel)
  exact ⟨s, hs, fun href => by simpa using href hw 2 _ hlive hpc⟩

end Hlpt.Recovery
