import Hlpt.Robust.Exclusion

/-!
# `Hlpt.Robust.NotRecoverable`: what `ENOTRECOVERABLE` leaves behind

An owner that got `EOWNERDEAD` and unlocks makes the mutex not recoverable: it stores
`NOTRECOVERABLE_ID` as the owner and gives the word free. A lock call compares the owner with
it twice, before it goes for the word and after it has the word. The second test returns
`ENOTRECOVERABLE` with the word taken, and nothing gives it back. Only a thread that was
in the loop of the lock gets there. The next one in the loop then waits for the first one's
process to die.

* `Kept`: while no lock call takes the word of such a mutex, only its last owner has it.
* `canFail`: a thread in the loop comes out when the word is free or of a dead process.
* `notrecoverable_released`: in runs without such a step the word is not kept.
* `notrecoverable_kept`: a run in which it is.
-/

set_option autoImplicit false

namespace Hlpt.Robust

open Hlpt.Lib

universe u

variable {T : Type u} [DecidableEq T]

/-- The loops of `lll_robust_lock` and `__lll_robust_abstimed_lock`. -/
def Waiting : Pc → Prop
  | .spinLoad _ | .spinCas _ | .spinMark .. | .waitLoad _ | .waitCas _ | .waitValid ..
  | .waitSteal .. | .waitSleep .. | .asleep _ => True
  | _ => False

instance (pc : Pc) : Decidable (Waiting pc) := by
  unfold Waiting
  split <;> infer_instance

/-- From this state on, and without a death, the lock call of the thread can return
`ENOTRECOVERABLE`. -/
def CanFail (E : Env T) (s : Global T (Mem T) Local) (t : T) : Prop :=
  ∃ s', ((exec E).machine (· = s)).ReachVia (fun _ a => a.2.dies = false) s' ∧
    (s'.loc t).pc = .lockRet .enotrecoverable

/-- A lock call that fails with `ENOTRECOVERABLE` does not keep the word, and every other
one that waits for the mutex can fail as well. -/
structure Released (E : Env T) (s : Global T (Mem T) Local) : Prop where
  word : ∀ t, s.mem.dead (E.pid t) = false → (s.loc t).pc = .lockRet .enotrecoverable →
    s.mem.taker ≠ some t
  others : s.mem.ownerId = NOTRECOVERABLE_ID → ∀ t, s.mem.dead (E.pid t) = false →
    Waiting (s.loc t).pc → CanFail E s t

/-- The next access of the thread takes the lock word. -/
def Takes (m : Mem T) : Pc → Prop
  | .spinCas _ | .waitCas _ | .tryCas => m.lock = 0
  | .waitSteal _ val | .trySteal val => m.lock = val
  | _ => False

instance (m : Mem T) (pc : Pc) : Decidable (Takes m pc) := by
  unfold Takes
  split <;> infer_instance

/-- The step does not take the word of a mutex that is not recoverable, and it does not take
a mutex for its own that is not. -/
def Careful (E : Env T) (s : Global T (Mem T) Local) (a : T × Choice) : Prop :=
  a.2.dies = false →
    (Takes s.mem (s.loc a.1).pc → s.mem.ownerId ≠ NOTRECOVERABLE_ID) ∧
    Sure E a.1 s.mem (s.loc a.1)

instance (E : Env T) (t : T) (m : Mem T) (l : Local) : Decidable (Sure E t m l) := by
  unfold Sure
  split <;> infer_instance

instance (E : Env T) (s : Global T (Mem T) Local) (a : T × Choice) :
    Decidable (Careful E s a) :=
  inferInstanceAs (Decidable (_ → _ ∧ _))

/-- The last accesses of an unlock. -/
def Releasing : Pc → Prop
  | .unWord | .unSetWake | .unCas _ => True
  | _ => False

/-- Of the threads of live processes, only the one that makes the mutex not recoverable
still has the word then. -/
structure Kept (E : Env T) (s : Global T (Mem T) Local) : Prop where
  held : ∀ t, s.mem.dead (E.pid t) = false → s.mem.taker = some t →
    s.mem.ownerId = NOTRECOVERABLE_ID → Releasing (s.loc t).pc
  failed : ∀ t, s.mem.dead (E.pid t) = false → (s.loc t).pc = .lockRet .enotrecoverable →
    s.mem.taker ≠ some t

variable {E : Env T} {t : T} {c : Choice} {m m' : Mem T} {l l' : Local}

/-! ### One access -/

omit [DecidableEq T] in
/-- The word is taken by an access that takes it. -/
theorem takes_of_act (h : act E t c m l = some (m', l')) (hold : m.taker ≠ some t)
    (hnew : m'.taker = some t) : Takes m l.pc ∧ m'.ownerId = m.ownerId := by
  cases step_of_act h with
  | spinTake hm | waitTake hm | tryTake hm => exact ⟨hm, rfl⟩
  | waitSteal | trySteal => exact ⟨rfl, rfl⟩
  | unSetWake | unCas => cases hnew
  | _ => exact absurd hnew hold

omit [DecidableEq T] in
/-- A lock call fails in its first test, or in the one after it took the word. -/
theorem failed_of_act (h : act E t c m l = some (m', l'))
    (hpc : l'.pc = .lockRet .enotrecoverable) :
    m' = m ∧ m.ownerId = NOTRECOVERABLE_ID ∧
      ((∃ k, l.pc = .checkUnrecoverable k) ∨ ∃ d, l.pc = .taken d) := by
  cases step_of_act h with
  | move hm =>
    cases hm with
    | unrecoverable howner => exact ⟨rfl, howner, .inl ⟨_, rfl⟩⟩
    | refused howner => exact ⟨rfl, howner, .inr ⟨_, rfl⟩⟩
    | _ => cases hpc
  | _ => cases hpc

omit [DecidableEq T] in
/-- The owner that makes the mutex not recoverable goes on to release it. -/
theorem releasing_of_act (h : act E t c m l = some (m', l')) (hnew : m'.taker = some t)
    (howner : m'.ownerId = NOTRECOVERABLE_ID)
    (hheld : m.ownerId = NOTRECOVERABLE_ID → Releasing l.pc) : Releasing l'.pc := by
  -- Any other access leaves a mutex that the thread was already releasing.
  cases step_of_act h with
  | move hm =>
    cases hm with
    | unWaited | unWord | unAgain => trivial
    | _ => exact (hheld howner).elim
  | unSetOwner => trivial
  | setOwner => exact absurd howner (E.id_ne_notrecoverable t)
  | unSetWake | unCas => cases hnew
  | _ => exact (hheld howner).elim

/-! ### Whole runs -/

/-- A careful step keeps the word with its last owner. -/
theorem Kept.step {s : Global T (Mem T) Local} (hk : Kept E s) (hs : Inv E s)
    (hcareful : Careful E s (t, c)) (h : exec E t c s.mem (s.loc t) = some (m, l)) :
    Kept E ⟨m, Function.update s.loc t l⟩ := by
  unfold exec at h
  split at h
  · cases h
  next hlive =>
  rw [Bool.not_eq_true] at hlive
  split at h
  · -- The process of the thread dies, and fewer threads are live.
    cases h
    rw [Function.update_eq_self]
    have hlive' : ∀ p, Function.update s.mem.dead (E.pid t) true p = false →
        s.mem.dead p = false := by
      intro p hp
      by_cases hpt : p = E.pid t
      · rw [hpt, Function.update_self] at hp
        cases hp
      · rwa [Function.update_of_ne hpt] at hp
    exact ⟨fun u hu => hk.held u (hlive' _ hu), fun u hu => hk.failed u (hlive' _ hu)⟩
  next hdies =>
  rw [Bool.not_eq_true] at hdies
  obtain ⟨htakes, -⟩ := hcareful hdies
  obtain ⟨htake, hdead⟩ := act_take h (hs.pc t hlive)
  -- A thread that is the taker now was the taker before, unless it has just taken the word.
  have hother : ∀ u, u ≠ t → m.taker = some u →
      s.mem.taker = some u ∧ m.ownerId = s.mem.ownerId := by
    intro u hut hu
    have hne : some t ≠ some u := fun he => hut (Option.some.inj he).symm
    cases htake with
    | keep ht ho hc hl => exact ⟨ht ▸ hu, ho⟩
    | take hm ht ho hl => exact absurd (ht.symm.trans hu) hne
    | own hm ht ho hl => exact absurd (ht.symm.trans hu) hne
    | release hm ht hl ho => simp [ht] at hu
  constructor
  · intro u hu htaker howner
    simp only [hdead] at hu
    by_cases hut : u = t
    · subst hut
      simp only [Function.update_self]
      by_cases hold : s.mem.taker = some u
      · exact releasing_of_act h htaker howner (hk.held u hu hold)
      · obtain ⟨ht, ho⟩ := takes_of_act h hold htaker
        exact absurd (ho.symm.trans howner) (htakes ht)
    · simp only [Function.update_of_ne hut]
      obtain ⟨ht, ho⟩ := hother u hut htaker
      exact hk.held u hu ht (ho.symm.trans howner)
  · intro u hu hpc htaker
    simp only [hdead] at hu
    by_cases hut : u = t
    · subst hut
      simp only [Function.update_self] at hpc
      obtain ⟨rfl, howner, hfrom⟩ := failed_of_act h hpc
      have hrel := hk.held u hu htaker howner
      rcases hfrom with ⟨k, hpc⟩ | ⟨d, hpc⟩ <;> simp [hpc, Releasing] at hrel
    · simp only [Function.update_of_ne hut] at hpc
      exact hk.failed u hu hpc (hother u hut htaker).1

/-- Both invariants hold in careful runs. -/
theorem kept_of_reach {s : Global T (Mem T) Local} (h : (machine E).ReachVia (Careful E) s) :
    Inv E s ∧ Kept E s := by
  refine Exec.invariant (P := fun s => Inv E s ∧ Kept E s)
    (fun s hs => ⟨inv_of_init hs, ?_⟩) (fun s t c m p hs hc he => ?_) h
  · obtain ⟨hm, hloc⟩ := hs
    constructor
    · intro t _ ht
      simp [hm] at ht
    · intro t _ ht
      simp [hloc] at ht
  · exact ⟨hs.1.step (fun _ hdies => (hc hdies).2) he, hs.2.step hs.1 hc he⟩

/-! ### The way out of the loop -/

omit [DecidableEq T] in
/-- The step of a thread whose process lives and goes on. -/
theorem exec_of_act (hdies : c.dies = false) (hlive : m.dead (E.pid t) = false) :
    exec E t c m l = act E t c m l := by
  simp only [exec, hlive, hdies, Bool.false_eq_true, if_false]

/-- The thread, moving alone and without a death, gets to its return with
`ENOTRECOVERABLE`. -/
def FailsAlone (E : Env T) (t : T) (m : Mem T) (l : Local) : Prop :=
  ∃ cs : List Choice, (∀ c ∈ cs, c.dies = false) ∧ ∃ m' l',
    (exec E).alone t cs (m, l) = some (m', l') ∧ l'.pc = .lockRet .enotrecoverable

omit [DecidableEq T] in
/-- One more access before it. -/
theorem FailsAlone.step (c : Choice) (hdies : c.dies = false)
    (hlive : m.dead (E.pid t) = false) (hact : act E t c m l = some (m', l'))
    (h : FailsAlone E t m' l') : FailsAlone E t m l := by
  obtain ⟨cs, hcs, m₂, l₂, halone, hpc⟩ := h
  have hexec : exec E t c m l = some (m', l') := (exec_of_act hdies hlive).trans hact
  refine ⟨c :: cs, ?_, m₂, l₂, ?_, hpc⟩
  · intro d hd
    rcases List.mem_cons.mp hd with rfl | hd
    · exact hdies
    · exact hcs d hd
  · rw [Exec.alone, hexec, Option.bind_some, halone]

/-- The mutex is not recoverable, and its word can be taken. -/
def Open (m : Mem T) : Prop :=
  m.ownerId = NOTRECOVERABLE_ID ∧ (m.lock = 0 ∨ m.dead (m.lock &&& LLL_OWNER_MASK) = true)

omit [DecidableEq T] in
theorem failsAlone_taken (hlive : m.dead (E.pid t) = false)
    (howner : m.ownerId = NOTRECOVERABLE_ID) (d : Bool) (depth : ℕ) :
    FailsAlone E t m ⟨.taken d, depth⟩ := by
  have hact : act E t {} m ⟨.taken d, depth⟩ = some (m, ⟨.lockRet .enotrecoverable, depth⟩) := by
    simp only [act, if_pos howner]
  exact FailsAlone.step {} rfl hlive hact ⟨[], by simp, m, _, rfl, rfl⟩

omit [DecidableEq T] in
/-- An access that takes the word. -/
theorem failsAlone_take (v : BitVec 32) (d : Bool) (depth : ℕ)
    (hlive : m.dead (E.pid t) = false) (howner : m.ownerId = NOTRECOVERABLE_ID)
    (hact : act E t {} m l = some ({ m with lock := v, taker := some t }, ⟨.taken d, depth⟩)) :
    FailsAlone E t m l :=
  FailsAlone.step {} rfl hlive hact
    (failsAlone_taken (m := { m with lock := v, taker := some t }) hlive howner d depth)

omit [DecidableEq T] in
/-- An access that leaves the mutex alone. -/
theorem failsAlone_go {pc pc' : Pc} {depth : ℕ} (c : Choice) (hdies : c.dies = false)
    (hlive : m.dead (E.pid t) = false)
    (hact : act E t c m ⟨pc, depth⟩ = some (m, ⟨pc', depth⟩))
    (h : FailsAlone E t m ⟨pc', depth⟩) : FailsAlone E t m ⟨pc, depth⟩ :=
  FailsAlone.step c hdies hlive hact h

omit [DecidableEq T] in
/-- A thread in the second loop takes the word, free or of a dead process. -/
theorem failsAlone_waitLoad (hlive : m.dead (E.pid t) = false) (hopen : Open m) (k : LockCall)
    (depth : ℕ) : FailsAlone E t m ⟨.waitLoad k, depth⟩ := by
  obtain ⟨howner, hfree⟩ := hopen
  by_cases h0 : m.lock = 0
  · have hcas : FailsAlone E t m ⟨.waitCas k, depth⟩ :=
      failsAlone_take _ false depth hlive howner (by simp only [act, if_pos h0]; rfl)
    exact failsAlone_go {} rfl hlive (by simp only [act, if_pos h0]) hcas
  · have hdead := hfree.resolve_left h0
    have hsteal : FailsAlone E t m ⟨.waitSteal k m.lock, depth⟩ :=
      failsAlone_take _ true depth hlive howner (by simp only [act, if_true]; rfl)
    have hvalid : FailsAlone E t m ⟨.waitValid k m.lock, depth⟩ :=
      failsAlone_go {} rfl hlive (by simp only [act, if_pos hdead]) hsteal
    exact failsAlone_go {} rfl hlive (by simp only [act, if_neg h0]) hvalid

/-- A reading of the clock at the deadline. -/
def LockCall.deadline : LockCall → Timespec
  | .timedlock tsp => tsp
  | .lock | .trylock => default

theorem LockCall.not_expired (k : LockCall) : k.expired k.deadline = false := by
  cases k with
  | lock | trylock => rfl
  | timedlock tsp => simp [LockCall.expired, LockCall.deadline, Hlpt.expired, computeReltime]

omit [DecidableEq T] in
/-- A thread that polls looks at the word again. -/
theorem failsAlone_waitSleep (hlive : m.dead (E.pid t) = false) (hopen : Open m) (k : LockCall)
    (val : BitVec 32) (depth : ℕ) : FailsAlone E t m ⟨.waitSleep k val, depth⟩ := by
  have hload := failsAlone_waitLoad hlive hopen k depth
  by_cases hval : m.lock = val
  · have hasleep : FailsAlone E t m ⟨.asleep k, depth⟩ := failsAlone_go {} rfl hlive rfl hload
    refine failsAlone_go { now := k.deadline } rfl hlive ?_ hasleep
    simp only [act, k.not_expired, if_pos hval, Bool.false_eq_true, if_false]
  · refine failsAlone_go { now := k.deadline } rfl hlive ?_ hload
    simp only [act, k.not_expired, if_neg hval, Bool.false_eq_true, if_false]

omit [DecidableEq T] in
/-- An access that marks the word of a dead process. It stays one. -/
theorem failsAlone_mark (hlive : m.dead (E.pid t) = false) (hopen : Open m) (h0 : m.lock ≠ 0)
    (k : LockCall) (depth : ℕ)
    (hact : act E t {} m l =
      some ({ m with lock := m.lock ||| LLL_WAITERS }, ⟨.waitLoad k, depth⟩)) :
    FailsAlone E t m l := by
  have hmarked : Open { m with lock := m.lock ||| LLL_WAITERS } := by
    refine ⟨hopen.1, .inr ?_⟩
    show m.dead ((m.lock ||| LLL_WAITERS) &&& LLL_OWNER_MASK) = true
    rw [waiters_masked]
    exact hopen.2.resolve_left h0
  exact FailsAlone.step {} rfl hlive hact
    (failsAlone_waitLoad (m := { m with lock := m.lock ||| LLL_WAITERS }) hlive hmarked k depth)

omit [DecidableEq T] in
/-- A thread in the first loop takes the word, or marks it and goes on to the second. -/
theorem failsAlone_spinLoad (hlive : m.dead (E.pid t) = false) (hopen : Open m) (k : LockCall)
    (depth : ℕ) : FailsAlone E t m ⟨.spinLoad k, depth⟩ := by
  by_cases h0 : m.lock = 0
  · have hcas : FailsAlone E t m ⟨.spinCas k, depth⟩ :=
      failsAlone_take _ false depth hlive hopen.1 (by simp only [act, if_pos h0]; rfl)
    exact failsAlone_go {} rfl hlive (by simp only [act, if_pos h0]) hcas
  · have hmark : FailsAlone E t m ⟨.spinMark k m.lock, depth⟩ :=
      failsAlone_mark hlive hopen h0 k depth (by simp only [act, if_true])
    exact failsAlone_go {} rfl hlive (by simp only [act, if_neg h0]) hmark

omit [DecidableEq T] in
/-- Every thread in the loops comes out with `ENOTRECOVERABLE`, when the word can be taken. -/
theorem failsAlone_waiting (hlive : m.dead (E.pid t) = false) (hopen : Open m)
    (hpc : PcOk E t m l) (hwait : Waiting l.pc) : FailsAlone E t m l := by
  rcases l with ⟨pc, depth⟩
  have hload := fun k => failsAlone_waitLoad hlive hopen k depth
  have hsteal : ∀ k val, FailsAlone E t m ⟨.waitSteal k val, depth⟩ := by
    intro k val
    by_cases hval : m.lock = val
    · exact failsAlone_take _ true depth hlive hopen.1 (by simp only [act, if_pos hval]; rfl)
    · exact failsAlone_go {} rfl hlive (by simp only [act, if_neg hval]) (hload k)
  cases pc with
  | spinLoad k => exact failsAlone_spinLoad hlive hopen k depth
  | spinCas k =>
    by_cases h0 : m.lock = 0
    · exact failsAlone_take _ false depth hlive hopen.1 (by simp only [act, if_pos h0]; rfl)
    · exact failsAlone_go {} rfl hlive (by simp only [act, if_neg h0])
        (failsAlone_spinLoad hlive hopen k depth)
  | spinMark k val =>
    by_cases hval : m.lock = val
    · -- The value that the thread loaded is not 0, so the word is of a dead process.
      have h0 : m.lock ≠ 0 := hval ▸ hpc.2
      exact failsAlone_mark hlive hopen h0 k depth (by simp only [act, hval, if_true])
    · exact failsAlone_go {} rfl hlive (by simp only [act, if_neg hval])
        (failsAlone_spinLoad hlive hopen k depth)
  | waitLoad k => exact hload k
  | waitCas k =>
    by_cases h0 : m.lock = 0
    · exact failsAlone_take _ false depth hlive hopen.1 (by simp only [act, if_pos h0]; rfl)
    · exact failsAlone_go {} rfl hlive (by simp only [act, if_neg h0])
        (failsAlone_waitSleep hlive hopen k 0 depth)
  | waitValid k val =>
    by_cases hdead : m.dead (val &&& LLL_OWNER_MASK) = true
    · exact failsAlone_go {} rfl hlive (by simp only [act, if_pos hdead]) (hsteal k val)
    · exact failsAlone_go {} rfl hlive (by simp only [act, if_neg hdead])
        (failsAlone_waitSleep hlive hopen k val depth)
  | waitSteal k val => exact hsteal k val
  | waitSleep k val => exact failsAlone_waitSleep hlive hopen k val depth
  | asleep k => exact failsAlone_go {} rfl hlive rfl (hload k)
  | _ => exact absurd hwait id

omit [DecidableEq T] in
/-- The owner that makes the mutex not recoverable gives the word free. -/
theorem releasing_alone (hlive : m.dead (E.pid t) = false) (hrel : Releasing l.pc) :
    ∃ cs : List Choice, (∀ c ∈ cs, c.dies = false) ∧ ∃ l',
      (exec E).alone t cs (m, l) = some ({ m with lock := 0, taker := none }, l') := by
  have hstep : ∀ l, exec E t {} m l = act E t {} m l := fun l => exec_of_act rfl hlive
  have hplain : ∀ n, ∀ c ∈ List.replicate n ({} : Choice), c.dies = false := by
    intro n c hc
    rw [List.eq_of_mem_replicate hc]
  rcases l with ⟨pc, depth⟩
  have hword : (exec E).alone t (List.replicate 2 {}) (m, ⟨.unWord, depth⟩) =
      some ({ m with lock := 0, taker := none }, ⟨.unRet .ok, depth⟩) := by
    by_cases hw : m.lock &&& LLL_WAITERS ≠ 0
    · simp only [List.replicate, Exec.alone, hstep, act, if_pos hw, Option.bind_some]
    · simp only [List.replicate, Exec.alone, hstep, act, if_neg hw, Option.bind_some, if_true]
  cases pc with
  | unSetWake => exact ⟨List.replicate 1 {}, hplain 1, ⟨.unRet .ok, depth⟩,
      by simp only [List.replicate, Exec.alone, hstep, act, Option.bind_some]⟩
  | unWord => exact ⟨_, hplain 2, _, hword⟩
  | unCas val =>
    by_cases hval : m.lock = val
    · refine ⟨List.replicate 1 {}, hplain 1, ⟨.unRet .ok, depth⟩, ?_⟩
      simp only [List.replicate, Exec.alone, hstep, act, if_pos hval, Option.bind_some]
    · have hagain : (exec E).alone t (List.replicate 1 {}) (m, ⟨.unCas val, depth⟩) =
          some (m, ⟨.unWord, depth⟩) := by
        simp only [List.replicate, Exec.alone, hstep, act, if_neg hval, Option.bind_some]
      exact ⟨_, hplain 3, _, Exec.alone_append hagain hword⟩
  | _ => exact absurd hrel id

/-- A thread in the loops can fail, when its own steps get it there. -/
theorem FailsAlone.canFail {s : Global T (Mem T) Local}
    {s₀ : Global T (Mem T) Local} (h : FailsAlone E t s.mem (s.loc t))
    (hs : ((exec E).machine (· = s₀)).ReachVia (fun _ a => a.2.dies = false) s) :
    CanFail E s₀ t := by
  obtain ⟨cs, hcs, m', l', halone, hpc⟩ := h
  refine ⟨_, Exec.reachVia_alone hs rfl (fun c hc _ => hcs c hc) halone, ?_⟩
  simp only [Function.update_self]
  exact hpc

/-- No lock call keeps the word with `ENOTRECOVERABLE`, and all of them that wait can return
it: for every robust mutex and any threads of any processes, in every state of a run in
which no lock call takes the word of a mutex that is not recoverable, or a mutex for its own
that is not. -/
theorem notrecoverable_released {s : Global T (Mem T) Local}
    (h : (machine E).ReachVia (Careful E) s) : Released E s := by
  obtain ⟨hs, hk⟩ := kept_of_reach h
  refine ⟨hk.failed, ?_⟩
  intro howner t hlive hwait
  have hpc := hs.pc t hlive
  have hopen : Open s.mem → CanFail E s t := fun hopen =>
    (failsAlone_waiting hlive hopen hpc hwait).canFail (.init rfl)
  cases htaker : s.mem.taker with
  | none => exact hopen ⟨howner, .inl (hs.free.mp htaker)⟩
  | some u =>
    cases hu : s.mem.dead (E.pid u) with
    | true =>
      refine hopen ⟨howner, .inr ?_⟩
      rw [hs.word u htaker]
      exact hu
    | false =>
      -- The last owner gives the word free first.
      have hrel := hk.held u hu htaker howner
      have htu : t ≠ u := by
        rintro rfl
        cases hl : (s.loc t).pc <;> simp_all [Waiting, Releasing]
      obtain ⟨cs, hcs, l', halone⟩ := releasing_alone (m := s.mem) hu hrel
      have hstart : ((exec E).machine (· = s)).ReachVia (fun _ a => a.2.dies = false) s :=
        .init rfl
      have hrun := Exec.reachVia_alone hstart rfl (fun c hc _ => hcs c hc) halone
      refine FailsAlone.canFail ?_ hrun
      simp only [Function.update_of_ne htu]
      refine failsAlone_waiting hlive ⟨howner, .inl rfl⟩ ?_ hwait
      refine hpc.frame (fun _ hp => hp) (.inr ⟨?_, (Option.some_ne_none t).symm⟩)
      rw [htaker]
      exact fun he => htu (Option.some.inj he).symm

/-! ### A waiter that keeps the word -/

/-- Three threads in three processes. -/
def Env.procs : Env (Fin 3) where
  kind := .normal
  pid t := if t = 0 then 1 else if t = 1 then 2 else 3
  id t := if t = 0 then 1 else if t = 1 then 2 else 3
  pid_ne := by decide
  pid_masked := by decide
  id_ne := by decide
  id_masked := by decide
  unique := by decide

/-- So many steps of one thread. An idle one calls `pthread_mutex_lock`. -/
def steps (t : Fin 3) (n : ℕ) : List (Fin 3 × Choice) := List.replicate n (t, {})

/-- The thread 0 locks and dies. The thread 1 gets the mutex with `EOWNERDEAD`, the thread 2
waits for it, and the thread 1 unlocks. -/
def ownerGivesUp : List (Fin 3 × Choice) :=
  steps 0 9 ++ [(0, { dies := true })] ++ steps 1 14 ++ steps 2 5 ++
    [(1, { call := .unlock })] ++ steps 1 10

/-- The mutex is not recoverable then, and the thread 2 can learn it. -/
theorem notrecoverable_released_three : ∃ s : Global (Fin 3) (Mem (Fin 3)) Local,
    (machine Env.procs).ReachVia (Careful Env.procs) s ∧
      s.mem.ownerId = NOTRECOVERABLE_ID ∧ Waiting (s.loc 2).pc ∧ Released Env.procs s := by
  obtain ⟨s, hs, howner, hwait⟩ := (machine Env.procs).exists_reachVia (Careful Env.procs)
    (s := ⟨⟨0, 0, 0, fun _ => false, none⟩, fun _ => ⟨.idle, 0⟩⟩) ⟨rfl, fun _ => rfl⟩
    ownerGivesUp
    (fun s => s.mem.ownerId = NOTRECOVERABLE_ID ∧ Waiting (s.loc 2).pc) (by decide +kernel)
  exact ⟨s, hs, howner, hwait, notrecoverable_released hs⟩

/-- The thread 2 takes the word, and returns `ENOTRECOVERABLE` with it. -/
theorem notrecoverable_kept : ∃ s : Global (Fin 3) (Mem (Fin 3)) Local,
    (machine Env.procs).Reach s ∧ ¬ Released Env.procs s := by
  obtain ⟨s, hs, hlive, hpc, htaker⟩ := (machine Env.procs).exists_reach
    (s := ⟨⟨0, 0, 0, fun _ => false, none⟩, fun _ => ⟨.idle, 0⟩⟩) ⟨rfl, fun _ => rfl⟩
    (ownerGivesUp ++ steps 2 3)
    (fun s => s.mem.dead (Env.procs.pid 2) = false ∧
      (s.loc 2).pc = .lockRet .enotrecoverable ∧ s.mem.taker = some 2) (by decide +kernel)
  exact ⟨s, hs, fun h => h.word 2 hlive hpc htaker⟩

end Hlpt.Robust
