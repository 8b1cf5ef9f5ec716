import Hlpt.Robust.NotRecoverable

/-!
# `Hlpt.Robust.Consistent`: `pthread_mutex_consistent`

The threads of `Hlpt.Robust` with one more function: any idle thread may call
`pthread_mutex_consistent`. It takes the mark out of the lock word with one
`atomic_cas_bool`, and then stores the owner and the count again.

It does not test who calls it. A thread that does not own the mutex gets the word that way,
and its owner's count becomes 1 in any case. `Cleared` says what the call should do, next to
the mutex as it was when the `atomic_cas_bool` succeeded.

* `consistent_clears`: in runs where only an owner that holds it once gets past the
  `atomic_cas_bool`, the call does that.
* `consistent_forgets`: an owner that holds the mutex twice, and then once.
-/

set_option autoImplicit false

namespace Hlpt.Robust.Consistent

open Hlpt.Lib

universe u

/-- The control points of the call, each before one access. -/
inductive ConPc where
  /-- `val = mtxp->__lock` and the test of `LLL_DEAD_OWNER` -/
  | load
  /-- `atomic_cas_bool (&mtxp->__lock, val, getpid () | LLL_WAITERS)` -/
  | cas (val : BitVec 32)
  /-- `mtxp->__owner_id = PTHREAD_SELF->id` -/
  | setOwner
  /-- `mtxp->__cnt = 1` -/
  | setCnt
  | ret (r : Code)
  deriving DecidableEq, Repr

/-- A call: its control point, and as a ghost the mutex before its first store. -/
structure Con (T : Type u) where
  pc : ConPc
  before : Option (Mem T)

/-- A thread: where it is in the other functions, and its call of this one. -/
structure Thread (T : Type u) where
  base : Local
  con : Option (Con T)

/-- What the environment chooses: as before, and whether an idle thread calls
`pthread_mutex_consistent`. -/
structure Pick where
  base : Choice := {}
  consistent : Bool := false

variable {T : Type u} [DecidableEq T]

/-- `pthread_mutex_consistent` -/
def act (E : Env T) (t : T) (m : Mem T) (k : Con T) : Mem T × Option (Con T) :=
  match k.pc with
  | .load =>
      (m, some { k with
        pc := if m.lock &&& LLL_DEAD_OWNER ≠ 0 then .cas m.lock else .ret .einval })
  | .cas val =>
      if m.lock = val then
        ({ m with lock := E.pid t ||| LLL_WAITERS, taker := some t }, some ⟨.setOwner, some m⟩)
      else (m, some { k with pc := .ret .einval })
  | .setOwner => ({ m with ownerId := E.id t }, some { k with pc := .setCnt })
  | .setCnt => ({ m with cnt := 1 }, some { k with pc := .ret .ok })
  | .ret _ => (m, none)

/-- The next step of the thread `t`. -/
def exec (E : Env T) : Exec T Pick (Mem T) (Thread T) := fun t c m l =>
  match l.con with
  | none =>
      if c.consistent = true ∧ c.base.dies = false ∧ m.dead (E.pid t) = false ∧
          l.base.pc = .idle then
        some (m, { l with con := some ⟨.load, none⟩ })
      else (Robust.exec E t c.base m l.base).map fun r => (r.1, { l with base := r.2 })
  | some k =>
      if m.dead (E.pid t) then none
      else if c.base.dies then
        some ({ m with dead := Function.update m.dead (E.pid t) true }, l)
      else some ((act E t m k).1, { l with con := (act E t m k).2 })

/-- The threads without the calls of `pthread_mutex_consistent`. -/
def erase (s : Global T (Mem T) (Thread T)) : Global T (Mem T) Local :=
  ⟨s.mem, fun t => (s.loc t).base⟩

/-- A new mutex, and nobody in a call. -/
def IsInit (s : Global T (Mem T) (Thread T)) : Prop :=
  Robust.IsInit (erase s) ∧ ∀ t, (s.loc t).con = none

/-- The threads that share one robust mutex. -/
def machine (E : Env T) : Machine (Global T (Mem T) (Thread T)) (T × Pick) :=
  (exec E).machine IsInit

/-- The thread owns the mutex. -/
def Owner (E : Env T) (t : T) (m : Mem T) : Prop := m.taker = some t ∧ m.ownerId = E.id t

/-- The mutex after the call that found it as `m₀`: only the mark is gone. -/
structure OnlyMark (m₀ m : Mem T) : Prop where
  process : m.lock &&& LLL_OWNER_MASK = m₀.lock &&& LLL_OWNER_MASK
  taker : m.taker = m₀.taker
  owner : m.ownerId = m₀.ownerId
  cnt : m.cnt = m₀.cnt
  mark : m.lock &&& LLL_DEAD_OWNER = 0

/-- What a call has done when it returns. With 0, the caller owned the mutex and it was
marked; the mark is gone, and the caller still has to unlock the mutex as often as it holds
it. With another code, it has stored nothing. -/
structure Cleared (E : Env T) (s : Global T (Mem T) (Thread T)) : Prop where
  ok : ∀ t k, s.mem.dead (E.pid t) = false → (s.loc t).con = some k → k.pc = .ret .ok →
    ∃ m₀, k.before = some m₀ ∧ Owner E t m₀ ∧ m₀.lock &&& LLL_DEAD_OWNER ≠ 0 ∧
      OnlyMark m₀ s.mem ∧ s.mem.cnt.toNat = (s.loc t).base.depth
  fails : ∀ t k r, s.mem.dead (E.pid t) = false → (s.loc t).con = some k → k.pc = .ret r →
    r ≠ .ok → k.before = none

/-- The step does not get past the `atomic_cas_bool` of the call, unless the thread owns the
mutex and holds it once. And no thread takes a mutex for its own that is not. -/
def Fair (E : Env T) (s : Global T (Mem T) (Thread T)) (a : T × Pick) : Prop :=
  a.2.base.dies = false →
    match (s.loc a.1).con with
    | none => Sure E a.1 s.mem (s.loc a.1).base
    | some k =>
        match k.pc with
        | .cas val => s.mem.lock = val → Owner E a.1 s.mem ∧ s.mem.cnt = 1
        | _ => True

instance (E : Env T) (t : T) (m : Mem T) : Decidable (Owner E t m) :=
  inferInstanceAs (Decidable (_ ∧ _))

instance (E : Env T) (s : Global T (Mem T) (Thread T)) (a : T × Pick) :
    Decidable (Fair E s a) := by
  unfold Fair
  refine @instDecidableForall _ _ inferInstance ?_
  split
  · infer_instance
  · split <;> infer_instance

/-! ### The invariant -/

/-- The call is past its `atomic_cas_bool`. -/
def After (E : Env T) (t : T) (m : Mem T) (k : Con T) (depth : ℕ) : Prop :=
  depth = 1 ∧ m.cnt = 1 ∧ ∃ m₀, k.before = some m₀ ∧ Owner E t m₀ ∧
    m₀.lock &&& LLL_DEAD_OWNER ≠ 0 ∧ OnlyMark m₀ m

/-- What the control point of a call says. -/
def ConOk (E : Env T) (t : T) (m : Mem T) (l : Thread T) : Prop :=
  ∀ k, l.con = some k → l.base.pc = .idle ∧
    match k.pc with
    | .load => k.before = none
    | .cas val => k.before = none ∧ val &&& LLL_DEAD_OWNER ≠ 0
    | .setOwner | .setCnt => After E t m k l.base.depth
    | .ret r => if r = .ok then After E t m k l.base.depth else k.before = none

/-- The invariant of the other functions, and the one of the calls. -/
structure ConInv (E : Env T) (s : Global T (Mem T) (Thread T)) : Prop where
  base : Inv E (erase s)
  con : ∀ t, s.mem.dead (E.pid t) = false → ConOk E t s.mem (s.loc t)

variable {E : Env T} {t : T} {c : Pick} {m m' : Mem T} {l l' : Thread T}

/-! ### One step -/

omit [DecidableEq T] in
/-- A step is one of the other functions or a death, the start of a call, or a step of it. -/
theorem exec_cases (h : exec E t c m l = some (m', l')) :
    (∃ b, Robust.exec E t c.base m l.base = some (m', b) ∧ l' = { l with base := b } ∧
      (c.base.dies = true ∨ l.con = none)) ∨
    (l.con = none ∧ l.base.pc = .idle ∧ m' = m ∧ l' = { l with con := some ⟨.load, none⟩ }) ∨
    ∃ k, l.con = some k ∧ m.dead (E.pid t) = false ∧ c.base.dies = false ∧
      m' = (act E t m k).1 ∧ l' = { l with con := (act E t m k).2 } := by
  unfold exec at h
  cases hcon : l.con with
  | none =>
    simp only [hcon] at h
    split at h
    · next hstart =>
      cases h
      exact .inr (.inl ⟨rfl, hstart.2.2.2, rfl, rfl⟩)
    · obtain ⟨r, hr, heq⟩ := Option.map_eq_some_iff.mp h
      cases heq
      exact .inl ⟨r.2, hr, by rw [← hcon], .inr rfl⟩
  | some k =>
    simp only [hcon] at h
    split at h
    · cases h
    · next hlive =>
      rw [Bool.not_eq_true] at hlive
      split at h
      · next hdies =>
        cases h
        exact .inl ⟨l.base, by simp [Robust.exec, hlive, hdies], by rw [← hcon], .inl hdies⟩
      · next hdies =>
        cases h
        exact .inr (.inr ⟨k, rfl, hlive, by simpa using hdies, rfl, rfl⟩)

/-- The threads without the calls, after a step. -/
theorem erase_update (s : Global T (Mem T) (Thread T)) (t : T) (m : Mem T) (l : Thread T) :
    erase ⟨m, Function.update s.loc t l⟩ = ⟨m, Function.update (erase s).loc t l.base⟩ := by
  unfold erase
  congr 1
  funext u
  by_cases hut : u = t
  · subst hut
    simp
  · simp [Function.update_of_ne hut]

omit [DecidableEq T] in
/-- The mark of the waiters leaves the other one alone. -/
theorem OnlyMark.waiters {m₀ : Mem T} (h : OnlyMark m₀ m) (ht : m'.taker = m.taker)
    (ho : m'.ownerId = m.ownerId) (hc : m'.cnt = m.cnt)
    (hl : m'.lock = m.lock ∨ m'.lock = m.lock ||| LLL_WAITERS) : OnlyMark m₀ m' := by
  have hbits : m'.lock &&& LLL_OWNER_MASK = m.lock &&& LLL_OWNER_MASK ∧
      m'.lock &&& LLL_DEAD_OWNER = m.lock &&& LLL_DEAD_OWNER := by
    rcases hl with hl | hl
    · rw [hl]
      exact ⟨rfl, rfl⟩
    · rw [hl]
      exact ⟨waiters_masked _, or_and_of_disjoint (by decide)⟩
  exact ⟨hbits.1.trans h.process, ht.trans h.taker, ho.trans h.owner, hc.trans h.cnt,
    hbits.2.trans h.mark⟩

omit [DecidableEq T] in
/-- A call keeps what its control point says, when the fields stay but for the mark of the
waiters. -/
theorem ConOk.frame (h : ConOk E t m l)
    (hfields : ∀ k depth, After E t m k depth → After E t m' k depth) : ConOk E t m' l := by
  intro k hk
  obtain ⟨hidle, hpc⟩ := h k hk
  refine ⟨hidle, ?_⟩
  cases hp : k.pc with
  | load | cas val => simpa only [hp] using hpc
  | setOwner | setCnt =>
    simp only [hp] at hpc ⊢
    exact hfields k _ hpc
  | ret r =>
    simp only [hp] at hpc ⊢
    split
    · next hr =>
      rw [if_pos hr] at hpc
      exact hfields k _ hpc
    · next hr =>
      rw [if_neg hr] at hpc
      exact hpc

omit [DecidableEq T] in
/-- What a live thread in its call knows of the mutex stays, when others move. -/
theorem After.frame {k : Con T} {depth : ℕ} {u : T} (h : After E u m k depth) (hut : u ≠ t)
    (hlive : m.dead (E.pid u) = false) (hfree : m.taker = none ↔ m.lock = 0)
    (hword : ∀ u, m.taker = some u → m.lock &&& LLL_OWNER_MASK = E.pid u)
    (htake : TakeStep E t m m') : After E u m' k depth := by
  obtain ⟨hdepth, hcnt, m₀, hbefore, howner, hmark, honly⟩ := h
  have htaker : m.taker = some u := honly.taker.trans howner.1
  have hne : m.taker ≠ some t := by
    rw [htaker]
    exact fun he => hut (Option.some.inj he)
  cases htake with
  | keep ht ho hc hl =>
    refine ⟨hdepth, hc.trans hcnt, m₀, hbefore, howner, hmark, honly.waiters ht ho hc ?_⟩
    rcases hl with hl | ⟨-, hl⟩
    · exact .inl hl
    · exact .inr hl
  | take hm ht ho hl =>
    -- The word of a live owner is neither free nor of a dead process.
    rcases hm with h0 | ⟨-, hdead⟩
    · rw [hfree.mpr h0] at htaker
      cases htaker
    · rw [hword u htaker, hlive] at hdead
      cases hdead
  | own hm ht ho hl => exact absurd hm hne
  | release hm ht hl ho => exact absurd hm hne

omit [DecidableEq T] in
/-- The last two stores of the call store what is there. -/
theorem After.restores {k : Con T} {depth : ℕ} (h : After E t m k depth) :
    { m with ownerId := E.id t } = m ∧ { m with cnt := 1 } = m := by
  obtain ⟨-, hcnt, m₀, -, howner, -, honly⟩ := h
  constructor
  · rw [← honly.owner.trans howner.2]
  · rw [← hcnt]

/-- A step of the other functions, or a death. -/
theorem ConInv.base_step {s : Global T (Mem T) (Thread T)} (hs : ConInv E s)
    (hfair : Fair E s (t, c)) {b : Local}
    (h : Robust.exec E t c.base s.mem (s.loc t).base = some (m, b))
    (hidle : c.base.dies = true ∨ (s.loc t).con = none) :
    ConInv E ⟨m, Function.update s.loc t { s.loc t with base := b }⟩ := by
  have hsure : c.base.dies = false → Sure E t s.mem (s.loc t).base := by
    intro hdies
    have hcon := hidle.resolve_left (by simp [hdies])
    simpa [hcon] using hfair hdies
  refine ⟨?_, fun u hu => ?_⟩
  · rw [erase_update]
    exact hs.base.step (fun _ hdies => hsure hdies) h
  · unfold Robust.exec at h
    split at h
    · cases h
    next hlive =>
    rw [Bool.not_eq_true] at hlive
    split at h
    · -- The process dies, and only the fields of the mutex matter.
      cases h
      have hu' : s.mem.dead (E.pid u) = false := by
        by_contra hn
        have hp : E.pid u ≠ E.pid t := fun hp => hn (hp ▸ hlive)
        simp only [Function.update_of_ne hp] at hu
        exact hn hu
      simp only [Function.update_eq_self]
      apply (hs.con u hu').frame
      intro k depth hafter
      obtain ⟨hdepth, hcnt, m₀, hbefore, howner, hmark, honly⟩ := hafter
      exact ⟨hdepth, hcnt, m₀, hbefore, howner, hmark, honly.waiters rfl rfl rfl (.inl rfl)⟩
    · next hdies =>
      obtain ⟨htake, hdead⟩ := act_take h (hs.base.pc t hlive)
      simp only [hdead] at hu
      by_cases hut : u = t
      · subst hut
        simp only [Function.update_self]
        intro k hk
        rw [hidle.resolve_left hdies] at hk
        cases hk
      · simp only [Function.update_of_ne hut]
        exact (hs.con u hu).frame fun k depth hafter =>
          hafter.frame hut hu hs.base.free hs.base.word htake

/-- The other functions do not see a step of the call that stores nothing. -/
theorem ConInv.con_same {s : Global T (Mem T) (Thread T)} (hs : ConInv E s)
    {x : Option (Con T)} (hok : ConOk E t s.mem { s.loc t with con := x }) :
    ConInv E ⟨s.mem, Function.update s.loc t { s.loc t with con := x }⟩ := by
  refine ⟨?_, fun u hu => ?_⟩
  · rw [erase_update]
    show Inv E ⟨s.mem, Function.update (erase s).loc t ((erase s).loc t)⟩
    rw [Function.update_eq_self]
    exact hs.base
  · by_cases hut : u = t
    · subst hut
      simp only [Function.update_self]
      exact hok
    · simp only [Function.update_of_ne hut]
      exact hs.con u hu

/-- The `atomic_cas_bool` of an owner that holds the mutex once. -/
theorem ConInv.con_cas {s : Global T (Mem T) (Thread T)} (hs : ConInv E s)
    (hlive : s.mem.dead (E.pid t) = false) (hidle : (s.loc t).base.pc = .idle)
    (hmark : s.mem.lock &&& LLL_DEAD_OWNER ≠ 0) (howner : Owner E t s.mem)
    (hcnt : s.mem.cnt = 1) :
    ConInv E ⟨{ s.mem with lock := E.pid t ||| LLL_WAITERS, taker := some t },
      Function.update s.loc t { s.loc t with con := some ⟨.setOwner, some s.mem⟩ }⟩ := by
  obtain ⟨htaker, hid⟩ := howner
  have hword : (E.pid t ||| LLL_WAITERS) &&& LLL_OWNER_MASK = E.pid t := by
    rw [waiters_masked, E.pid_masked]
  have hframe : ∀ u, s.mem.dead (E.pid u) = false → ∀ l, PcOk E u s.mem l →
      PcOk E u { s.mem with lock := E.pid t ||| LLL_WAITERS, taker := some t } l :=
    fun u _ l hpc => hpc.frame (fun _ hp => hp) (.inl ⟨htaker.symm, rfl, rfl⟩)
  refine ⟨?_, fun u hu => ?_⟩
  · rw [erase_update]
    show Inv E ⟨_, Function.update (erase s).loc t ((erase s).loc t)⟩
    rw [Function.update_eq_self]
    refine ⟨?_, fun u hu => ?_, fun u hu ho => ?_, fun u hu => hframe u hu _ (hs.base.pc u hu)⟩
    · exact iff_of_false (Option.some_ne_none t) (waiters_ne_zero _)
    · rw [← Option.some.inj hu]
      exact hword
    · rw [← htaker]
      exact hs.base.owner u hu ho
  · by_cases hut : u = t
    · subst hut
      simp only [Function.update_self]
      -- The count is the number of holds.
      have hrest : Rest E u s.mem (s.loc u).base.depth := by
        have hpc := hs.base.pc u hlive
        simp only [erase, PcOk, hidle] at hpc
        exact hpc
      have hdepth : (s.loc u).base.depth = 1 := by
        have hpos : 0 < (s.loc u).base.depth := by
          apply Nat.pos_of_ne_zero
          intro h0
          exact E.id_ne_notrecoverable u (hid.symm.trans (hrest.2 h0 htaker))
        rw [← (hrest.1 hpos).2.2, hcnt]
        rfl
      intro k hk
      cases hk
      refine ⟨hidle, hdepth, hcnt, s.mem, rfl, ⟨htaker, hid⟩, hmark, ?_⟩
      refine ⟨hword.trans (hs.base.word u htaker).symm, htaker.symm, rfl, rfl, ?_⟩
      show (E.pid u ||| LLL_WAITERS) &&& LLL_DEAD_OWNER = 0
      rw [or_and_of_disjoint (by decide)]
      exact (E.pid_flags u).2
    · simp only [Function.update_of_ne hut]
      apply (hs.con u hu).frame
      intro k depth hafter
      obtain ⟨-, -, m₀, -, ho, -, honly⟩ := hafter
      -- There is one owner.
      have hu' : s.mem.taker = some u := honly.taker.trans ho.1
      exact absurd (Option.some.inj (hu'.symm.trans htaker)) hut

/-- A step of the call. -/
theorem ConInv.con_step {s : Global T (Mem T) (Thread T)} (hs : ConInv E s)
    (hfair : Fair E s (t, c)) {k : Con T} (hk : (s.loc t).con = some k)
    (hlive : s.mem.dead (E.pid t) = false) (hdies : c.base.dies = false) :
    ConInv E ⟨(act E t s.mem k).1,
      Function.update s.loc t { s.loc t with con := (act E t s.mem k).2 }⟩ := by
  obtain ⟨hidle, hpc⟩ := hs.con t hlive k hk
  have hfair' := hfair hdies
  simp only [hk] at hfair'
  unfold act
  cases hp : k.pc with
  | load =>
    simp only [hp] at hpc
    apply hs.con_same
    intro k' hk'
    cases hk'
    refine ⟨hidle, ?_⟩
    by_cases hmark : s.mem.lock &&& LLL_DEAD_OWNER ≠ 0
    · simp only [if_pos hmark]
      exact ⟨hpc, hmark⟩
    · simp only [if_neg hmark]
      exact hpc
  | cas val =>
    simp only [hp] at hpc hfair'
    by_cases hval : s.mem.lock = val
    · simp only [if_pos hval]
      obtain ⟨howner, hcnt⟩ := hfair' hval
      exact hs.con_cas hlive hidle (hval ▸ hpc.2) howner hcnt
    · simp only [if_neg hval]
      apply hs.con_same
      intro k' hk'
      cases hk'
      exact ⟨hidle, hpc.1⟩
  | setOwner =>
    simp only [hp] at hpc
    simp only [hpc.restores.1]
    apply hs.con_same
    intro k' hk'
    cases hk'
    exact ⟨hidle, hpc⟩
  | setCnt =>
    simp only [hp] at hpc
    simp only [hpc.restores.2]
    apply hs.con_same
    intro k' hk'
    cases hk'
    exact ⟨hidle, hpc⟩
  | ret r =>
    exact hs.con_same fun k' hk' => nomatch hk'

/-- The invariant holds in every reached state. -/
theorem conInv_of_reach {s : Global T (Mem T) (Thread T)}
    (h : (machine E).ReachVia (Fair E) s) : ConInv E s := by
  refine Exec.invariant (P := ConInv E) (fun s hs => ?_) (fun s t c m p hs hfair he => ?_) h
  · refine ⟨inv_of_init hs.1, ?_⟩
    intro t _ k hk
    rw [hs.2 t] at hk
    cases hk
  · rcases exec_cases he with
      ⟨b, hb, rfl, hor⟩ | ⟨-, hidle, rfl, rfl⟩ | ⟨k, hk, hlive, hdies, rfl, rfl⟩
    · exact hs.base_step hfair hb hor
    · apply hs.con_same
      intro k hk
      cases hk
      exact ⟨hidle, rfl⟩
    · exact hs.con_step hfair hk hlive hdies

/-- `pthread_mutex_consistent` only clears the mark: for every robust mutex, any threads of
any processes and every interleaving with their other calls, in every state of a run in
which only an owner that holds the mutex once gets past the `atomic_cas_bool` of the call,
and no thread takes a mutex for its own that is not. -/
theorem consistent_clears {s : Global T (Mem T) (Thread T)}
    (h : (machine E).ReachVia (Fair E) s) : Cleared E s := by
  have hs := conInv_of_reach h
  constructor
  · intro t k hlive hk hp
    obtain ⟨-, hpc⟩ := hs.con t hlive k hk
    simp only [hp, if_true] at hpc
    obtain ⟨hdepth, hcnt, m₀, hbefore, howner, hmark, honly⟩ := hpc
    refine ⟨m₀, hbefore, howner, hmark, honly, ?_⟩
    rw [hcnt, hdepth]
    rfl
  · intro t k r hlive hk hp hr
    obtain ⟨-, hpc⟩ := hs.con t hlive k hk
    simp only [hp, if_neg hr] at hpc
    exact hpc

/-! ### An owner that holds the mutex twice -/

/-- The three threads of three processes, with a recursive mutex. -/
def Env.recursive : Env (Fin 3) := { Env.procs with kind := .recursive }

/-- So many steps of one thread. An idle one calls `pthread_mutex_lock`. -/
def steps (t : Fin 3) (n : ℕ) : List (Fin 3 × Pick) := List.replicate n (t, {})

/-- The thread 0 locks and dies, and the thread 1 gets the mutex with `EOWNERDEAD`. -/
def ownerDies : List (Fin 3 × Pick) :=
  steps 0 9 ++ [(0, { base := { dies := true } })] ++ steps 1 14

/-- A whole call of `pthread_mutex_consistent` by the thread 1. -/
def clears : List (Fin 3 × Pick) := [(1, { consistent := true })] ++ steps 1 4

/-- With one hold the call clears the mark and nothing else. -/
theorem consistent_clears_once : ∃ s : Global (Fin 3) (Mem (Fin 3)) (Thread (Fin 3)),
    (machine Env.recursive).ReachVia (Fair Env.recursive) s ∧
      (s.loc 1).con.map Con.pc = some (.ret .ok) ∧ Cleared Env.recursive s := by
  obtain ⟨s, hs, hret⟩ := (machine Env.recursive).exists_reachVia (Fair Env.recursive)
    (s := ⟨⟨0, 0, 0, fun _ => false, none⟩, fun _ => ⟨⟨.idle, 0⟩, none⟩⟩)
    ⟨⟨rfl, fun _ => rfl⟩, fun _ => rfl⟩ (ownerDies ++ clears)
    (fun s => (s.loc 1).con.map Con.pc = some (.ret .ok)) (by decide +kernel)
  exact ⟨s, hs, hret, consistent_clears hs⟩

/-- After one more lock the thread 1 holds the mutex twice. The call makes that one hold. -/
theorem consistent_forgets : ∃ s : Global (Fin 3) (Mem (Fin 3)) (Thread (Fin 3)),
    (machine Env.recursive).Reach s ∧ ¬ Cleared Env.recursive s := by
  obtain ⟨s, hs, hlive, hret, hcnt, hdepth⟩ := (machine Env.recursive).exists_reach
    (s := ⟨⟨0, 0, 0, fun _ => false, none⟩, fun _ => ⟨⟨.idle, 0⟩, none⟩⟩)
    ⟨⟨rfl, fun _ => rfl⟩, fun _ => rfl⟩ (ownerDies ++ steps 1 8 ++ clears)
    (fun s => s.mem.dead (Env.recursive.pid 1) = false ∧
      (s.loc 1).con.map Con.pc = some (.ret .ok) ∧ s.mem.cnt.toNat = 1 ∧
      (s.loc 1).base.depth = 2) (by decide +kernel)
  refine ⟨s, hs, ?_⟩
  intro h
  obtain ⟨k, hk, hp⟩ := Option.map_eq_some_iff.mp hret
  obtain ⟨m₀, -, -, -, -, hholds⟩ := h.ok 1 k hlive hk hp
  rw [hcnt, hdepth] at hholds
  cases hholds

end Hlpt.Robust.Consistent
