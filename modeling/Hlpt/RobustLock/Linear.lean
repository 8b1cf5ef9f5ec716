import Hlpt.Lib.Hindsight
import Hlpt.RobustLock.Takeover

/-!
# `Hlpt.RobustLock.Linear`: the robust lock is an atomic lock whose owners may die

The death of a process is an event beside those of the callers: for each thread there is an
agent that may kill its process (`killed`). A call that takes the word takes effect at its
compare-and-swap. A call that fails takes effect earlier, at an access that found the word
held. What it does afterwards, up to a swap for a process that died, decides that it fails,
and by then the word may be free.

* `robust_lock_linearizable`: every history of `lll_robust_lock`,
  `__lll_robust_abstimed_lock`, `lll_robust_trylock` and `lll_robust_unlock`, and of the
  deaths of their processes, is a history of `robustLock`.
-/

set_option autoImplicit false

namespace Hlpt.RobustLock

open Hlpt.Lib

universe u

/-! ### The atomic lock -/

/-- A call of a thread, or the death of its process. -/
inductive Act where
  | call (o : Call)
  | die
  deriving DecidableEq, Repr

/-- The thread that took the lock last, and the processes that died. -/
structure Owned (T : Type u) where
  owner : Option T
  dead : BitVec 32 → Bool

variable {T : Type u}

/-- A thread of a process that lives owns the lock. -/
def Owned.Live (E : Env T) (a : Owned T) : Prop :=
  ∃ u, a.owner = some u ∧ a.dead (E.pid u) = false

variable [DecidableEq T]

/-- The atomic lock. A lock whose owner died is taken over with `EOWNERDEAD`. `EBUSY` tells
that it had an owner, and `ETIMEDOUT` that it had one that lived. -/
def robustLock (E : Env T) (dead : BitVec 32 → Bool) : Object (T ⊕ T) (Owned T) Act Code where
  init a := a = ⟨none, dead⟩
  apply t o r a :=
    match t, o, r, a.owner with
    | .inl t, .call .lllRobustLock, .ok, none
    | .inl t, .call (.lllRobustAbstimedLock _), .ok, none
    | .inl t, .call .lllRobustTrylock, .ok, none => some { a with owner := some t }
    | .inl t, .call .lllRobustLock, .eownerdead, some u
    | .inl t, .call (.lllRobustAbstimedLock _), .eownerdead, some u
    | .inl t, .call .lllRobustTrylock, .eownerdead, some u =>
        if a.dead (E.pid u) then some { a with owner := some t } else none
    | .inl _, .call .lllRobustTrylock, .ebusy, some _ => some a
    | .inl _, .call (.lllRobustAbstimedLock _), .etimedout, some u =>
        if a.dead (E.pid u) then none else some a
    | .inl t, .call .lllRobustUnlock, .ok, some u =>
        if u = t then some { a with owner := none } else none
    | .inr t, .die, .ok, _ =>
        if a.dead (E.pid t) then none
        else some { a with dead := Function.update a.dead (E.pid t) true }
    | _, _, _, _ => none

/-! ### The deaths as events -/

/-- A thread, or the agent that kills its process. -/
inductive Agent where
  | thread (l : Local)
  | killer (killed : Bool)
  deriving DecidableEq, Repr

/-- The threads, which only move, and the agents, which let their processes die. -/
def killed (E : Env T) : Exec (T ⊕ T) (Choice T) (Mem T) Agent := fun t c m l =>
  match t, l with
  | .inl t, .thread l =>
      (exec E t { c with dies := false } m l).map fun r => (r.1, .thread r.2)
  | .inr t, .killer false =>
      (exec E t { c with dies := true } m ⟨.idle, false⟩).map fun r => (r.1, .killer true)
  | .inr _, .killer true => some (m, .killer false)
  | _, _ => none

/-- The word is free, and no thread is in a call. The processes `dead` died before. -/
def IsStart (dead : BitVec 32 → Bool) (s : Global (T ⊕ T) (Mem T) Agent) : Prop :=
  s.mem = ⟨0, ∅, dead, none, []⟩ ∧ (∀ t, s.loc (.inl t) = .thread ⟨.idle, false⟩) ∧
    ∀ t, s.loc (.inr t) = .killer false

/-- The lock call with the deadline. -/
def lockCall : Deadline → Call
  | none => .lllRobustLock
  | some tsp => .lllRobustAbstimedLock tsp

/-- How far a thread is with its call. -/
def phase : Pc → Phase Act Code
  | .idle => .idle
  | .spinLoad d | .spinCas d | .spinMark d _ | .waitLoad d | .waitCas d | .waitValid d _
  | .waitSteal d _ | .waitSleep d _ | .asleep d => .called (.call (lockCall d))
  | .waitClock tsp _ => .called (.call (.lllRobustAbstimedLock tsp))
  | .tryLoad | .tryCas | .tryValid _ | .trySteal _ => .called (.call .lllRobustTrylock)
  | .unLoad | .unSetWake | .unCas _ => .called (.call .lllRobustUnlock)
  | .ret r => .done r

/-- How far an agent is. -/
def Agent.phase : Agent → Phase Act Code
  | .thread l => RobustLock.phase l.pc
  | .killer killed => if killed then .done .ok else .idle

/-- The event of a step. -/
def label (c : Choice T) : Agent → Option (Event Act Code)
  | .thread ⟨.idle, _⟩ => some (.inv (.call c.call))
  | .thread ⟨.ret r, _⟩ => some (.res r)
  | .thread _ => none
  | .killer killed => some (if killed then .res .ok else .inv .die)

/-! ### The results that are decided late -/

/-- What a call returns when it fails. -/
def failure : Call → Option Code
  | .lllRobustTrylock => some .ebusy
  | .lllRobustAbstimedLock _ => some .etimedout
  | _ => none

/-- The call of the thread has met an owner of the word, and for a timed call one that
lived. -/
def Met (m : Mem T) : Pc → Prop
  | .waitCas _ => m.word ≠ 0
  | .waitValid _ val => m.dead (owner val) = false
  | .waitClock .. | .waitSleep .. | .asleep _ | .tryValid _ | .trySteal _ => True
  | _ => False

/-- The thread may fail with `r`. -/
def May (s : Global (T ⊕ T) (Mem T) Agent) (t : T ⊕ T) (o : Act) (r : Code) : Prop :=
  ∃ u l c, t = .inl u ∧ s.loc t = .thread l ∧ o = .call c ∧ failure c = some r ∧
    phase l.pc = .called o ∧ Met s.mem l.pc

/-! ### The threads -/

/-- The local state of a thread. -/
def Agent.local : Agent → Local
  | .thread l => l
  | .killer _ => ⟨.idle, false⟩

/-- The threads without the agents. -/
def threads (s : Global (T ⊕ T) (Mem T) Agent) : Global T (Mem T) Local :=
  ⟨s.mem, fun t => (s.loc (.inl t)).local⟩

/-- A thread is a thread, and an agent is an agent. -/
def Sided : T ⊕ T → Agent → Prop
  | .inl _, .thread _ | .inr _, .killer _ => True
  | _, _ => False

/-- What is known of every state: the invariant of the threads, and who is who. -/
structure Known (E : Env T) (s : Global (T ⊕ T) (Mem T) Agent) : Prop where
  inv : Inv E (threads s)
  sided : ∀ t, Sided t (s.loc t)

variable {E : Env T} {dead : BitVec 32 → Bool} {s : Global (T ⊕ T) (Mem T) Agent} {t u : T}
  {c : Choice T} {m m' : Mem T} {l l' : Local} {a : Owned T}

/-- A thread moved. -/
theorem threads_update_inl (x : Mem T) :
    threads ⟨x, Function.update s.loc (.inl t) (.thread l)⟩ =
      ⟨x, Function.update (threads s).loc t l⟩ := by
  refine congrArg (Global.mk x) (funext fun u => ?_)
  show (Function.update s.loc (.inl t) (.thread l) (.inl u)).local = _
  by_cases hu : u = t
  · subst hu
    rw [Function.update_self, Function.update_self]
    rfl
  · rw [Function.update_of_ne hu, Function.update_of_ne (Sum.inl_injective.ne hu)]
    rfl

/-- An agent moved. -/
theorem threads_update_inr (x : Mem T) (p : Agent) :
    threads ⟨x, Function.update s.loc (.inr t) p⟩ = ⟨x, (threads s).loc⟩ := by
  refine congrArg (Global.mk x) (funext fun u => ?_)
  show (Function.update s.loc (.inr t) p (.inl u)).local = _
  rw [Function.update_of_ne Sum.inl_ne_inr]
  rfl

omit [DecidableEq T] in
theorem Sided.exists_thread {p : Agent} (h : Sided (.inl t) p) : ∃ l, p = .thread l := by
  cases p with
  | thread l => exact ⟨l, rfl⟩
  | killer b => exact h.elim

omit [DecidableEq T] in
theorem Sided.exists_killer {p : Agent} (h : Sided (.inr t) p) : ∃ b, p = .killer b := by
  cases p with
  | thread l => exact h.elim
  | killer b => exact ⟨b, rfl⟩

/-- A step of a thread. -/
theorem exec_of_thread {p : Agent} (h : killed E (.inl t) c m (.thread l) = some (m', p)) :
    ∃ l', p = .thread l' ∧ exec E t { c with dies := false } m l = some (m', l') := by
  obtain ⟨⟨m₁, l₁⟩, he, heq⟩ := Option.map_eq_some_iff.mp h
  cases heq
  exact ⟨l₁, rfl, he⟩

/-- A step of an agent: the death of its process, or the end of its call. -/
theorem exec_of_killer {b : Bool} {p : Agent}
    (h : killed E (.inr t) c m (.killer b) = some (m', p)) :
    (b = false ∧ p = .killer true ∧ Alive E m t ∧ m' = m.die E t) ∨
      (b = true ∧ p = .killer false ∧ m' = m) := by
  cases b with
  | true =>
      cases h
      exact .inr ⟨rfl, rfl, rfl⟩
  | false =>
      obtain ⟨⟨m₁, l₁⟩, he, heq⟩ := Option.map_eq_some_iff.mp h
      cases heq
      obtain ⟨hlive, ⟨-, rfl, -⟩ | ⟨hdies, -⟩⟩ := step_of_exec he
      · exact .inl ⟨rfl, rfl, hlive, rfl⟩
      · cases hdies

/-- The death of a process keeps the invariant of the threads. -/
theorem Known.die (hs : Known E s) (hlive : Alive E s.mem t) :
    Inv E ⟨s.mem.die E t, (threads s).loc⟩ := by
  have hexec : exec E t { dies := true } (threads s).mem ((threads s).loc t) =
      some (s.mem.die E t, (threads s).loc t) := by
    unfold exec
    rw [if_neg (by rw [show (threads s).mem = s.mem from rfl, hlive]; exact Bool.false_ne_true)]
    rfl
  have hinv := hs.inv.step hexec
  rwa [Function.update_eq_self] at hinv

theorem known_of_reach (h : ((killed E).machine (IsStart dead)).Reach s) : Known E s := by
  refine Exec.invariant (P := Known E) (fun s hs => ?_) (fun s t c m p hs _ he => ?_) h
  · obtain ⟨hmem, hthread, hkiller⟩ := hs
    refine ⟨inv_init ⟨⟨dead, hmem⟩, fun t => ?_⟩, fun t => ?_⟩
    · show (s.loc (.inl t)).local = _
      rw [hthread t]
      rfl
    · cases t with
      | inl t =>
          rw [hthread t]
          trivial
      | inr t =>
          rw [hkiller t]
          trivial
  · cases t with
    | inl t =>
        obtain ⟨l, hl⟩ := (hs.sided (.inl t)).exists_thread
        rw [hl] at he
        obtain ⟨l', rfl, hexec⟩ := exec_of_thread he
        refine ⟨?_, (forall_loc_iff (P := Sided)).mpr ⟨trivial, fun u _ => hs.sided u⟩⟩
        rw [threads_update_inl]
        refine hs.inv.step (c := { c with dies := false }) ?_
        show exec E t _ s.mem (s.loc (.inl t)).local = _
        rw [hl]
        exact hexec
    | inr t =>
        obtain ⟨b, hb⟩ := (hs.sided (.inr t)).exists_killer
        rw [hb] at he
        rcases exec_of_killer he with ⟨-, rfl, hlive, rfl⟩ | ⟨-, rfl, rfl⟩
        · refine ⟨?_, (forall_loc_iff (P := Sided)).mpr ⟨trivial, fun u _ => hs.sided u⟩⟩
          rw [threads_update_inr]
          exact hs.die hlive
        · refine ⟨?_, (forall_loc_iff (P := Sided)).mpr ⟨trivial, fun u _ => hs.sided u⟩⟩
          rw [threads_update_inr]
          exact hs.inv

/-! ### The accesses, as moves of the atomic lock -/

/-- A thread that takes a free word, whatever its call. -/
theorem apply_take {o : Call} (ho : o ≠ .lllRobustUnlock) (hfree : a.owner = none) :
    (robustLock E dead).apply (.inl t) (.call o) .ok a = some { a with owner := some t } := by
  rcases a with ⟨owner, gone⟩
  cases hfree
  cases o with
  | lllRobustUnlock => exact absurd rfl ho
  | _ => rfl

/-- A thread that takes the word of a dead process over. -/
theorem apply_takeOver {o : Call} (ho : o ≠ .lllRobustUnlock) (howner : a.owner = some u)
    (hdead : a.dead (E.pid u) = true) :
    (robustLock E dead).apply (.inl t) (.call o) .eownerdead a =
      some { a with owner := some t } := by
  rcases a with ⟨owner, gone⟩
  cases howner
  cases o with
  | lllRobustUnlock => exact absurd rfl ho
  | _ => exact if_pos hdead

/-- A call fails at an instant at which a thread of a live process owns the lock. -/
theorem apply_failure {o : Call} {r : Code} (hr : failure o = some r) (ha : a.Live E) :
    (robustLock E dead).apply (.inl t) (.call o) r a = some a := by
  obtain ⟨u, howner, hlive⟩ := ha
  rcases a with ⟨owner, gone⟩
  cases howner
  have hnot : ¬ gone (E.pid u) = true := by
    rw [show gone (E.pid u) = false from hlive]
    exact Bool.false_ne_true
  cases o <;> cases hr
  · exact if_neg hnot
  · rfl

/-- A try fails at an instant at which the lock has an owner. -/
theorem apply_ebusy (ha : a.owner ≠ none) :
    (robustLock E dead).apply (.inl t) (.call .lllRobustTrylock) .ebusy a = some a := by
  rcases a with ⟨owner, gone⟩
  cases owner with
  | none => exact absurd rfl ha
  | some u => rfl

/-- The atomic lock that the memory shows. -/
def shown (m : Mem T) : Owned T := ⟨m.holder, m.dead⟩

/-- What an access is to the atomic lock: a move of it, or the end of a call that fails
because of what it has met. -/
def Moved (E : Env T) (dead : BitVec 32 → Bool) (t : T) (c : Choice T) (m : Mem T) (l : Local)
    (m' : Mem T) (l' : Local) : Prop :=
  (robustLock E dead).Moves (.inl t) (label c (.thread l)) (phase l.pc) (shown m) (phase l'.pc)
    (shown m') ∨
  label c (.thread l) = none ∧ shown m' = shown m ∧ ∃ o r, phase l.pc = .called (.call o) ∧
    failure o = some r ∧ Met m l.pc ∧ phase l'.pc = .done r

omit [DecidableEq T] in
/-- A word that is not free shows the process of its holder. -/
theorem Inv.exists_holder {s : Global T (Mem T) Local} (hs : Inv E s) (hne : s.mem.word ≠ 0) :
    ∃ u, s.mem.holder = some u ∧ owner s.mem.word = E.pid u := by
  obtain ⟨u, hu⟩ := Option.ne_none_iff_exists'.mp fun hnone => hne (hs.free.mp hnone)
  exact ⟨u, hu, hs.word u hu⟩

theorem phase_beforeSleep (val : BitVec 32) (d : Deadline) :
    phase (beforeSleep val d) = .called (.call (lockCall d)) := by
  cases d <;> rfl

/-- The entry of a call. -/
theorem moved_of_enter {b : Bool} (h : enter ⟨.idle, b⟩ c.call = some l') :
    Moved E dead t c m ⟨.idle, b⟩ m l' := by
  have hlabel : label c (.thread ⟨.idle, b⟩) = some (.inv (.call c.call)) := rfl
  refine .inl ?_
  rw [hlabel]
  cases hc : c.call with
  | lllRobustUnlock =>
      rw [hc] at h
      obtain ⟨-, hl⟩ := Option.ite_none_right_eq_some.mp h
      cases hl
      exact .inv _
  | _ =>
      rw [hc] at h
      cases h
      exact .inv _

/-- An access that changes nothing. -/
theorem moved_of_moves {s : Global T (Mem T) Local} {pc pc' : Pc} {b : Bool} (hs : Inv E s)
    (h : RobustLock.Moves s.mem pc pc') (hidle : pc ≠ .idle) :
    Moved E dead t c s.mem ⟨pc, b⟩ s.mem ⟨pc', b⟩ := by
  cases h with
  | lock | trylock => exact absurd rfl hidle
  -- These three fail because of what the call has met earlier.
  | expired => exact .inr ⟨rfl, rfl, _, _, rfl, rfl, trivial, rfl⟩
  | tryLive | tryStealLost => exact .inr ⟨rfl, rfl, _, _, rfl, rfl, trivial, rfl⟩
  | tryLost hm => exact .inl (.eff (apply_ebusy fun hnone => hm (hs.free.mp hnone)))
  | waitLost | waitLive =>
      refine .inl ?_
      show Object.Moves _ _ none _ _ (phase (beforeSleep _ _)) _
      rw [phase_beforeSleep]
      exact .stutter
  | ret => exact .inl (.res _)
  | _ => exact .inl .stutter

/-- An access of a thread whose process lives. -/
theorem moved_of_step {s : Global T (Mem T) Local} (hs : Inv E s)
    (h : Step E t s.mem (s.loc t) m' l') (hlive : Alive E s.mem t) (hidle : (s.loc t).pc ≠ .idle) :
    Moved E dead t c s.mem (s.loc t) m' l' := by
  have hrem := hs.remembers t
  have hun := hs.unlock t
  have hholds := hs.holds t hlive
  generalize s.loc t = l at h hidle hrem hun hholds
  cases h with
  | move hm => exact moved_of_moves hs hm hidle
  | unlock => exact absurd rfl hidle
  -- A free word is taken.
  | @spinTake d _ hm | @waitTake d _ hm =>
      have ho : lockCall d ≠ .lllRobustUnlock := by cases d <;> exact nofun
      exact .inl (.eff (apply_take ho (hs.free.mpr hm)))
  | tryTake hm => exact .inl (.eff (apply_take nofun (hs.free.mpr hm)))
  -- The word of a dead process is taken over.
  | @waitSteal d =>
      have ho : lockCall d ≠ .lllRobustUnlock := by cases d <;> exact nofun
      obtain ⟨u, hu, hpid⟩ := hs.exists_holder hrem.1
      exact .inl (.eff (apply_takeOver ho hu (hpid ▸ hrem.2)))
  | trySteal =>
      obtain ⟨u, hu, hpid⟩ := hs.exists_holder hrem.1
      exact .inl (.eff (apply_takeOver nofun hu (hpid ▸ hrem.2)))
  | spinMark | sleep => exact .inl .stutter
  | @awake d _ timedout =>
      cases d with
      | none => exact .inl .stutter
      | some tsp =>
          cases timedout with
          | false => exact .inl .stutter
          | true => exact .inr ⟨rfl, rfl, _, _, rfl, rfl, trivial, rfl⟩
  | unSetWake | unCas =>
      have hself := hholds.mp (hun trivial)
      refine .inl (.eff ?_)
      show (robustLock E dead).apply (.inl t) (.call .lllRobustUnlock) .ok
        ⟨s.mem.holder, s.mem.dead⟩ = _
      rw [hself]
      exact if_pos rfl

/-! ### What a call has met -/

/-- A call that may fail after its access could fail before, or it can at this instant. -/
theorem met_of_act {s : Global T (Mem T) Local} (hs : Inv E s) {o : Call} {r : Code}
    (h : act E t c s.mem l = some (m', l')) (hmet : Met m' l'.pc)
    (hcall : phase l'.pc = .called (.call o)) (hr : failure o = some r) :
    Met s.mem l.pc ∧ phase l.pc = .called (.call o) ∨
      (robustLock E dead).apply (.inl t) (.call o) r (shown m') = some (shown m') := by
  obtain ⟨pc, b⟩ := l
  cases pc with
  | waitLoad d =>
      cases h
      dsimp only at hmet hcall
      split at hmet
      · next hm => exact absurd hm hmet
      · next hm =>
        -- The process in the word lives when it is found there.
        obtain ⟨u, hu, hpid⟩ := hs.exists_holder hm
        exact .inr (apply_failure hr ⟨u, hu, hpid ▸ hmet⟩)
  | tryLoad =>
      cases h
      dsimp only at hmet hcall
      split at hmet
      · exact hmet.elim
      · next hm =>
        rw [if_neg hm] at hcall
        cases hcall
        cases hr
        -- The word is held when the try looks at it, which is enough to fail.
        exact .inr (apply_ebusy fun hnone => hm (hs.free.mp hnone))
  | waitCas d =>
      simp only [act] at h
      split at h <;> cases h
      · exact hmet.elim
      · next hm =>
        rw [phase_beforeSleep] at hcall
        exact .inl ⟨hm, hcall⟩
  | waitValid d val =>
      cases h
      dsimp only at hmet hcall
      split at hmet
      · exact hmet.elim
      · next hm =>
        rw [if_neg hm, phase_beforeSleep] at hcall
        exact .inl ⟨Bool.eq_false_iff.mpr hm, hcall⟩
  | waitClock tsp val =>
      cases h
      dsimp only at hmet hcall
      split at hmet
      · exact hmet.elim
      · next hm =>
        rw [if_neg hm] at hcall
        exact .inl ⟨trivial, hcall⟩
  | waitSleep d val =>
      simp only [act] at h
      split at h <;> cases h
      · exact .inl ⟨trivial, hcall⟩
      · exact hmet.elim
  | tryValid val =>
      cases h
      dsimp only at hmet hcall
      split at hmet
      · next hm =>
        rw [if_pos hm] at hcall
        exact .inl ⟨trivial, hcall⟩
      · exact hmet.elim
  | asleep d =>
      obtain ⟨timedout, -, heq⟩ := Option.map_eq_some_iff.mp h
      cases heq
      cases d <;> cases timedout <;> exact hmet.elim
  -- The other accesses do not lead to a place where a call may fail.
  | _ =>
      cases step_of_act h with
      | move hm => cases hm <;> exact hmet.elim
      | _ => exact hmet.elim

omit [DecidableEq T] in
/-- What another thread has met stays, or the access of `t` has taken a free word, with
which the call of the other one can fail. -/
theorem met_of_change {s : Global T (Mem T) Local} {pc : Pc} (hlive : Alive E s.mem t)
    (h : Change E t s.mem m' l l') (hdead : m'.dead = s.mem.dead) (hmet : Met m' pc) :
    Met s.mem pc ∨ (shown m').Live E := by
  cases pc with
  | waitCas d =>
      -- A word that was free and is not any more has a new owner, which lives.
      by_cases hfree : s.mem.word = 0
      · cases h with
        | keep hword =>
            rcases hword with hword | ⟨hne, -⟩
            · exact absurd (hword.trans hfree) hmet
            · exact absurd hfree hne
        | take _ _ hholder => exact .inr ⟨t, hholder, by rw [shown, hdead]; exact hlive⟩
        | release _ hword => exact absurd hword hmet
      · exact .inl hfree
  | waitValid d val =>
      left
      show s.mem.dead (owner val) = false
      rw [← hdead]
      exact hmet
  | _ => exact .inl hmet

/-! ### The runs -/

omit [DecidableEq T] in
/-- The local state of a thread, among the threads and the agents. -/
theorem threads_loc (ht : s.loc (.inl t) = .thread l) : (threads s).loc t = l := by
  show (s.loc (.inl t)).local = l
  rw [ht]
  rfl

/-- A step of a thread. -/
theorem simulates_thread (hs : Known E s) (ht : s.loc (.inl t) = .thread l)
    (h : exec E t { c with dies := false } s.mem l = some (m, l')) :
    Moved E dead t c s.mem l m l' ∧
      ∀ u o r, May ⟨m, Function.update s.loc (.inl t) (.thread l')⟩ u o r →
        May s u o r ∨ (robustLock E dead).apply u o r (shown m) = some (shown m) := by
  obtain ⟨hlive, ⟨hd, -⟩ | ⟨-, hstep⟩⟩ := step_of_exec h
  · cases hd
  have hl := threads_loc ht
  have hact : act E t { c with dies := false } (threads s).mem l = some (m, l') := by
    unfold exec at h
    rw [hlive] at h
    exact h
  constructor
  · by_cases hidle : l.pc = .idle
    · obtain ⟨pc, b⟩ := l
      obtain rfl : pc = .idle := hidle
      obtain ⟨l₁, henter, heq⟩ := Option.map_eq_some_iff.mp hact
      cases heq
      exact moved_of_enter henter
    · have hmoved : Moved E dead t c s.mem ((threads s).loc t) m l' :=
        moved_of_step hs.inv (hl ▸ hstep) hlive (hl ▸ hidle)
      rwa [hl] at hmoved
  · rintro u o r ⟨v, k, call, rfl, hk, rfl, hr, hcall, hmet⟩
    by_cases hv : v = t
    · subst hv
      have hl' : Agent.thread l' = .thread k := (Function.update_self ..).symm.trans hk
      cases hl'
      rcases met_of_act hs.inv hact hmet hcall hr with ⟨hmet, hcall⟩ | happly
      · exact .inl ⟨v, l, call, rfl, ht, rfl, hr, hcall, hmet⟩
      · exact .inr happly
    · have hk' : s.loc (.inl v) = .thread k :=
        (Function.update_of_ne (Sum.inl_injective.ne hv) ..).symm.trans hk
      obtain ⟨hchange, hdead⟩ := change_of_step hstep
        (hl ▸ hs.inv.remembers t) (hl ▸ hs.inv.unlock t)
      rcases met_of_change (s := threads s) hlive hchange hdead hmet with hmet | halive
      · exact .inl ⟨v, k, call, rfl, hk', rfl, hr, hcall, hmet⟩
      · exact .inr (apply_failure hr halive)

omit [DecidableEq T] in
theorem Met.mono {pc : Pc} (h : Met m' pc) (hword : m'.word = m.word)
    (hdead : ∀ p, m.dead p = true → m'.dead p = true) : Met m pc := by
  cases pc with
  | waitCas d => exact fun h0 => h (hword.trans h0)
  | waitValid d val =>
      apply Bool.eq_false_iff.mpr
      intro hgone
      have hlive : m'.dead (owner val) = false := h
      rw [hdead _ hgone] at hlive
      cases hlive
  | _ => exact h

omit [DecidableEq T] in
theorem die_mono (E : Env T) (m : Mem T) (t : T) (p : BitVec 32) (h : m.dead p = true) :
    (m.die E t).dead p = true := by
  show Function.update m.dead (E.pid t) true p = true
  by_cases hp : p = E.pid t
  · rw [hp, Function.update_self]
  · rwa [Function.update_of_ne hp]

/-- What a call has met does not depend on the agents. -/
theorem may_of_killer {p : Agent} {v : T ⊕ T} {o : Act} {r : Code}
    (h : May ⟨m, Function.update s.loc (.inr t) p⟩ v o r) (hword : m.word = s.mem.word)
    (hdead : ∀ p, s.mem.dead p = true → m.dead p = true) : May s v o r := by
  obtain ⟨w, k, call, rfl, hk, rfl, hr, hcall, hmet⟩ := h
  have hk' : Function.update s.loc (.inr t) p (.inl w) = .thread k := hk
  rw [Function.update_of_ne Sum.inl_ne_inr] at hk'
  exact ⟨w, k, call, rfl, hk', rfl, hr, hcall, hmet.mono hword hdead⟩

/-- The threads and the agents simulate the atomic lock. -/
theorem simulates (E : Env T) (dead : BitVec 32 → Bool) :
    (killed E).SimulatesPast (IsStart dead) (fun _ _ => True) label (robustLock E dead)
      Agent.phase (Known E) (fun s a => a = shown s.mem) May where
  init := by
    rintro s ⟨hmem, hthread, hkiller⟩
    refine ⟨⟨⟨none, dead⟩, rfl, by rw [hmem]; rfl⟩, fun t => ?_⟩
    cases t with
    | inl t =>
        rw [hthread t]
        rfl
    | inr t =>
        rw [hkiller t]
        rfl
  called := by
    rintro s - o r ⟨u, l, call, rfl, hl, -, -, hcall, -⟩
    rw [hl]
    exact hcall
  step := by
    rintro s t c m p a hs rfl - he
    refine ⟨shown m, ?_⟩
    cases t with
    | inl t =>
        obtain ⟨l, hl⟩ := (hs.sided (.inl t)).exists_thread
        rw [hl] at he ⊢
        obtain ⟨l', rfl, hexec⟩ := exec_of_thread he
        obtain ⟨hmoved, hmay⟩ := simulates_thread hs hl hexec
        refine ⟨?_, rfl, hmay⟩
        rcases hmoved with hmove | ⟨hlabel, hsame, o, r, hcall, hr, hmet, hdone⟩
        · exact .inl hmove
        · exact .inr ⟨hlabel, hsame, _, r, ⟨t, l, o, rfl, hl, rfl, hr, hcall, hmet⟩, hdone⟩
    | inr t =>
        obtain ⟨b, hb⟩ := (hs.sided (.inr t)).exists_killer
        rw [hb] at he ⊢
        rcases exec_of_killer he with ⟨rfl, rfl, hlive, rfl⟩ | ⟨rfl, rfl, rfl⟩
        · refine ⟨.inl (.invEff ?_), rfl, fun u o r hu => ?_⟩
          · show (if s.mem.dead (E.pid t) = true then none else _) = _
            rw [hlive]
            rfl
          · exact .inl (may_of_killer hu rfl (die_mono E s.mem t))
        · exact ⟨.inl (.res _), rfl, fun u o r hu => .inl (may_of_killer hu rfl fun _ h => h)⟩

/-- Every history of the robust lock and of the deaths of the processes is a history of the
atomic lock, whatever the order of the accesses, the deaths, the wakes and the timeouts. -/
theorem robust_lock_linearizable {H : List ((T ⊕ T) × Event Act Code)}
    (h : (killed E).History (IsStart dead) (fun _ _ => True) label H s) :
    (robustLock E dead).Linearizable H := by
  refine h.linearizable_of_past ?_ (fun s => known_of_reach) (simulates E dead)
  intro a b ha hb
  exact ha.trans hb.symm

/-- A thread, or an agent, goes on for some steps. -/
def goesOn (t : Bool ⊕ Bool) (n : ℕ) : List ((Bool ⊕ Bool) × Choice Bool) :=
  List.replicate n (t, {})

/-- The word is free, and no process has died. -/
def startPair : Global (Bool ⊕ Bool) (Mem Bool) Agent where
  mem := ⟨0, ∅, fun _ => false, none, []⟩
  loc := Sum.elim (fun _ => .thread ⟨.idle, false⟩) fun _ => .killer false

/-- A try finds the word held, and fails with `EBUSY` after it was released. Then the other
thread takes it again and dies, and the lock returns `EOWNERDEAD`. -/
theorem robust_lock_linearizable_late : (robustLock pair fun _ => false).Linearizable
    [(.inl false, .inv (.call .lllRobustLock)), (.inl false, .res .ok),
      (.inl true, .inv (.call .lllRobustTrylock)), (.inl false, .inv (.call .lllRobustUnlock)),
      (.inl false, .res .ok), (.inl true, .res .ebusy),
      (.inl false, .inv (.call .lllRobustLock)), (.inl false, .res .ok),
      (.inl true, .inv (.call .lllRobustLock)), (.inr false, .inv .die), (.inr false, .res .ok),
      (.inl true, .res .eownerdead)] := by
  have hrun : ∃ s, (killed pair).History (IsStart fun _ => false) (fun _ _ => True) label
      [(.inl false, .inv (.call .lllRobustLock)), (.inl false, .res .ok),
        (.inl true, .inv (.call .lllRobustTrylock)),
        (.inl false, .inv (.call .lllRobustUnlock)), (.inl false, .res .ok),
        (.inl true, .res .ebusy), (.inl false, .inv (.call .lllRobustLock)),
        (.inl false, .res .ok), (.inl true, .inv (.call .lllRobustLock)),
        (.inr false, .inv .die), (.inr false, .res .ok), (.inl true, .res .eownerdead)] s :=
    Exec.exists_history_run (s := startPair) ⟨rfl, fun _ => rfl, fun _ => rfl⟩
      (goesOn (.inl false) 4 ++ [(.inl true, { call := .lllRobustTrylock })] ++
        goesOn (.inl true) 1 ++ [(.inl false, { call := .lllRobustUnlock })] ++
        goesOn (.inl false) 3 ++ goesOn (.inl true) 2 ++ goesOn (.inl false) 4 ++
        goesOn (.inl true) 3 ++ goesOn (.inr false) 2 ++ goesOn (.inl true) 4) (by decide)
  obtain ⟨s, hs⟩ := hrun
  exact robust_lock_linearizable hs

end Hlpt.RobustLock
