import Hlpt.Deadline
import Hlpt.Robust.Model

/-!
# `Hlpt.Robust.Timed`: the deadline of `__lll_robust_abstimed_lock`

One call of `__lll_robust_abstimed_lock`, with the polling interval that `Robust.Model`
leaves out. The other threads write any word at any time. `valid_pid`, the clock and the
kernel answer as the action says.

The wait sleeps for the polling interval or for the time that is left, whichever is less.
The kernel has one code for the end of both, and the call takes it for the deadline.

* `timed_lock_iff`: in which runs the call does not give up before its deadline.
* `timed_lock_poll`: the call gives up after its first poll.
-/

set_option autoImplicit false

namespace Hlpt.Robust.Timed

open Hlpt.Lib

/-- `MAX_WAIT_TIME` -/
def MAX_WAIT_TIME : BitVec 32 := 1500

/-- The control points of the call, as in `Robust.Pc`. -/
inductive Pc where
  | spinLoad
  | spinCas
  | spinMark (val : BitVec 32)
  | waitLoad
  | waitCas
  | waitValid (val : BitVec 32)
  | waitSteal (val : BitVec 32)
  /-- `compute_reltime (tsp, clk)` -/
  | reltime (val : BitVec 32)
  /-- Inside of `lll_timed_wait (iptr, val, mlsec, flags)`. -/
  | sleep (wait : GsyncWait)
  | ret (r : Code)
  deriving DecidableEq, Repr

/-- The call: its control point, `wait_time` and the lock word. Then the ghosts: whether it
has read a time at or past the deadline, and the last word that it stored. -/
structure State where
  pc : Pc
  waitTime : BitVec 32
  word : BitVec 32
  past : Bool
  stored : Option (BitVec 32)
  deriving DecidableEq, Repr

/-- One step: of the others, who change the word; a load or an `atomic_cas_bool`; or the
answer of `valid_pid`, of the clock and of the kernel. -/
inductive Act where
  | others (word : BitVec 32)
  | access
  | valid (b : Bool)
  | reading (now : Timespec)
  | ends (r : KernReturn)
  deriving DecidableEq, Repr

/-- The arguments of the call, and what `getpid` returns. -/
structure Args where
  id : BitVec 32
  ptr : BitVec 32
  tsp : Timespec
  flags : BitVec 32

/-- A reading at or past the deadline. -/
def AtDeadline (tsp now : Timespec) : Prop := remaining tsp now ≤ 0

instance (tsp now : Timespec) : Decidable (AtDeadline tsp now) :=
  inferInstanceAs (Decidable (_ ≤ _))

/-- `atomic_cas_bool` on the lock word, and where the call goes. -/
def State.cas (s : State) (val new : BitVec 32) (yes no : Pc) : State :=
  if s.word = val then { s with word := new, stored := some new, pc := yes }
  else { s with pc := no }

/-- The wait after a reading of the clock: none when the deadline is past, and at most
`wait_time` otherwise. -/
def State.wait (A : Args) (s : State) (val : BitVec 32) (now : Timespec) : Pc :=
  let mlsec := computeReltime A.tsp now
  if mlsec.slt 0 then .ret .etimedout
  else .sleep (lllTimedWait A.ptr val (if s.waitTime.slt mlsec then s.waitTime else mlsec)
    A.flags)

/-- A load or an `atomic_cas_bool` of the call. -/
def State.access (A : Args) (s : State) : Option State :=
  match s.pc with
  | .spinLoad => some { s with pc := if s.word = 0 then .spinCas else .spinMark s.word }
  | .spinCas => some (s.cas 0 A.id (.ret .ok) .spinLoad)
  | .spinMark val => some (s.cas val (val ||| LLL_WAITERS) .waitLoad .spinLoad)
  | .waitLoad => some { s with pc := if s.word = 0 then .waitCas else .waitValid s.word }
  -- The last branch of the loop also gets the free word that another thread took first.
  | .waitCas => some (s.cas 0 (A.id ||| LLL_WAITERS) (.ret .ok) (.reltime 0))
  | .waitSteal val => some (s.cas val (A.id ||| LLL_WAITERS) (.ret .eownerdead) .waitLoad)
  | _ => none

/-- After a poll, the call looks at the word again. The polling interval grows. -/
def State.pollAgain (s : State) : State :=
  { s with
    pc := .waitLoad
    waitTime := if s.waitTime.slt MAX_WAIT_TIME then s.waitTime <<< 1 else s.waitTime }

/-- `__lll_robust_abstimed_lock` -/
def step (A : Args) (s : State) : Act → Option State
  | .others w => some { s with word := w }
  | .access => s.access A
  | .valid b =>
      match s.pc with
      | .waitValid val => some { s with pc := if b then .reltime val else .waitSteal val }
      | _ => none
  | .reading now =>
      match s.pc with
      | .reltime val =>
          some { s with
            pc := s.wait A val now
            past := s.past || decide (AtDeadline A.tsp now) }
      | _ => none
  | .ends r =>
      match s.pc with
      | .sleep _ => some (if r = .timedout then { s with pc := .ret .etimedout } else s.pollAgain)
      | _ => none

/-- The start of a call, with any word. -/
def IsStart (s : State) : Prop :=
  s.pc = .spinLoad ∧ s.waitTime = 25 ∧ s.past = false ∧ s.stored = none

/-- The call. -/
def machine (A : Args) : Machine State Act := ⟨IsStart, step A⟩

/-- The call has not ended too early: it returns one of three codes, `ETIMEDOUT` only after
a reading at or past the deadline, and the others with its own pid in the word. -/
structure Good (A : Args) (s : State) : Prop where
  codes : ∀ r, s.pc = .ret r → r = .ok ∨ r = .eownerdead ∨ r = .etimedout
  timeout : s.pc = .ret .etimedout → s.past = true
  taken : s.pc = .ret .ok ∨ s.pc = .ret .eownerdead →
    s.stored = some A.id ∨ s.stored = some (A.id ||| LLL_WAITERS)

/-- What the clock and the kernel may do in a step: before a reading at or past the deadline,
no reading is converted to a negative time, and no sleep ends with `KERN_TIMEDOUT`. -/
def Punctual (A : Args) (s : State) (a : Act) : Prop :=
  match s.pc, a with
  | .reltime _, .reading now =>
      s.past = true ∨ AtDeadline A.tsp now ∨ expired A.tsp now = false
  | .sleep _, .ends .timedout => s.past = true
  | _, _ => True

instance (A : Args) (s : State) (a : Act) : Decidable (Punctual A s a) := by
  unfold Punctual
  split <;> infer_instance

variable {A : Args} {s s' : State} {a : Act}

/-- An `atomic_cas_bool` goes on at one of its two points, and stores one word. -/
theorem State.cas_cases (s : State) (val new : BitVec 32) (yes no : Pc) :
    (s.cas val new yes no).past = s.past ∧
      ((s.cas val new yes no).pc = no ∨
        (s.cas val new yes no).pc = yes ∧ (s.cas val new yes no).stored = some new) := by
  unfold State.cas
  split
  · exact ⟨rfl, .inr ⟨rfl, rfl⟩⟩
  · exact ⟨rfl, .inl rfl⟩

/-- A state that is not at a return is a good one. -/
theorem Good.of_running (h : ∀ r, s.pc ≠ .ret r) : Good A s where
  codes r hr := absurd hr (h r)
  timeout hr := absurd hr (h _)
  taken hr := by
    rcases hr with hr | hr
    · exact absurd hr (h _)
    · exact absurd hr (h _)

/-- An `atomic_cas_bool` that takes the word, with a point inside of the loop otherwise. -/
theorem Good.cas {val new : BitVec 32} {r : Code} {no : Pc} (hr : r = .ok ∨ r = .eownerdead)
    (hnew : new = A.id ∨ new = A.id ||| LLL_WAITERS) (hno : ∀ r, no ≠ .ret r) :
    Good A (s.cas val new (.ret r) no) := by
  obtain ⟨-, hpc | ⟨hpc, hstored⟩⟩ := s.cas_cases val new (.ret r) no
  · exact Good.of_running fun r h => hno r (hpc.symm.trans h)
  · constructor
    · intro r' hr'
      have : r = r' := Pc.ret.inj (hpc.symm.trans hr')
      rcases hr with hr | hr
      · exact .inl (this ▸ hr)
      · exact .inr (.inl (this ▸ hr))
    · intro ht
      have : r = .etimedout := Pc.ret.inj (hpc.symm.trans ht)
      subst this
      simp at hr
    · intro _
      rw [hstored]
      rcases hnew with hnew | hnew
      · exact .inl (congrArg some hnew)
      · exact .inr (congrArg some hnew)

/-- A return with `ETIMEDOUT` after such a reading. -/
theorem Good.timedout (hpc : s.pc = .ret .etimedout) (hpast : s.past = true) : Good A s where
  codes r hr := .inr (.inr (Pc.ret.inj (hr.symm.trans hpc)))
  timeout _ := hpast
  taken hr := by simp [hpc] at hr

/-- An access keeps a state good, whatever the word is. -/
theorem Good.access (h : s.access A = some s') : Good A s' := by
  unfold State.access at h
  cases hpc : s.pc <;> simp only [hpc, Option.some.injEq, reduceCtorEq] at h <;> subst h
  case spinLoad | waitLoad =>
    apply Good.of_running
    intro r
    show (if s.word = 0 then _ else _) ≠ _
    split <;> exact Pc.noConfusion
  case spinCas => exact Good.cas (.inl rfl) (.inl rfl) fun r => Pc.noConfusion
  case spinMark val =>
    apply Good.of_running
    intro r hr
    obtain ⟨-, h | ⟨h, -⟩⟩ := s.cas_cases val (val ||| LLL_WAITERS) .waitLoad .spinLoad
    · exact Pc.noConfusion (h.symm.trans hr)
    · exact Pc.noConfusion (h.symm.trans hr)
  case waitCas => exact Good.cas (.inl rfl) (.inr rfl) fun r => Pc.noConfusion
  case waitSteal val => exact Good.cas (.inr rfl) (.inr rfl) fun r => Pc.noConfusion

/-- A punctual step keeps a state good. -/
theorem Good.step (hs : Good A s) (hp : Punctual A s a) (h : step A s a = some s') :
    Good A s' := by
  cases a with
  | others w =>
    cases h
    exact ⟨hs.codes, hs.timeout, hs.taken⟩
  | access => exact Good.access h
  | valid b =>
    cases hpc : s.pc <;> simp only [Timed.step, hpc, Option.some.injEq, reduceCtorEq] at h
    subst h
    apply Good.of_running
    intro r
    show (if b = true then _ else _) ≠ _
    split <;> exact Pc.noConfusion
  | reading now =>
    cases hpc : s.pc <;> simp only [Timed.step, hpc, Option.some.injEq, reduceCtorEq] at h
    subst h
    by_cases hneg : expired A.tsp now = true
    · -- The conversion says that the deadline is past, and it is.
      refine Good.timedout (if_pos hneg) ?_
      simp only [Punctual, hpc, hneg, Bool.true_eq_false, or_false] at hp
      simpa using hp
    · exact Good.of_running fun r hr => Pc.noConfusion ((if_neg hneg).symm.trans hr)
  | ends r =>
    cases hpc : s.pc <;> simp only [Timed.step, hpc, Option.some.injEq, reduceCtorEq] at h
    subst h
    cases r with
    | timedout =>
      simp only [Punctual, hpc] at hp
      exact Good.timedout rfl hp
    | success | invalidArgument | interrupted =>
      exact Good.of_running fun r => Pc.noConfusion

/-- The call gave up too early. -/
def TooEarly (s : State) : Prop := s.pc = .ret .etimedout ∧ s.past = false

/-- A step that is not punctual makes the call give up too early. -/
theorem tooEarly_of_not_punctual (hp : ¬ Punctual A s a) (h : step A s a = some s') :
    TooEarly s' := by
  cases a with
  | others w | access | valid b =>
    cases hpc : s.pc <;> simp [Punctual, hpc] at hp
  | reading now =>
    cases hpc : s.pc <;> simp only [Punctual, hpc, not_or, not_true] at hp
    obtain ⟨hpast, hnot, hneg⟩ := hp
    rw [Bool.not_eq_true] at hpast
    rw [Bool.not_eq_false] at hneg
    simp only [Timed.step, hpc, Option.some.injEq] at h
    subst h
    exact ⟨if_pos hneg, by simp [hpast, hnot]⟩
  | ends r =>
    cases hpc : s.pc <;> cases r <;> simp only [Punctual, hpc, not_true] at hp
    simp only [Timed.step, hpc, if_true, Option.some.injEq] at h
    subst h
    exact ⟨rfl, by simpa using hp⟩

/-- After its return the call makes no step. -/
theorem TooEarly.step (hs : TooEarly s) (h : step A s a = some s') : TooEarly s' := by
  obtain ⟨hpc, hpast⟩ := hs
  cases a <;>
    simp only [Timed.step, State.access, hpc, Option.some.injEq, reduceCtorEq] at h
  subst h
  exact ⟨rfl, hpast⟩

/-- For every history of the word, every deadline and every sequence of readings and of
kernel codes: the call does not give up before its deadline, and has the word when it says
so, exactly in the runs whose steps are all punctual. -/
theorem timed_lock_iff (A : Args) {s₀ s : State} {as : List Act} (h₀ : IsStart s₀)
    (h : (machine A).run s₀ as = some s) :
    Good A s ↔ (machine A).runVia (Punctual A) s₀ as = some s := by
  have hgood : Good A s₀ := Good.of_running fun r => by simp [h₀.1]
  have hexcl : ∀ s, TooEarly s → ¬ Good A s := by
    intro s hs hg
    have := hg.timeout hs.1
    simp [hs.2] at this
  exact Machine.run_iff_runVia (fun s a s' hs => hs.step) (fun s a s' => tooEarly_of_not_punctual)
    (fun s a s' hs => hs.step) hexcl hgood h

/-- A call at 100 s with the deadline at 200 s. -/
def Args.hundred : Args := ⟨7, 0, ⟨200, 0⟩, 0⟩

/-- The start of a call, when the process 9 has the lock. -/
def held : State := ⟨.spinLoad, 25, 9, false, none⟩

/-- The lock is held, and the owner is alive: the call polls for 25 ms. -/
def poll (r : KernReturn) : List Act :=
  [.access, .access, .access, .valid true, .reading ⟨100, 0⟩, .ends r]

/-- The poll ends with a wake, the owner dies, and the call takes the lock. -/
theorem timed_lock_iff_steal :
    (machine .hundred).run held (poll .success ++ [.access, .valid false, .access]) =
        some ⟨.ret .eownerdead, 50, 7 ||| LLL_WAITERS, false, some (7 ||| LLL_WAITERS)⟩ ∧
      Good .hundred ⟨.ret .eownerdead, 50, 7 ||| LLL_WAITERS, false,
        some (7 ||| LLL_WAITERS)⟩ := by
  have hrun : (machine .hundred).run held (poll .success ++ [.access, .valid false, .access]) =
      some ⟨.ret .eownerdead, 50, 7 ||| LLL_WAITERS, false, some (7 ||| LLL_WAITERS)⟩ := by decide
  exact ⟨hrun, (timed_lock_iff .hundred ⟨rfl, rfl, rfl, rfl⟩ hrun).mpr (by decide)⟩

/-- The poll ends after its 25 ms, 100 s before the deadline, and the call gives up. -/
theorem timed_lock_poll :
    (machine .hundred).run held (poll .timedout) =
        some ⟨.ret .etimedout, 25, 9 ||| LLL_WAITERS, false, some (9 ||| LLL_WAITERS)⟩ ∧
      ¬ Good .hundred ⟨.ret .etimedout, 25, 9 ||| LLL_WAITERS, false,
        some (9 ||| LLL_WAITERS)⟩ := by
  refine ⟨by decide, ?_⟩
  intro h
  exact absurd (h.timeout rfl) (by decide)

end Hlpt.Robust.Timed
