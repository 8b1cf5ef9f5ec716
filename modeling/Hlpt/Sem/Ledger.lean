import Hlpt.Lib.Counter
import Hlpt.Lib.Ghost
import Hlpt.Sem.Stranded

/-!
# `Hlpt.Sem.Ledger`: what the count of a semaphore counts

The count is changed by a compare-and-swap of its own half (`__sem_trywait`) and by
compare-and-swaps of the whole word, which move the number of waiters as well. The
`ledger` is the machine of the semaphore with a history: the calls that returned 0, and
for each thread the call it is in and how far its own steps moved the count since it
entered it.

`sem_accounting` balances the ledger. A call is `Phase.posted`, or ends with 0, from the
compare-and-swap on with which it succeeds, so these calls are counted as well before
they return.
-/

set_option autoImplicit false

namespace Hlpt.Sem

open Hlpt.Lib

universe u

/-! ### The history -/

/-- What all threads did: the initial count, and the posts and the waits that returned
0. -/
structure Book where
  val : ℕ
  posts : ℕ
  waits : ℕ

/-- What a thread did: the call that it entered last, and by how much its steps changed
the count since. -/
structure Entry where
  call : Call
  delta : ℤ

/-- The history of one step. -/
def note {T : Type u} : Ghost T (Choice T) (Mem T) Pc Book Entry := fun _ c old new g =>
  ({ g.1 with
      posts := g.1.posts + if old.2 = .ret .ok ∧ g.2.call = .post then 1 else 0
      waits := g.1.waits + if old.2 = .ret .ok ∧ g.2.call ≠ .post then 1 else 0 },
    { call := if old.2 = .idle then c.call else g.2.call
      delta := (if old.2 = .idle then 0 else g.2.delta) + (new.1.lo.toNat - old.1.lo.toNat) })

/-- The threads that share one semaphore, with their history. -/
def ledger {T : Type u} [DecidableEq T] :
    Machine (Global T (Mem T × Book) (Pc × Entry)) (T × Choice T) :=
  (Exec.ghost exec note).machine
    (ghostInit IsInit (fun s => ⟨s.mem.lo.toNat, 0, 0⟩) ⟨.post, 0⟩)

/-- Every state of the semaphore is reached with a history. -/
theorem exists_ledger {T : Type u} [DecidableEq T] {s : Global T (Mem T) Pc}
    (h : machine.Reach s) : ∃ s', ledger.Reach s' ∧ erase s' = s :=
  exists_ghost h

/-! ### The phases of a call -/

/-- How far a call is. A call that ends with 0 has `posted` or has taken the count. -/
inductive Phase where
  | idle
  | posting
  | posted
  | waiting
  | ended (r : Code)
  deriving DecidableEq

/-- The phase of a control point. A cancelled thread never leaves its wait. -/
def phase : Pc → Phase
  | .idle => .idle
  | .postLoad | .postCas .. => .posting
  | .postWake => .posted
  | .tryLoad _ | .tryCas .. | .addLoad _ | .addCas .. | .look _ | .take ..
  | .cancelpointBegin _ | .clock _ | .wait _ | .asleep _ | .cancelpointEnd ..
  | .cleanLoad _ | .cleanCas .. | .gone => .waiting
  | .ret r => .ended r

/-- The first phase of a call. -/
def firstPhase : Call → Phase
  | .post => .posting
  | .trywait => .waiting
  | .wait _ => .waiting

/-- The code of a call that cannot succeed any more, as `cleanup` keeps it, is not 0.
The compare-and-swap of a post found a count below the maximum. -/
def CodeOk : Pc → Prop
  | .postCas lo _ => lo ≠ SEM_VALUE_MAX
  | .cleanLoad r => r ≠ some .ok
  | .cleanCas r _ _ => r ≠ some .ok
  | _ => True

/-- What one step does to the count and to the phase of the thread that moved. -/
inductive LoEffect {T : Type u} (k : Call) (m m' : Mem T) : Phase → Phase → Prop
  | enter (hlo : m'.lo = m.lo) : LoEffect k m m' .idle (firstPhase k)
  | stay {p : Phase} (hlo : m'.lo = m.lo) (hp : p = .posting ∨ p = .waiting) :
      LoEffect k m m' p p
  | fail {p : Phase} {r : Code} (hlo : m'.lo = m.lo) (hp : p = .posting ∨ p = .waiting)
      (hr : r ≠ .ok) : LoEffect k m m' p (.ended r)
  | post {p : Phase} (hmax : m.lo ≠ SEM_VALUE_MAX) (hlo : m'.lo = m.lo + 1)
      (hp : p = .posted ∨ p = .ended .ok) : LoEffect k m m' .posting p
  | woke (hlo : m'.lo = m.lo) : LoEffect k m m' .posted (.ended .ok)
  | take (hpos : m.lo ≠ 0) (hlo : m'.lo = m.lo - 1) : LoEffect k m m' .waiting (.ended .ok)
  | back {r : Code} (hlo : m'.lo = m.lo) : LoEffect k m m' (.ended r) .idle

variable {T : Type u} [DecidableEq T] {t : T} {c : Choice T} {m m' : Mem T} {pc pc' : Pc}

/-- Only a waiting thread is cancelled. -/
theorem phase_of_inCancelpoint (h : InCancelpoint pc = true) : phase pc = .waiting := by
  cases pc <;> first | rfl | simp [InCancelpoint] at h

/-- The phase of a call that was just entered. -/
theorem phase_enter (k : Call) : phase (enter k) = firstPhase k := by
  cases k <;> rfl

/-- Every step has one of these effects. -/
theorem exec_loEffect (h : exec t c m pc = some (m', pc')) (hpc : PcOk pc)
    (hcode : CodeOk pc) : LoEffect c.call m m' (phase pc) (phase pc') := by
  cases step_of_exec h with
  | move hm =>
    cases hm with
    | call =>
      rw [phase_enter]
      exact .enter rfl
    | overflow => exact .fail rfl (.inl rfl) (by decide)
    | postLoad hmax => exact .stay rfl (.inl rfl)
    | postAgain => exact .stay rfl (.inl rfl)
    | tryFails h0 => exact .fail rfl (.inr rfl) (by decide)
    | ret => exact .back rfl
    | _ => exact .stay rfl (.inr rfl)
  | cancel hc hin =>
    rw [phase_of_inCancelpoint hin]
    exact .stay rfl (.inr rfl)
  | post hhi => exact .post hcode rfl (.inl rfl)
  | postAlone hhi => exact .post hcode rfl (.inr rfl)
  | postWake hq => exact .woke rfl
  | tryTake => exact .take hpc rfl
  | take => exact .take hpc rfl
  | @clean r =>
    cases r with
    | none => exact .stay rfl (.inr rfl)
    | some r => exact .fail rfl (.inr rfl) fun hr => hcode (congrArg some hr)
  | _ => exact .stay rfl (.inr rfl)

/-- The kept codes stay errors. -/
theorem exec_codeOk (h : exec t c m pc = some (m', pc')) (hcode : CodeOk pc) : CodeOk pc' := by
  cases step_of_exec h with
  | move hm =>
    cases hm with
    | call => cases c.call <;> trivial
    | postLoad hmax => exact hmax
    | badNsec h0 => exact nofun
    | interrupted => exact nofun
    | timedout => exact nofun
    | cleanLoad => exact hcode
    | cleanAgain => exact hcode
    | _ => trivial
  | cancel hc hin => exact nofun
  | @clean r => cases r <;> trivial
  | _ => trivial

/-! ### What one step does to the ledger -/

/-- A post that has succeeded and has not returned. -/
def postsDone (p : Pc × Entry) : ℕ :=
  if phase p.1 = .posted ∨ (phase p.1 = .ended .ok ∧ p.2.call = .post) then 1 else 0

/-- A wait that has succeeded and has not returned. -/
def waitsDone (p : Pc × Entry) : ℕ :=
  if phase p.1 = .ended .ok ∧ p.2.call ≠ .post then 1 else 0

/-- How far a call has moved the count when it ends with the code. -/
def outcome (k : Call) (r : Code) : ℤ :=
  if r = .ok then if k = .post then 1 else -1 else 0

/-- The phase agrees with the call, and the thread moved the count as far as its phase
says. -/
def EntryOk (p : Pc × Entry) : Prop :=
  match phase p.1 with
  | .idle => True
  | .posting => p.2.call = .post ∧ p.2.delta = 0
  | .posted => p.2.call = .post ∧ p.2.delta = 1
  | .waiting => p.2.call ≠ .post ∧ p.2.delta = 0
  | .ended r => p.2.delta = outcome p.2.call r

/-- How far a change of phase moves the count. -/
def gain : Phase → Phase → ℤ
  | .posting, .posted => 1
  | .posting, .ended .ok => 1
  | .waiting, .ended .ok => -1
  | _, _ => 0

omit [DecidableEq T] in
/-- One step moves the count as far as the phase says, and it does not wrap. -/
theorem LoEffect.toNat {k : Call} {a b : Phase} (h : LoEffect k m m' a b)
    (hmax : m.lo.toNat ≤ SEM_VALUE_MAX.toNat) :
    (m'.lo.toNat : ℤ) - m.lo.toNat = gain a b ∧ m'.lo.toNat ≤ SEM_VALUE_MAX.toNat := by
  have hval : SEM_VALUE_MAX.toNat = 0x7fffffff := rfl
  cases h with
  | enter hlo =>
      rw [hlo]
      exact ⟨by cases k <;> simp [gain], hmax⟩
  | stay hlo hp =>
      rw [hlo]
      exact ⟨by rcases hp with rfl | rfl <;> simp [gain], hmax⟩
  | fail hlo hp hr =>
      rw [hlo]
      refine ⟨?_, hmax⟩
      rcases hp with rfl | rfl <;> simp [gain, hr]
  | post hne hlo hp =>
      have hlt : m.lo.toNat < 0x7fffffff := by
        refine lt_of_le_of_ne (hval ▸ hmax) fun he => hne (BitVec.eq_of_toNat_eq he)
      have hsucc : m'.lo.toNat = m.lo.toNat + 1 := by
        rw [hlo, BitVec.toNat_add]
        exact Nat.mod_eq_of_lt (by simp; omega)
      refine ⟨?_, by omega⟩
      rcases hp with rfl | rfl <;> simp [gain, hsucc]
  | woke hlo =>
      rw [hlo]
      exact ⟨by simp [gain], hmax⟩
  | take hpos hlo =>
      obtain ⟨n, hn⟩ : ∃ n, m.lo.toNat = n + 1 :=
        Nat.exists_eq_succ_of_ne_zero fun h0 => hpos (BitVec.eq_of_toNat_eq h0)
      have hpred : m'.lo.toNat = n := by rw [hlo, toNat_sub_one hn]
      refine ⟨?_, by omega⟩
      simp [gain, hpred, hn]
  | back hlo =>
      rw [hlo]
      exact ⟨by simp [gain], hmax⟩

/-- A control point without a phase of its own. -/
theorem phase_eq_idle : phase pc = .idle ↔ pc = .idle := by
  cases pc <;> simp [phase]

/-- The control point of a call that ended. -/
theorem phase_eq_ended {r : Code} : phase pc = .ended r ↔ pc = .ret r := by
  cases pc <;> simp [phase]

omit [DecidableEq T] in
/-- The history stays right. -/
theorem EntryOk.step {b b' : Book} {e e' : Entry} (he : EntryOk (pc, e))
    (h : LoEffect c.call m m' (phase pc) (phase pc')) (hmax : m.lo.toNat ≤ SEM_VALUE_MAX.toNat)
    (hnote : (b', e') = note t c (m, pc) (m', pc') (b, e)) : EntryOk (pc', e') := by
  have hgain := (h.toNat hmax).1
  obtain ⟨-, rfl⟩ := Prod.mk.inj hnote
  simp only [EntryOk, ← phase_eq_idle] at he ⊢
  rw [hgain]
  generalize hk : c.call = k at h ⊢
  generalize phase pc = a at h he ⊢
  generalize phase pc' = a' at h ⊢
  cases h with
  | enter hlo => cases k <;> simp [firstPhase, gain]
  | stay hlo hp => rcases hp with rfl | rfl <;> simpa [gain] using he
  | fail hlo hp hr => rcases hp with rfl | rfl <;> simpa [gain, outcome, hr] using he.2
  | post hne hlo hp => rcases hp with rfl | rfl <;> simp [gain, outcome, he.1, he.2]
  | woke hlo => simp [gain, outcome, he.1, he.2]
  | take hpos hlo => simp [gain, outcome, he.1, he.2]
  | back hlo => trivial

omit [DecidableEq T] in
/-- One step keeps the ledger balanced. -/
theorem LoEffect.balance {b b' : Book} {e e' : Entry} (he : EntryOk (pc, e))
    (h : LoEffect c.call m m' (phase pc) (phase pc')) (hmax : m.lo.toNat ≤ SEM_VALUE_MAX.toNat)
    (hnote : (b', e') = note t c (m, pc) (m', pc') (b, e)) :
    b'.val = b.val ∧
    m'.lo.toNat + (b'.waits + waitsDone (pc', e')) + (b.posts + postsDone (pc, e)) =
      m.lo.toNat + (b.waits + waitsDone (pc, e)) + (b'.posts + postsDone (pc', e')) := by
  have hgain := (h.toNat hmax).1
  cases hnote
  refine ⟨rfl, ?_⟩
  simp only [EntryOk, postsDone, waitsDone, ← phase_eq_idle, ← phase_eq_ended] at he ⊢
  generalize hk : c.call = k at h ⊢
  generalize phase pc = a at h he hgain ⊢
  generalize phase pc' = a' at h hgain ⊢
  cases h with
  | enter hlo => cases k <;> simp [firstPhase, hlo]
  | stay hlo hp => rcases hp with rfl | rfl <;> simp [hlo]
  | fail hlo hp hr => rcases hp with rfl | rfl <;> simp [hlo, hr]
  | post hne hlo hp => rcases hp with rfl | rfl <;> simp [gain, he.1] at hgain ⊢ <;> omega
  | woke hlo => simp [hlo, he.1]
  | take hpos hlo =>
      simp [gain, he.1] at hgain ⊢
      omega
  | @back r hlo =>
      by_cases hr : r = .ok <;> by_cases hp : e.call = .post <;> simp [hlo, hr, hp]

/-! ### The balance -/

variable [Fintype T]

/-- The ledger balances, and the high half counts the registered waiters. -/
structure Balanced (s : Global T (Mem T × Book) (Pc × Entry)) : Prop where
  pc : ∀ t, PcOk (s.loc t).1
  code : ∀ t, CodeOk (s.loc t).1
  entry : ∀ t, EntryOk (s.loc t)
  hi : s.mem.1.hi = BitVec.ofNat 32 (∑ t, registered (s.loc t).1)
  max : s.mem.1.lo.toNat ≤ SEM_VALUE_MAX.toNat
  lo : s.mem.1.lo.toNat + (s.mem.2.waits + ∑ t, waitsDone (s.loc t)) =
    s.mem.2.val + (s.mem.2.posts + ∑ t, postsDone (s.loc t))

/-- One step keeps the ledger balanced. -/
theorem Balanced.step {s : Global T (Mem T × Book) (Pc × Entry)} {m : Mem T × Book}
    {p : Pc × Entry} (hs : Balanced s)
    (h : Exec.ghost exec note t c s.mem (s.loc t) = some (m, p)) :
    Balanced ⟨m, Function.update s.loc t p⟩ := by
  obtain ⟨he, hnote⟩ := Exec.ghost_eq_some.mp h
  have hlo := exec_loEffect he (hs.pc t) (hs.code t)
  have hentry : EntryOk ((s.loc t).1, (s.loc t).2) := hs.entry t
  obtain ⟨hval, hbalance⟩ := hlo.balance hentry hs.max hnote
  simp only [Prod.mk.eta] at hbalance
  have hposts := sum_update postsDone s.loc t p
  have hwaits := sum_update waitsDone s.loc t p
  exact
    { pc := (forall_loc_iff (P := fun _ (q : Pc × Entry) => PcOk q.1)).mpr
        ⟨exec_pcOk he, fun u _ => hs.pc u⟩
      code := (forall_loc_iff (P := fun _ (q : Pc × Entry) => CodeOk q.1)).mpr
        ⟨exec_codeOk he (hs.code t), fun u _ => hs.code u⟩
      entry := (forall_loc_iff (P := fun _ q => EntryOk q)).mpr
        ⟨hentry.step hlo hs.max hnote, fun u _ => hs.entry u⟩
      hi := word_eq_sum_step (g := fun (q : Pc × Entry) => registered q.1) hs.hi (exec_hi he)
      max := (hlo.toNat hs.max).2
      lo := by
        have hold := hs.lo
        show m.1.lo.toNat + (m.2.waits + ∑ u, waitsDone (Function.update s.loc t p u)) =
          m.2.val + (m.2.posts + ∑ u, postsDone (Function.update s.loc t p u))
        omega }

/-- The ledger balances in every reachable state. -/
theorem balanced_of_reach {s : Global T (Mem T × Book) (Pc × Entry)} (h : ledger.Reach s) :
    Balanced s := by
  refine Exec.invariant (fun s hs => ?_) (fun s t c m p hp _ he => hp.step he) h
  obtain ⟨⟨⟨val, hinit⟩, hidle⟩, hbook, -⟩ := hs
  have hpc : ∀ t, (s.loc t).1 = .idle := hidle
  simp only [semInit] at hinit
  split at hinit
  · cases hinit
  · rename_i hval
    have hmem : s.mem.1 = ⟨val, 0, ∅⟩ := (Except.ok.inj hinit).symm
    have hmax : val.toNat ≤ SEM_VALUE_MAX.toNat := BitVec.le_def.mp (BitVec.not_lt.mp hval)
    have hb : s.mem.2 = ⟨val.toNat, 0, 0⟩ := by
      rw [hbook]
      simp [erase, hmem]
    constructor
    · simp [hpc, PcOk]
    · simp [hpc, CodeOk]
    · simp [EntryOk, hpc, phase]
    · simp [hmem, hpc, registered]
    · simpa [hmem] using hmax
    · simp [hmem, hb, waitsDone, postsDone, hpc, phase]

/-- The thread is inside a wait: it has called one, and has neither returned nor ended. -/
def InWait (p : Pc × Entry) : Prop := p.2.call ≠ .post ∧ p.1 ≠ .idle ∧ p.1 ≠ .gone

omit [DecidableEq T] [Fintype T] in
/-- A registered waiter is inside a wait. -/
theorem EntryOk.inWait {p : Pc × Entry} (hp : EntryOk p) (h : registered p.1 ≠ 0) :
    InWait p := by
  rcases p with ⟨pc, e⟩
  cases pc <;> simp_all [registered, EntryOk, phase, InWait]

/-- The accounts of a semaphore that is shared by fewer than `2 ^ 32` threads, in every
reachable state. The count is the initial value and the successful posts less the
successful waits, and it is at most `SEM_VALUE_MAX`. The high half is the number of
registered waiters, and 0 when no thread is inside a wait. A call that fails, or whose
thread is cancelled, has moved the count nowhere. -/
theorem sem_accounting (hT : Fintype.card T < 2 ^ 32)
    {s : Global T (Mem T × Book) (Pc × Entry)} (h : ledger.Reach s) :
    (s.mem.1.lo.toNat + (s.mem.2.waits + ∑ t, waitsDone (s.loc t)) =
      s.mem.2.val + (s.mem.2.posts + ∑ t, postsDone (s.loc t))) ∧
    s.mem.1.lo ≤ SEM_VALUE_MAX ∧
    s.mem.1.hi.toNat = ∑ t, registered (s.loc t).1 ∧
    ((∀ t, ¬ InWait (s.loc t)) → s.mem.1.hi = 0) ∧
    (∀ t r, (s.loc t).1 = .ret r → (s.loc t).2.delta = outcome (s.loc t).2.call r) ∧
    (∀ t, (s.loc t).1 = .gone → (s.loc t).2.delta = 0) := by
  have hs := balanced_of_reach h
  have hcount : (∑ t, registered (s.loc t).1) < 2 ^ 32 := by
    refine lt_of_le_of_lt ?_ hT
    rw [Fintype.card_eq_sum_ones]
    apply Finset.sum_le_sum
    intro t _
    unfold registered
    split <;> omega
  refine ⟨hs.lo, BitVec.le_def.mpr hs.max, ?_, fun hout => ?_, fun t r hr => ?_, fun t ht => ?_⟩
  · rw [hs.hi, BitVec.toNat_ofNat, Nat.mod_eq_of_lt hcount]
  · have hzero : ∀ t, registered (s.loc t).1 = 0 := fun t => by
      by_contra hreg
      exact hout t ((hs.entry t).inWait hreg)
    rw [hs.hi]
    simp [hzero]
  · have he := hs.entry t
    rwa [EntryOk, phase_eq_ended.mpr hr] at he
  · have he := hs.entry t
    rw [EntryOk, ht] at he
    exact he.2

/-- A run on a semaphore of one: a `sem_wait` takes it, a second one registers and goes
to sleep, and a third one gives up before it sleeps. -/
theorem sem_accounting_three : ∃ s : Global (Fin 3) (Mem (Fin 3) × Book) (Pc × Entry),
    ledger.Reach s ∧
    ((s.loc 0).1 = .idle ∧ (s.loc 1).1 = .asleep .wait ∧ (s.loc 2).1 = .ret .etimedout) ∧
    (s.mem.1.lo.toNat + (s.mem.2.waits + ∑ t, waitsDone (s.loc t)) =
      s.mem.2.val + (s.mem.2.posts + ∑ t, postsDone (s.loc t))) ∧
    s.mem.1.lo ≤ SEM_VALUE_MAX ∧
    s.mem.1.hi.toNat = ∑ t, registered (s.loc t).1 ∧
    ((∀ t, ¬ InWait (s.loc t)) → s.mem.1.hi = 0) ∧
    (∀ t r, (s.loc t).1 = .ret r → (s.loc t).2.delta = outcome (s.loc t).2.call r) ∧
    (∀ t, (s.loc t).1 = .gone → (s.loc t).2.delta = 0) := by
  obtain ⟨s, hs, hp⟩ := (ledger (T := Fin 3)).exists_reach
    (s := ⟨(⟨1, 0, ∅⟩, ⟨1, 0, 0⟩), fun _ => (.idle, ⟨.post, 0⟩)⟩)
    ⟨⟨⟨1, rfl⟩, fun _ => rfl⟩, rfl, fun _ => rfl⟩
    [(0, { call := .wait .wait }), (0, {}), (0, {}), (0, {}),
      (1, { call := .wait .wait }), (1, {}), (1, {}), (1, {}), (1, {}), (1, {}), (1, {}),
      (2, { call := .wait (.timedwait default) }), (2, {}), (2, {}), (2, {}), (2, {}), (2, {}),
      (2, { now := ⟨1, 0⟩ }), (2, {}), (2, {}), (2, {})]
    (fun s => (s.loc 0).1 = .idle ∧ (s.loc 1).1 = .asleep .wait ∧
      (s.loc 2).1 = .ret .etimedout) (by decide)
  exact ⟨s, hs, hp, sem_accounting (by decide) hs⟩

end Hlpt.Sem
