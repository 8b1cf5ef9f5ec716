import Hlpt.Lib.Counter
import Hlpt.Sem.Steps

/-!
# `Hlpt.Sem.Stranded`: who will take a positive count

A post wakes one waiter, and the thread that it woke carries the obligation to look at
the count again. The invariant `Inv` counts these obligations (`duty`): while somebody
sleeps, the count and the sleepers together are at most the posters that have yet to
wake and the waiters that have not looked since.

* `sem_not_stranded`: in every run in which no obliged waiter is cancelled whose
  obligation is needed, a positive count with a sleeper has an obliged thread.
* `sem_stranded`: a cancelled waiter that took its obligation with it.
-/

set_option autoImplicit false

namespace Hlpt.Sem

open Hlpt.Lib

universe u

/-! ### Registration and obligations -/

/-- A waiter that is counted in the high half: from the compare-and-swap of
`atomic_addx_hi` to the one that takes the count or to the one of `cleanup`. -/
def registered : Pc → ℕ
  | .look _ | .take .. | .cancelpointBegin _ | .clock _ | .wait _ | .asleep _
  | .cancelpointEnd .. | .cleanLoad _ | .cleanCas .. => 1
  | _ => 0

/-- An obligation to wake a sleeper or to look at the count. A sleeper has one as
well, for the time when it is woken. -/
def duty : Pc → ℕ
  | .postWake | .look _ | .take .. | .asleep _ | .cancelpointEnd _ .success
  | .cancelpointEnd _ .invalidArgument => 1
  | _ => 0

/-- A thread has at most one obligation. -/
theorem duty_le_one (pc : Pc) : duty pc ≤ 1 := by
  unfold duty
  split <;> omega

/-- The thread is inside `gsync_wait`. -/
def Asleep : Pc → Prop
  | .asleep _ => True
  | _ => False

/-- The two compare-and-swaps that take the count found it positive. -/
def PcOk : Pc → Prop
  | .tryCas _ val => val ≠ 0
  | .take _ lo _ => lo ≠ 0
  | _ => True

variable {T : Type u} [DecidableEq T]

/-- An awake registered waiter that will look at the count again, or has just found it
positive and tries to take it. When it is not cancelled it does so before it sleeps or
leaves (`Examines.step`). -/
def Examines (m : Mem T) (t : T) : Pc → Prop
  | .asleep _ => t ∉ m.sleepers
  | .look _ | .take .. | .cancelpointEnd _ .success | .cancelpointEnd _ .invalidArgument =>
      True
  | _ => False

instance (m : Mem T) (t : T) (pc : Pc) : Decidable (Examines m t pc) := by
  unfold Examines
  split <;> infer_instance

/-- A poster that saw waiters and has yet to wake one, or an awake waiter that will look
at the count. -/
def Obliged (s : Global T (Mem T) Pc) (t : T) : Prop :=
  s.loc t = .postWake ∨ Examines s.mem t (s.loc t)

instance (s : Global T (Mem T) Pc) (t : T) : Decidable (Obliged s t) :=
  inferInstanceAs (Decidable (_ ∨ _))

variable {t : T} {c : Choice T} {m m' : Mem T} {pc pc' : Pc}

/-! ### What one step does -/

omit [DecidableEq T] in
/-- A move leaves a waiter registered, or not. -/
theorem Moves.registered (h : Moves c m pc pc') : registered pc' = registered pc := by
  cases h with
  | call => cases c.call <;> rfl
  | _ => rfl

/-- A thread that can be cancelled is registered. -/
theorem registered_of_inCancelpoint (h : InCancelpoint pc = true) : registered pc = 1 := by
  cases pc <;> first | rfl | cases h

/-- The high half follows the registered waiters. -/
theorem exec_hi (h : exec t c m pc = some (m', pc')) :
    CountStep m.hi m'.hi (registered pc) (registered pc') := by
  cases step_of_exec h with
  | move hm => exact .inl ⟨rfl, hm.registered⟩
  | cancel hc hin => exact .inl ⟨rfl, (registered_of_inCancelpoint hin).symm⟩
  | add => exact .inr (.inl ⟨rfl, rfl⟩)
  | take => exact .inr (.inr ⟨rfl, rfl⟩)
  | @clean r => cases r <;> exact .inr (.inr ⟨rfl, rfl⟩)
  | _ => exact .inl ⟨rfl, rfl⟩

/-- The compare-and-swaps go on knowing that the count was positive. -/
theorem exec_pcOk (h : exec t c m pc = some (m', pc')) : PcOk pc' := by
  cases step_of_exec h with
  | move hm =>
    cases hm with
    | call => cases c.call <;> trivial
    | tryLoad hpos => exact hpos
    | look hpos => exact hpos
    | _ => trivial
  | @clean r => cases r <;> trivial
  | _ => trivial

omit [DecidableEq T] in
/-- A sleep does not end with a move. -/
theorem Moves.not_asleep (h : Moves c m pc pc') : ¬ Asleep pc := by
  cases h <;> exact id

/-- A thread in the queue is inside `gsync_wait`. -/
theorem exec_asleep (h : exec t c m pc = some (m', pc'))
    (hin : t ∈ m.sleepers → Asleep pc) (hin' : t ∈ m'.sleepers) : Asleep pc' := by
  cases step_of_exec h with
  | move hm => exact absurd (hin hin') hm.not_asleep
  | cancel hc hpc => exact absurd hin' (Finset.notMem_erase t m.sleepers)
  | postWake hq => exact (hin (wakeOne_subset hq hin')).elim
  | sleep h0 => trivial
  | awake hres => exact absurd hin' (Finset.notMem_erase t m.sleepers)
  | _ => exact (hin hin').elim

/-- Nobody else goes to sleep. -/
theorem exec_sleepers (h : exec t c m pc = some (m', pc')) {u : T} (hu : u ≠ t)
    (hin : u ∈ m'.sleepers) : u ∈ m.sleepers := by
  cases step_of_exec h with
  | cancel hc hpc => exact Finset.mem_of_mem_erase hin
  | postWake hq => exact wakeOne_subset hq hin
  | sleep h0 => exact Finset.mem_of_mem_insert_of_ne hin hu
  | awake hres => exact Finset.mem_of_mem_erase hin
  | _ => exact hin

/-- What one step does to the count, to the sleepers and to the obligation of the thread
that moved. -/
inductive Effect (t : T) (c : Choice T) (m m' : Mem T) (pc pc' : Pc) : Prop
  /-- The thread keeps its obligation, or takes one. -/
  | quiet (hlo : m'.lo = m.lo) (hq : m'.sleepers = m.sleepers) (hd : duty pc ≤ duty pc')
  /-- The thread found the count 0, and may go to sleep. -/
  | zero (h0 : m'.lo = 0)
  | post (hlo : m'.lo = m.lo + 1) (hq : m'.sleepers = m.sleepers)
      (hd : duty pc' = duty pc + 1 ∨ m.hi = 0)
  | take (hpos : m.lo ≠ 0) (hlo : m'.lo = m.lo - 1) (hq : m'.sleepers = m.sleepers)
      (hd : duty pc ≤ duty pc' + 1)
  | wake (hlo : m'.lo = m.lo) (hq : wakeOne m.sleepers c.pick = some m'.sleepers)
      (hd : duty pc ≤ duty pc' + 1)
  /-- The wait of the thread ended. -/
  | awake (hlo : m'.lo = m.lo) (hq : m'.sleepers = m.sleepers.erase t)
      (hd : duty pc ≤ duty pc' ∨ t ∈ m.sleepers ∧ duty pc ≤ duty pc' + 1)
  | cancel (hc : c.cancel = true) (hlo : m'.lo = m.lo)
      (hq : m'.sleepers = m.sleepers.erase t) (hpc : pc ≠ .postWake)

omit [DecidableEq T] in
/-- A waiter that gives its obligation up in a move has found the count 0. -/
theorem Moves.effect (h : Moves c m pc pc') : m.lo = 0 ∨ duty pc ≤ duty pc' := by
  cases h with
  | look hpos => exact .inr le_rfl
  | badNsec h0 => exact .inl h0
  | blocked h0 => exact .inl h0
  | takeAgain => exact .inr le_rfl
  | resume res => exact .inr (duty_le_one _)
  | _ => exact .inr (Nat.zero_le _)

/-- Every step has one of these effects. -/
theorem exec_effect (h : exec t c m pc = some (m', pc')) (hpc : PcOk pc) :
    Effect t c m m' pc pc' := by
  cases step_of_exec h with
  | move hm =>
    rcases hm.effect with h0 | hd
    · exact .zero h0
    · exact .quiet rfl rfl hd
  | cancel hc hin =>
    refine .cancel hc rfl rfl ?_
    rintro rfl
    cases hin
  | post hhi => exact .post rfl rfl (.inl rfl)
  | postAlone hhi => exact .post rfl rfl (.inr hhi)
  | postWake hq => exact .wake rfl hq le_rfl
  | tryTake => exact .take hpc rfl rfl (Nat.zero_le _)
  | add => exact .quiet rfl rfl (Nat.zero_le _)
  | take => exact .take hpc rfl rfl le_rfl
  | sleep h0 => exact .zero h0
  | awake hres =>
    refine .awake rfl rfl ?_
    by_cases hin : t ∈ m.sleepers
    · exact .inr ⟨hin, Nat.le_add_left _ _⟩
    · -- A waiter that somebody woke looks at the count.
      simp only [sleepEnd, hin, decide_false] at hres
      cases hres
      exact .inl le_rfl
  | clean => exact .quiet rfl rfl (Nat.zero_le _)

/-! ### The invariant -/

variable [Fintype T]

/-- The registered waiters. -/
def waiters (s : Global T (Mem T) Pc) : ℕ := ∑ t, registered (s.loc t)

/-- Fewer than `2 ^ 32` waiters are registered. -/
def Small (s : Global T (Mem T) Pc) : Prop := waiters s < 2 ^ 32

instance (s : Global T (Mem T) Pc) : Decidable (Small s) := Nat.decLt _ _

/-- The obliged threads. -/
def obliged (s : Global T (Mem T) Pc) : Finset T := Finset.univ.filter (Obliged s)

/-- A waiter that would look at the count again is cancelled only when nobody sleeps, or
when the others are enough for the count. -/
def Spared (s : Global T (Mem T) Pc) (a : T × Choice T) : Prop :=
  a.2.cancel = true → Examines s.mem a.1 (s.loc a.1) →
    s.mem.sleepers = ∅ ∨ s.mem.lo.toNat < (obliged s).card

instance (s : Global T (Mem T) Pc) (a : T × Choice T) : Decidable (Spared s a) :=
  inferInstanceAs (Decidable (_ → _ → _ ∨ _))

/-- The word counts the registered waiters, and while somebody sleeps there are enough
obligations for the count and for the sleepers. -/
structure Inv (s : Global T (Mem T) Pc) : Prop where
  hi : s.mem.hi = BitVec.ofNat 32 (waiters s)
  pc : ∀ t, PcOk (s.loc t)
  asleep : ∀ t ∈ s.mem.sleepers, Asleep (s.loc t)
  enough : s.mem.sleepers.Nonempty →
    s.mem.lo.toNat + s.mem.sleepers.card ≤ ∑ t, duty (s.loc t)

omit [Fintype T] in
/-- A thread has an obligation when it is obliged, and while it sleeps. -/
theorem duty_eq_one_iff {s : Global T (Mem T) Pc} :
    duty (s.loc t) = 1 ↔ Obliged s t ∨ Asleep (s.loc t) ∧ t ∈ s.mem.sleepers := by
  unfold Obliged
  generalize s.loc t = pc
  cases pc with
  | asleep k => by_cases hin : t ∈ s.mem.sleepers <;> simp [duty, Examines, Asleep, hin]
  | cancelpointEnd k res => cases res <;> simp [duty, Examines, Asleep]
  | _ => simp [duty, Examines, Asleep]

omit [DecidableEq T] [Fintype T] in
/-- A sleeper is not obliged. -/
theorem not_obliged_of_mem {s : Global T (Mem T) Pc} (hin : t ∈ s.mem.sleepers)
    (h : Asleep (s.loc t)) : ¬ Obliged s t := by
  unfold Obliged
  cases hpc : s.loc t with
  | asleep k => simp [Examines, hin]
  | _ => rw [hpc] at h; cases h

/-- The obligations are those of the obliged threads and those of the sleepers. -/
theorem sum_duty {s : Global T (Mem T) Pc} (h : ∀ t ∈ s.mem.sleepers, Asleep (s.loc t)) :
    ∑ t, duty (s.loc t) = (obliged s).card + s.mem.sleepers.card := by
  have hone : ∀ t, duty (s.loc t) =
      (if Obliged s t then 1 else 0) + (if t ∈ s.mem.sleepers then 1 else 0) := by
    intro t
    have hiff := duty_eq_one_iff (s := s) (t := t)
    have hle := duty_le_one (s.loc t)
    by_cases hin : t ∈ s.mem.sleepers
    · have hn := not_obliged_of_mem hin (h t hin)
      have h1 := hiff.mpr (.inr ⟨h t hin, hin⟩)
      simp [hn, hin, h1]
    · by_cases ho : Obliged s t
      · simp [ho, hin, hiff.mpr (.inl ho)]
      · have h1 : duty (s.loc t) ≠ 1 := fun h1 => by simp [hiff, ho, hin] at h1
        simp only [ho, hin, if_false]
        omega
  calc ∑ t, duty (s.loc t)
      = ∑ t, ((if Obliged s t then 1 else 0) + (if t ∈ s.mem.sleepers then 1 else 0)) :=
        Finset.sum_congr rfl fun t _ => hone t
    _ = (obliged s).card + s.mem.sleepers.card := by
        simp [Finset.sum_add_distrib, obliged]

omit [DecidableEq T] in
/-- A thread in the queue is registered, so the high half is not 0. -/
theorem Inv.hi_ne_zero {s : Global T (Mem T) Pc} (hs : Inv s) (hsmall : Small s)
    (hq : s.mem.sleepers.Nonempty) : s.mem.hi ≠ 0 := by
  obtain ⟨t, ht⟩ := hq
  have hreg : registered (s.loc t) = 1 := by
    have ha := hs.asleep t ht
    revert ha
    cases s.loc t <;> simp [Asleep, registered]
  have hle : registered (s.loc t) ≤ waiters s := le_sum_loc registered s.loc t
  rw [hs.hi]
  intro h0
  have := (ofNat_eq_iff (k := 0) hsmall (by decide)).mp h0
  omega

/-- One step keeps enough obligations. -/
theorem Inv.enough_step {s : Global T (Mem T) Pc} (hs : Inv s) (hsmall : Small s)
    (hok : Spared s (t, c)) (h : exec t c s.mem (s.loc t) = some (m, pc))
    (hasleep : ∀ u ∈ m.sleepers, Asleep (Function.update s.loc t pc u))
    (hq : m.sleepers.Nonempty) :
    m.lo.toNat + m.sleepers.card ≤ ∑ u, duty (Function.update s.loc t pc u) := by
  have hsum := sum_update duty s.loc t pc
  have hcard := sum_duty (s := ⟨m, Function.update s.loc t pc⟩) hasleep
  have hbefore := sum_duty hs.asleep
  cases exec_effect h (hs.pc t) with
  | quiet hlo hsl hd =>
      rw [hsl] at hq ⊢
      have := hs.enough hq
      rw [hlo]
      omega
  | zero h0 =>
      simp only [h0] at hcard ⊢
      simp
      omega
  | post hlo hsl hd =>
      rw [hsl] at hq ⊢
      -- A sleeper is registered, so the poster saw waiters.
      have hhi : s.mem.hi ≠ 0 := hs.hi_ne_zero hsmall hq
      have hle : (s.mem.lo + 1).toNat ≤ s.mem.lo.toNat + 1 := by
        rw [BitVec.toNat_add]
        exact Nat.mod_le _ _
      have := hs.enough hq
      have := hd.resolve_right hhi
      rw [hlo]
      omega
  | take hpos hlo hsl hd =>
      rw [hsl] at hq ⊢
      obtain ⟨n, hn⟩ := Nat.exists_eq_succ_of_ne_zero
        (fun h0 => hpos (BitVec.eq_of_toNat_eq h0) : s.mem.lo.toNat ≠ 0)
      have hlt := toNat_sub_one hn
      have := hs.enough hq
      rw [hlo]
      omega
  | wake hlo hw hd =>
      have hw' := card_of_wakeOne hw hq
      have := hs.enough (hq.mono (wakeOne_subset hw))
      rw [hlo]
      omega
  | awake hlo hsl hd =>
      have hsub : m.sleepers ⊆ s.mem.sleepers := hsl ▸ Finset.erase_subset _ _
      have := hs.enough (hq.mono hsub)
      have := Finset.card_le_card hsub
      rw [hlo]
      rcases hd with hd | ⟨hin, hd⟩
      · omega
      · have := Finset.card_erase_add_one hin
        rw [← hsl] at this
        omega
  | cancel hc hlo hsl hpc =>
      have hle := duty_le_one (s.loc t)
      have hsub : m.sleepers ⊆ s.mem.sleepers := hsl ▸ Finset.erase_subset _ _
      have := hs.enough (hq.mono hsub)
      rw [hlo]
      by_cases hex : Examines s.mem t (s.loc t)
      · rcases hok hc hex with hnone | hlt
        · exact absurd (Finset.subset_empty.mp (hnone ▸ hsub)) hq.ne_empty
        · have := Finset.card_le_card hsub
          omega
      · -- The obligation of a sleeper goes with it, and others have none.
        by_cases hone : duty (s.loc t) = 1
        · rcases duty_eq_one_iff.mp hone with (hw | hex') | ⟨-, hin⟩
          · exact absurd hw hpc
          · exact absurd hex' hex
          · have := Finset.card_erase_add_one hin
            rw [← hsl] at this
            omega
        · have := Finset.card_le_card hsub
          omega

/-- A step from a small state, with the cancellations of `Spared`, keeps the
invariant. -/
theorem Inv.step {s : Global T (Mem T) Pc} (hs : Inv s) (hsmall : Small s)
    (hok : Spared s (t, c)) (h : exec t c s.mem (s.loc t) = some (m, pc)) :
    Inv ⟨m, Function.update s.loc t pc⟩ := by
  have hasleep : ∀ u ∈ m.sleepers, Asleep (Function.update s.loc t pc u) := by
    refine (forall_loc_iff (P := fun u p => u ∈ m.sleepers → Asleep p)).mpr ⟨?_, fun u hu hin => ?_⟩
    · exact exec_asleep h (hs.asleep t)
    · exact hs.asleep u (exec_sleepers h hu hin)
  constructor
  · exact word_eq_sum_step hs.hi (exec_hi h)
  · exact (forall_loc_iff (P := fun _ p => PcOk p)).mpr ⟨exec_pcOk h, fun u _ => hs.pc u⟩
  · exact hasleep
  · exact hs.enough_step hsmall hok h hasleep

/-- The invariant holds at the end of every run of such steps. -/
theorem inv_of_reach {s : Global T (Mem T) Pc}
    (h : machine.ReachVia (fun s a => Small s ∧ Spared s a) s) : Inv s := by
  refine Exec.invariant (fun s hs => ?_)
    (fun s t c m p hp ha he => hp.step ha.1 ha.2 he) h
  obtain ⟨⟨val, hval⟩, hl⟩ := hs
  simp only [semInit] at hval
  split at hval
  · cases hval
  · have hm : s.mem = ⟨val, 0, ∅⟩ := (Except.ok.inj hval).symm
    constructor <;> simp [waiters, hm, hl, registered, PcOk]

/-! ### No waiter is stranded -/

omit [Fintype T] in
/-- What becomes of a waiter that will look at the count, when it moves and is not
cancelled: it still will, it finds the count 0, or it takes one. -/
theorem Examines.step (hex : Examines m t pc) (hpc : PcOk pc) (hc : c.cancel = false)
    (h : exec t c m pc = some (m', pc')) :
    Examines m' t pc' ∨ ((∃ k, pc = .look k) ∧ m.lo = 0) ∨
      (pc' = .ret .ok ∧ m.lo ≠ 0 ∧ m'.lo = m.lo - 1) := by
  cases step_of_exec h with
  | move hm =>
    cases hm with
    | look hpos => exact .inl trivial
    | badNsec h0 => exact .inr (.inl ⟨⟨_, rfl⟩, h0⟩)
    | blocked h0 => exact .inr (.inl ⟨⟨_, rfl⟩, h0⟩)
    | takeAgain => exact .inl trivial
    | resume res => exact .inl trivial
    | _ => exact hex.elim
  | cancel hc' hin =>
    rw [hc] at hc'
    cases hc'
  | take => exact .inr (.inr ⟨rfl, hpc, rfl⟩)
  | awake hres =>
    have hin : t ∉ m.sleepers := hex
    simp only [sleepEnd, hin, decide_false] at hres
    cases hres
    exact .inl trivial
  | _ => exact hex.elim

/-- No waiter is stranded in a run of fewer than `2 ^ 32` waiters, as long as no waiter is
cancelled whose look at the count is needed. When the count is positive and a thread
sleeps on it, a poster that saw waiters has yet to wake one, or an awake registered
waiter will look at the count. Unless it is cancelled, such a waiter keeps to that until
it has found the count 0 or taken one. -/
theorem sem_not_stranded {s : Global T (Mem T) Pc}
    (h : machine.ReachVia (fun s a => Small s ∧ Spared s a) s) :
    (s.mem.lo ≠ 0 → s.mem.sleepers.Nonempty →
      ∃ t, s.loc t = .postWake ∨ Examines s.mem t (s.loc t)) ∧
    (∀ t, Examines s.mem t (s.loc t) → ∀ a s', machine.step s a = some s' →
      (a.1 = t → a.2.cancel = false) →
      Examines s'.mem t (s'.loc t) ∨ a.1 = t ∧ ((∃ k, s.loc t = .look k) ∧ s.mem.lo = 0 ∨
        s'.loc t = .ret .ok ∧ s.mem.lo ≠ 0 ∧ s'.mem.lo = s.mem.lo - 1)) := by
  have hs := inv_of_reach h
  constructor
  · intro hlo hq
    have hpos : 0 < s.mem.lo.toNat :=
      Nat.pos_of_ne_zero fun h0 => hlo (BitVec.eq_of_toNat_eq h0)
    have henough := hs.enough hq
    rw [sum_duty hs.asleep] at henough
    have hcard : 0 < (obliged s).card := by omega
    obtain ⟨t, ht⟩ := Finset.card_pos.mp hcard
    exact ⟨t, (Finset.mem_filter.mp ht).2⟩
  · intro t hex a s' hstep hc
    obtain ⟨m, pc, he, rfl⟩ := Exec.machine_step_eq_some.mp hstep
    by_cases hat : a.1 = t
    · subst hat
      simp only [Function.update_self]
      rcases hex.step (hs.pc _) (hc rfl) he with hex' | hend
      · exact .inl hex'
      · exact .inr ⟨trivial, hend⟩
    · left
      simp only [Function.update_of_ne (Ne.symm hat)]
      -- Nobody else puts the waiter to sleep.
      cases hpc : s.loc t with
      | asleep k =>
          rw [hpc] at hex
          exact fun hin => hex (exec_sleepers he (Ne.symm hat) hin)
      | cancelpointEnd k res => rw [hpc] at hex; cases res <;> exact hex
      | _ => rw [hpc] at hex; exact hex

/-- Two waiters sleep and a third thread posts. The woken waiter will look at the
count. -/
theorem sem_not_stranded_three : ∃ s : Global (Fin 3) (Mem (Fin 3)) Pc,
    machine.ReachVia (fun s a => Small s ∧ Spared s a) s ∧
    (s.mem.lo = 1 ∧ s.mem.sleepers = {1} ∧ Examines s.mem 0 (s.loc 0)) ∧
    (∃ t, s.loc t = .postWake ∨ Examines s.mem t (s.loc t)) := by
  obtain ⟨s, hs, hp⟩ := (machine (T := Fin 3)).exists_reachVia
    (fun s a => Small s ∧ Spared s a) (s := ⟨⟨0, 0, ∅⟩, fun _ => .idle⟩)
    ⟨⟨0, rfl⟩, fun _ => rfl⟩
    [(0, { call := .wait .wait }), (0, {}), (0, {}), (0, {}), (0, {}), (0, {}), (0, {}),
      (1, { call := .wait .wait }), (1, {}), (1, {}), (1, {}), (1, {}), (1, {}), (1, {}),
      (2, { call := .post }), (2, {}), (2, {}), (2, { pick := some 0 })]
    (fun s => s.mem.lo = 1 ∧ s.mem.sleepers = {1} ∧ Examines s.mem 0 (s.loc 0)) (by decide)
  refine ⟨s, hs, hp, (sem_not_stranded hs).1 ?_ ?_⟩
  · rw [hp.1]
    decide
  · rw [hp.2.1]
    exact Finset.singleton_nonempty 1

/-- Two waiters sleep, a third thread posts and wakes the first of them, and that one is
cancelled. The count stays 1, and nobody is left to tell the second waiter. -/
theorem sem_stranded : ∃ s : Global (Fin 3) (Mem (Fin 3)) Pc,
    machine.ReachVia (fun s _ => Small s) s ∧
    (s.mem.lo = 1 ∧ s.mem.sleepers = {1}) ∧
    (s.loc 0 = .gone ∧ s.loc 1 = .asleep .wait ∧ s.loc 2 = .idle) ∧
    ¬ ∃ t, s.loc t = .postWake ∨ Examines s.mem t (s.loc t) := by
  obtain ⟨s, hs, hp⟩ := (machine (T := Fin 3)).exists_reachVia (fun s _ => Small s)
    (s := ⟨⟨0, 0, ∅⟩, fun _ => .idle⟩) ⟨⟨0, rfl⟩, fun _ => rfl⟩
    [(0, { call := .wait .wait }), (0, {}), (0, {}), (0, {}), (0, {}), (0, {}), (0, {}),
      (1, { call := .wait .wait }), (1, {}), (1, {}), (1, {}), (1, {}), (1, {}), (1, {}),
      (2, { call := .post }), (2, {}), (2, {}), (2, { pick := some 0 }), (2, {}),
      (0, { cancel := true }), (0, {}), (0, {})]
    (fun s => (s.mem.lo = 1 ∧ s.mem.sleepers = {1}) ∧
      (s.loc 0 = .gone ∧ s.loc 1 = .asleep .wait ∧ s.loc 2 = .idle) ∧
      ¬ ∃ t, s.loc t = .postWake ∨ Examines s.mem t (s.loc t)) (by decide)
  exact ⟨s, hs, hp⟩

end Hlpt.Sem
