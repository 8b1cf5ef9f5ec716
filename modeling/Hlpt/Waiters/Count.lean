import Hlpt.Lib.Counter
import Hlpt.Waiters.Model

/-!
# `Hlpt.Waiters.Count`: the word counts the waiters that are registered

The high half of `__seq_nw` changes when a wait registers, when it is uncounted after its
loop, and when `cleanup` uncounts it. A step breaks the count in two ways. A wait that the
kernel interrupted leaves the loop through `continue` and is never uncounted. And a
cancellation that reaches a wait between its registration and its handler leaves it
counted, while one that comes after it was uncounted has `cleanup` uncount it again. `Sound`
says that neither happens.

* `waiters_exact`: in runs of sound steps the word is the number of registered waits, and
  `pthread_cond_destroy` succeeds when no thread is inside one.
* `waiters_exact_fails`: a wait that was interrupted is counted for ever.
-/

set_option autoImplicit false

namespace Hlpt.Waiters

open Hlpt.Lib
open Hlpt.Requeue (WaitCall)

universe u

variable {T : Type u}

/-! ### The control points -/

/-- A wait that is registered and not uncounted yet. -/
def counted : Pc T → Bool
  | .push .. | .setHook .. | .spinUnlock .. | .cancelpointBegin .. | .clock .. | .wait ..
  | .asleep .. | .cancelpointEnd .. | .judge .. | .uncount .. | .cleanLoad _ | .cleanCas .. => true
  | .idle | .spinLock _ | .testPending _ | .refuse _ | .checkMutex _ | .storeMutex _ | .unlock _
  | .regLoad _ | .regCas .. | .pop .. | .spinRelock .. | .clearHook .. | .testCancel ..
  | .leave .. | .relock .. | .cleanWake _ | .cleanRelock _ | .sigLoad | .sigCas .. | .sigWake
  | .bcLoad | .bcCas .. | .bcMutex | .bcRequeue | .bcWake | .cancelSet _ | .hookAdd | .hookWake
  | .destroy | .ret _ => false

/-- A thread inside a wait call, or in its `cleanup`. -/
def waits : Pc T → Bool
  | .spinLock _ | .testPending _ | .refuse _ | .checkMutex _ | .storeMutex _ | .unlock _
  | .regLoad _ | .regCas .. | .push .. | .setHook .. | .spinUnlock .. | .cancelpointBegin ..
  | .clock .. | .wait .. | .asleep .. | .cancelpointEnd .. | .judge .. | .uncount .. | .pop ..
  | .spinRelock .. | .clearHook .. | .testCancel .. | .leave .. | .relock .. | .cleanLoad _
  | .cleanCas .. | .cleanWake _ | .cleanRelock _ => true
  | .idle | .sigLoad | .sigCas .. | .sigWake | .bcLoad | .bcCas .. | .bcMutex | .bcRequeue
  | .bcWake | .cancelSet _ | .hookAdd | .hookWake | .destroy | .ret _ => false

/-- Only waits are counted. -/
theorem waits_of_counted {pc : Pc T} (h : counted pc = true) : waits pc = true := by
  cases pc <;> first | rfl | cases h

theorem counted_block {k : WaitCall} {sw : BitVec 32} : counted (block k sw : Pc T) = true := by
  rw [block]
  split <;> rfl

theorem counted_awake {k : WaitCall} {sw : BitVec 32} {ret : KernReturn} :
    counted (awake k sw ret : Pc T) = true := by
  rw [awake]
  split <;> rfl

theorem counted_looped {k : WaitCall} {sw : BitVec 32} {ret : KernReturn} :
    counted (looped k sw ret : Pc T) = false := by
  rw [looped]
  split <;> rfl

theorem counted_enter {pshared : Bool} {call : Call T} :
    counted (enter pshared call) = false := by
  cases call with
  | wait k =>
      simp only [enter]
      split
      · rfl
      · split
        · rfl
        · split <;> rfl
  | _ => rfl

variable [DecidableEq T] {pshared : Bool} {t : T} {c : Choice T} {m m' : Mem T} {pc pc' : Pc T}

/-! ### The condition on the steps -/

/-- No wait leaves its loop because of an interrupt, and a cancellation reaches a thread
with its handler in place exactly when it is counted. -/
def Sound (s : Global T (Mem T) (Pc T)) (a : T × Choice T) : Prop :=
  if a.2.cancel then (handler (s.loc a.1)).isSome = counted (s.loc a.1)
  else match s.loc a.1 with
    | .judge _ _ ret => ret ≠ .interrupted
    | _ => True

instance (s : Global T (Mem T) (Pc T)) (a : T × Choice T) : Decidable (Sound s a) := by
  unfold Sound
  split
  · infer_instance
  · split <;> infer_instance

/-! ### What one step does to the count -/

/-- Without an interrupt, the word changes with the thread that moves. -/
theorem act_hi (h : act pshared t c m pc = some (m', pc'))
    (hok : ∀ k sw ret, pc = .judge k sw ret → ret ≠ .interrupted) :
    CountStep m.hi m'.hi (counted pc).toNat (counted pc').toNat := by
  cases pc with
  | idle =>
      cases h
      exact .inl ⟨rfl, by rw [counted_enter]; rfl⟩
  | regCas k lo hi =>
      simp only [act] at h
      split at h <;> cases h
      · rename_i heq
        refine .inr (.inl ⟨congrArg (· + 1) heq.2.symm, ?_⟩)
        split <;> rfl
      · exact .inl ⟨rfl, rfl⟩
  | spinUnlock k sw | cancelpointBegin k sw =>
      cases h
      exact .inl ⟨rfl, by rw [counted_block]; rfl⟩
  | clock k tsp sw =>
      cases h
      refine .inl ⟨rfl, ?_⟩
      split
      · rw [counted_awake]
        rfl
      · rfl
  | wait k sw =>
      simp only [act] at h
      split at h <;> cases h
      · exact .inl ⟨rfl, rfl⟩
      · exact .inl ⟨rfl, by rw [counted_awake]; rfl⟩
  | asleep k sw =>
      obtain ⟨ret, -, h⟩ := Option.map_eq_some_iff.mp h
      cases h
      exact .inl ⟨rfl, by rw [counted_awake]; rfl⟩
  | judge k sw ret =>
      cases h
      rw [if_neg (hok k sw ret rfl)]
      exact .inl ⟨rfl, rfl⟩
  | uncount k sw ret =>
      cases h
      exact .inr (.inr ⟨rfl, by rw [counted_looped]; rfl⟩)
  | cleanCas sw lo hi =>
      simp only [act] at h
      split at h <;> cases h
      · rename_i heq
        refine .inr (.inr ⟨congrArg (· - 1) heq.2.symm, ?_⟩)
        split <;> rfl
      · exact .inl ⟨rfl, rfl⟩
  | sigWake =>
      obtain ⟨q, -, h⟩ := Option.map_eq_some_iff.mp h
      cases h
      exact .inl ⟨rfl, rfl⟩
  | bcRequeue =>
      obtain ⟨m₁, hq, h⟩ := Option.map_eq_some_iff.mp h
      obtain ⟨q, -, rfl⟩ := Option.map_eq_some_iff.mp hq
      cases h
      exact .inl ⟨rfl, rfl⟩
  -- The other steps leave the word alone. None of them begins or ends a counted wait.
  | spinLock k | spinRelock k ret =>
      obtain ⟨-, h⟩ := Option.ite_none_left_eq_some.mp h
      cases h
      exact .inl ⟨rfl, rfl⟩
  | cancelSet u =>
      obtain ⟨-, h⟩ := Option.ite_none_left_eq_some.mp h
      cases h
      refine .inl ⟨rfl, ?_⟩
      split <;> rfl
  | testPending k =>
      simp only [act] at h
      split at h <;> cases h
      · exact .inl ⟨rfl, rfl⟩
      · refine .inl ⟨rfl, ?_⟩
        split <;> rfl
  | sigCas lo hi | bcCas lo hi =>
      simp only [act] at h
      split at h <;> cases h
      · refine .inl ⟨rfl, ?_⟩
        split <;> rfl
      · exact .inl ⟨rfl, rfl⟩
  | unlock k =>
      cases h
      refine .inl ⟨rfl, ?_⟩
      split
      · rfl
      · split <;> rfl
  | checkMutex k | bcMutex | leave k ret cancelled =>
      cases h
      refine .inl ⟨rfl, ?_⟩
      split <;> rfl
  | _ =>
      cases h
      exact .inl ⟨rfl, rfl⟩

/-- Every sound step changes the word with the thread that moves. -/
theorem exec_hi {s : Global T (Mem T) (Pc T)} (hok : Sound s (t, c))
    (h : exec pshared t c s.mem (s.loc t) = some (m, pc)) :
    CountStep s.mem.hi m.hi (counted (s.loc t)).toNat (counted pc).toNat := by
  unfold exec at h
  split at h
  · -- A cancellation leaves the word to `cleanup`.
    rename_i hc
    cases h
    rw [Sound, if_pos hc] at hok
    rw [← hok]
    refine .inl ⟨rfl, ?_⟩
    cases hh : handler (s.loc t) with
    | some sw => rfl
    | none => rfl
  · rename_i hc
    rw [Sound, if_neg hc] at hok
    apply act_hi h
    intro k sw ret hpc
    simpa only [hpc] using hok

/-! ### Whole runs -/

variable [Fintype T]

/-- The number of waits that are registered. -/
def waiters (s : Global T (Mem T) (Pc T)) : ℕ := ∑ t, (counted (s.loc t)).toNat

omit [DecidableEq T] in
/-- It is the number of the threads in them. -/
theorem waiters_eq_card (s : Global T (Mem T) (Pc T)) :
    waiters s = (Finset.univ.filter fun t => counted (s.loc t) = true).card := by
  rw [waiters, Finset.card_filter]
  apply Finset.sum_congr rfl
  intro t _
  cases counted (s.loc t) <;> rfl

/-- The word holds the number of the waits, in every run of sound steps. -/
theorem hi_eq {s : Global T (Mem T) (Pc T)} (h : (machine pshared).ReachVia Sound s) :
    s.mem.hi = BitVec.ofNat 32 (waiters s) := by
  refine Exec.invariant (P := fun s => s.mem.hi = BitVec.ofNat 32 (waiters s)) ?_ ?_ h
  · rintro s ⟨hm, hloc⟩
    have hzero : waiters s = 0 := by simp [waiters, hloc, counted]
    rw [hm, hzero]
    rfl
  · intro s t c m pc hs hok he
    exact word_eq_sum_step (g := fun pc => (counted pc).toNat) hs (exec_hi hok he)

/-- The count of the waiters is exact. -/
structure Exact (pshared : Bool) (s : Global T (Mem T) (Pc T)) : Prop where
  /-- The word is the number of the waits that are registered and not uncounted, while they
  fit into it. -/
  count : waiters s < 2 ^ 32 →
    s.mem.hi.toNat = (Finset.univ.filter fun t => counted (s.loc t) = true).card
  /-- It is 0 when no thread is inside a wait. -/
  zero : (∀ t, waits (s.loc t) = false) → s.mem.hi = 0
  /-- Then `pthread_cond_destroy` returns 0. -/
  destroy : (∀ t, waits (s.loc t) = false) → ∀ t c m pc, s.loc t = .destroy →
    c.cancel = false → exec pshared t c s.mem (s.loc t) = some (m, pc) → pc = .ret (.code .ok)

/-- The waiter count is exact in every run in which no wait leaves its loop because of an
interrupt, and in which a cancellation finds the handler of each counted wait in place. -/
theorem waiters_exact {s : Global T (Mem T) (Pc T)}
    (h : (machine pshared).ReachVia Sound s) : Exact pshared s := by
  have hzero : (∀ t, waits (s.loc t) = false) → s.mem.hi = 0 := by
    intro hno
    have hsum : waiters s = 0 := by
      rw [waiters_eq_card, Finset.card_eq_zero, Finset.filter_eq_empty_iff]
      intro t _ ht
      have hw := waits_of_counted ht
      rw [hno t] at hw
      cases hw
    rw [hi_eq h, hsum]
    rfl
  refine ⟨?_, hzero, ?_⟩
  · intro hfew
    rw [hi_eq h, BitVec.toNat_ofNat, Nat.mod_eq_of_lt hfew, waiters_eq_card]
  · intro hno t c m pc hpc hc he
    have hc' : ¬ c.cancel = true := by simp [hc]
    simp only [exec, if_neg hc', hpc, act, hzero hno, Option.some.injEq, Prod.mk.injEq] at he
    exact he.2.symm

/-- Three threads outside of all calls. -/
def start : Global (Fin 3) (Mem (Fin 3)) (Pc (Fin 3)) :=
  ⟨⟨0, 0, false, ∅, ∅, fun _ => false, fun _ => false, fun _ => false⟩, fun _ => .idle⟩

theorem start_isInit : IsInit start := ⟨rfl, fun _ => rfl⟩

/-- A `pthread` wait and a wait of the Hurd that sleep. -/
theorem waiters_exact_two : ∃ s : Global (Fin 3) (Mem (Fin 3)) (Pc (Fin 3)),
    (machine false).ReachVia Sound s ∧ s.mem.queue = {0, 1} ∧ s.mem.hi = 2 ∧
    Exact false s := by
  obtain ⟨s, hs, hq, hhi⟩ := (machine false).exists_reachVia Sound start_isInit
    [(0, { call := .wait ⟨false, none⟩ }), (0, {}), (0, {}), (0, {}), (0, {}), (0, {}), (0, {}),
      (0, {}), (0, {}), (1, { call := .wait ⟨true, none⟩ }), (1, {}), (1, {}), (1, {}), (1, {}),
      (1, {}), (1, {}), (1, {}), (1, {}), (1, {})]
    (fun s => s.mem.queue = {0, 1} ∧ s.mem.hi = 2) (by decide)
  exact ⟨s, hs, hq, hhi, waiters_exact hs⟩

/-- The kernel interrupts a wait. It returns and is still counted, and
`pthread_cond_destroy` fails although no thread is inside a wait. -/
theorem waiters_exact_fails : ∃ s : Global (Fin 3) (Mem (Fin 3)) (Pc (Fin 3)),
    (machine false).Reach s ∧ (∀ t, waits (s.loc t) = false) ∧
    s.mem.hi = 1 ∧ s.loc 0 = .ret (.code .ebusy) ∧ ¬ Exact false s := by
  obtain ⟨s, hs, hno, hhi, hret⟩ := (machine false).exists_reach start_isInit
    [(0, { call := .wait ⟨false, none⟩ }), (0, {}), (0, {}), (0, {}), (0, {}), (0, {}), (0, {}),
      (0, {}), (0, {}), (0, { ends := some .interrupted }), (0, {}), (0, {}), (0, {}), (0, {}),
      (0, {}), (0, { call := .destroy }), (0, {})]
    (fun s => (∀ t, waits (s.loc t) = false) ∧ s.mem.hi = 1 ∧ s.loc 0 = .ret (.code .ebusy))
    (by decide)
  refine ⟨s, hs, hno, hhi, hret, ?_⟩
  intro h
  have hzero := h.zero hno
  rw [hhi] at hzero
  cases hzero

end Hlpt.Waiters
