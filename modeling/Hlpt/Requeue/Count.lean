import Hlpt.Lib.Counter
import Hlpt.Requeue.Steps

/-!
# `Hlpt.Requeue.Count`: the waiters that the word counts, and the remembered mutex

The high half of `__seq_nw` counts the waits that are registered. A wait that the kernel
interrupts leaves the loop through `continue`, without the decrement. The word goes on
counting it: `leaks` says when that happens.

* `exec_hi`: what a step does to the count.
* `exec_mutex`: what a step does with `__mutex`.
-/

set_option autoImplicit false

namespace Hlpt.Requeue

open Hlpt.Lib

universe u

variable {T : Type u}

/-- A waiter that is registered: from the compare-and-swap of `atomic_addx_hi` until it is
uncounted or leaves without being so. -/
def Registered : Pc T → Bool
  | .setHook .. | .spinUnlock .. | .cancelpointBegin .. | .clock .. | .wait .. | .asleep ..
  | .cancelpointEnd .. | .uncount .. | .cleanLoad _ | .cleanCas .. => true
  | _ => false

/-- A step with which a wait leaves without being uncounted. -/
def leaks : Pc T → Pc T → Bool
  | .asleep .., .spinRelock _ | .cancelpointEnd .., .spinRelock _
  | .cancelpointEnd .., .relock .. => true
  | _, _ => false

/-- How often the word counts a thread after a step. -/
def counted (pc pc' : Pc T) : ℕ := (Registered pc').toNat + (leaks pc pc').toNat

namespace WaitCall

variable {k : WaitCall} {sw : BitVec 32} {ret : KernReturn} {pc : Pc T}

/-- A wait before it blocks is registered. -/
theorem registered_block : Registered (k.block sw : Pc T) = true := by
  rw [block]
  split <;> rfl

/-- So is one that has just registered. -/
theorem registered_registered : Registered (k.registered sw : Pc T) = true := by
  rw [registered]
  split <;> rfl

/-- A wait that is no longer counted is not registered. -/
theorem registered_uncounted : Registered (k.uncounted ret : Pc T) = false := by
  by_cases hk : k.hurd
  · have hpc : k.uncounted ret = (.spinRelock k : Pc T) := if_pos hk
    rw [hpc]
    rfl
  · obtain ⟨r, hpc⟩ : ∃ r, k.uncounted ret = (.relock r (.lockTest none) : Pc T) :=
      ⟨_, if_neg hk⟩
    rw [hpc]
    rfl

/-- A wait that the kernel ended and did not interrupt is still registered. -/
theorem registered_awake (hret : ret ≠ .interrupted) :
    Registered (k.awake sw ret : Pc T) = true := by
  rw [awake]
  split
  · rw [ended, if_neg hret]
    rfl
  · rfl

/-- The word counts a sleeper as before when it wakes up. -/
theorem counted_awake : counted (.asleep k sw : Pc T) (k.awake sw ret) = 1 := by
  by_cases hk : k.hurd
  · by_cases hret : ret = .interrupted
    · have hpc : k.awake sw ret = (.spinRelock k : Pc T) :=
        (if_pos hk).trans ((if_pos hret).trans (if_pos hk))
      rw [hpc]
      rfl
    · have hpc : k.awake sw ret = (.uncount k ret : Pc T) := (if_pos hk).trans (if_neg hret)
      rw [hpc]
      rfl
  · have hpc : k.awake sw ret = (.cancelpointEnd k sw ret : Pc T) := if_neg hk
    rw [hpc]
    rfl

/-- So it does when the wait leaves the cancellation point. -/
theorem counted_ended : counted (.cancelpointEnd k sw ret : Pc T) (k.ended ret) = 1 := by
  by_cases hret : ret = .interrupted
  · have hpc : k.ended ret = (k.uncounted ret : Pc T) := if_pos hret
    rw [hpc]
    by_cases hk : k.hurd
    · have hpc : k.uncounted ret = (.spinRelock k : Pc T) := if_pos hk
      rw [hpc]
      rfl
    · obtain ⟨r, hpc⟩ : ∃ r, k.uncounted ret = (.relock r (.lockTest none) : Pc T) :=
        ⟨_, if_neg hk⟩
      rw [hpc]
      rfl
  · have hpc : k.ended ret = (.uncount k ret : Pc T) := if_neg hret
    rw [hpc]
    rfl

end WaitCall

/-- Outside of the sleep and of the cancellation point nothing leaks. -/
theorem counted_of_not_leaks {pc pc' : Pc T} (h : leaks pc pc' = false) :
    counted pc pc' = (Registered pc').toNat := by
  rw [counted, h]
  rfl

variable [DecidableEq T] {t : T} {c : Choice T} {m m' : Mem T} {l l' : Local T}

/-- An access to the lock word changes nothing else. -/
theorem onWord_frame {p : LowLevelLock.Pc} {next : LowLevelLock.Pc → Pc T}
    (h : onWord t c m l p next = some (m', l')) :
    ∃ w q, m' = { m with lock := w } ∧ l'.pc = next q := by
  obtain ⟨⟨w, q⟩, -, hr⟩ := Option.map_eq_some_iff.mp h
  cases hr
  exact ⟨w, q.pc, rfl, rfl⟩

omit [DecidableEq T] in
/-- A call starts unregistered. -/
theorem registered_enter {call : Call T} {pc : Pc T} (h : enter l call = some pc) :
    Registered pc = false := by
  cases call with
  | unlock =>
      obtain ⟨-, hp⟩ := Option.ite_none_right_eq_some.mp h
      cases hp
      rfl
  | wait k =>
      obtain ⟨-, hp⟩ := Option.ite_none_right_eq_some.mp h
      split at hp
      · cases hp
        rfl
      · split at hp <;> obtain rfl := Option.some.inj hp <;> rfl
  | _ =>
      cases h
      rfl

omit [DecidableEq T] in
/-- A step that changes nothing counts nobody else. -/
theorem Reads.counted {pc pc' : Pc T} (h : Reads m pc pc') :
    counted pc pc' = (Registered pc).toNat := by
  cases h with
  | cancelpointBegin =>
    rw [counted_of_not_leaks rfl, WaitCall.registered_block]
    rfl
  | past | changed =>
    rw [counted_of_not_leaks rfl, WaitCall.registered_awake (by decide)]
    rfl
  | cancelpointEnd => exact WaitCall.counted_ended
  | _ => rfl

/-- The word counts the waits that are registered, and the ones that left without being
uncounted. A cancellation changes nothing in the count: `cleanup` has still to uncount the
wait. -/
theorem exec_hi (h : exec t c m l = some (m', l')) :
    CountStep m.hi m'.hi (Registered l.pc).toNat (counted l.pc l'.pc) := by
  cases step_of_exec h with
  | call hcall =>
    refine .inl ⟨rfl, (counted_of_not_leaks rfl).trans ?_⟩
    rw [registered_enter hcall]
    rfl
  | read hm => exact .inl ⟨rfl, hm.counted⟩
  -- Inside the lock nobody is registered, and nobody is after it.
  | mutex hword | unlock hword | relock hword =>
    obtain ⟨w, q, rfl, hpc⟩ := onWord_frame hword
    rw [hpc]
    exact .inl ⟨rfl, by cases q <;> rfl⟩
  | regCas =>
    refine .inr (.inl ⟨rfl, (counted_of_not_leaks rfl).trans ?_⟩)
    rw [WaitCall.registered_registered]
    rfl
  | spinUnlock =>
    refine .inl ⟨rfl, (counted_of_not_leaks rfl).trans ?_⟩
    rw [WaitCall.registered_block]
    rfl
  | awake => exact .inl ⟨rfl, WaitCall.counted_awake⟩
  | uncount =>
    refine .inr (.inr ⟨rfl, ?_⟩)
    rw [counted_of_not_leaks rfl, WaitCall.registered_uncounted]
    rfl
  | @cancelled pc _ _ hsw =>
    refine .inl ⟨rfl, ?_⟩
    cases pc <;> first | rfl | cases hsw
  | cleanCas | cleanSame => exact .inr (.inr ⟨rfl, rfl⟩)
  | bcRequeue hreq =>
    obtain ⟨q, -, rfl⟩ := Option.map_eq_some_iff.mp hreq
    exact .inl ⟨rfl, rfl⟩
  | _ => exact .inl ⟨rfl, rfl⟩

/-! ### The remembered mutex -/

/-- The control points that a test of `condp->__mutex` leads to. -/
def AsksMutex : Pc T → Bool
  | .storeMutex _ | .bcRequeue => true
  | _ => false

namespace WaitCall

variable {k : WaitCall} {sw : BitVec 32} {ret : KernReturn}

omit [DecidableEq T] in
/-- A wait that is no longer counted does not look at `__mutex`. -/
theorem asksMutex_uncounted : AsksMutex (k.uncounted ret : Pc T) = false := by
  by_cases hk : k.hurd
  · have hpc : k.uncounted ret = (.spinRelock k : Pc T) := if_pos hk
    rw [hpc]
    rfl
  · obtain ⟨r, hpc⟩ : ∃ r, k.uncounted ret = (.relock r (.lockTest none) : Pc T) :=
      ⟨_, if_neg hk⟩
    rw [hpc]
    rfl

omit [DecidableEq T] in
/-- Neither does one that leaves the kernel. -/
theorem asksMutex_ended : AsksMutex (k.ended ret : Pc T) = false := by
  rw [ended]
  split
  · exact asksMutex_uncounted
  · rfl

omit [DecidableEq T] in
/-- Neither does one that the kernel has ended. -/
theorem asksMutex_awake : AsksMutex (k.awake sw ret : Pc T) = false := by
  rw [awake]
  split
  · exact asksMutex_ended
  · rfl

end WaitCall

omit [DecidableEq T] in
/-- A call does not start there. -/
theorem asksMutex_enter {call : Call T} {pc : Pc T} (h : enter l call = some pc) :
    AsksMutex pc = false := by
  cases call with
  | unlock =>
      obtain ⟨-, hp⟩ := Option.ite_none_right_eq_some.mp h
      cases hp
      rfl
  | wait k =>
      obtain ⟨-, hp⟩ := Option.ite_none_right_eq_some.mp h
      split at hp
      · cases hp
        rfl
      · split at hp <;> obtain rfl := Option.some.inj hp <;> rfl
  | _ =>
      cases h
      rfl

omit [DecidableEq T] in
/-- Nor does it start to sleep there. -/
theorem WaitCall.asksMutex_block {k : WaitCall} {sw : BitVec 32} :
    AsksMutex (k.block sw : Pc T) = false := by
  rw [block]
  split <;> rfl

/-- What a step does with `__mutex`: a wait looks at it, a wait sets it, a broadcast looks
at it, or it plays no part. -/
theorem exec_mutex (h : exec t c m l = some (m', l')) :
    (∃ k, l.pc = .checkMutex k ∧ m'.mutex = m.mutex ∧
      l'.pc = if m.mutex then .unlock k .unlockSwap else .storeMutex k) ∨
    (∃ k, l.pc = .storeMutex k ∧ m'.mutex = true ∧ AsksMutex l'.pc = false) ∨
    (l.pc = .bcMutex ∧ m'.mutex = m.mutex ∧ l'.pc = if m.mutex then .bcRequeue else .bcWake) ∨
    ((∀ k, l.pc ≠ .checkMutex k ∧ l.pc ≠ .storeMutex k) ∧ AsksMutex l'.pc = false ∧
      m'.mutex = m.mutex) := by
  cases step_of_exec h with
  | call hcall =>
    exact .inr (.inr (.inr ⟨fun _ => ⟨nofun, nofun⟩, asksMutex_enter hcall, rfl⟩))
  | read hm =>
    cases hm with
    | checkMutex hmutex => exact .inl ⟨_, rfl, rfl, (if_pos hmutex).symm⟩
    | noMutex hmutex => exact .inl ⟨_, rfl, rfl, (if_neg (by rw [hmutex]; decide)).symm⟩
    | bcMutex hmutex => exact .inr (.inr (.inl ⟨rfl, rfl, (if_pos hmutex).symm⟩))
    | bcNoMutex hmutex =>
      exact .inr (.inr (.inl ⟨rfl, rfl, (if_neg (by rw [hmutex]; decide)).symm⟩))
    | cancelpointBegin =>
      exact .inr (.inr (.inr ⟨fun _ => ⟨nofun, nofun⟩, WaitCall.asksMutex_block, rfl⟩))
    | past | changed =>
      exact .inr (.inr (.inr ⟨fun _ => ⟨nofun, nofun⟩, WaitCall.asksMutex_awake, rfl⟩))
    | cancelpointEnd =>
      exact .inr (.inr (.inr ⟨fun _ => ⟨nofun, nofun⟩, WaitCall.asksMutex_ended, rfl⟩))
    | _ => exact .inr (.inr (.inr ⟨fun _ => ⟨nofun, nofun⟩, rfl, rfl⟩))
  | storeMutex => exact .inr (.inl ⟨_, rfl, rfl, rfl⟩)
  | mutex hword | unlock hword | relock hword =>
    obtain ⟨w, q, rfl, hpc⟩ := onWord_frame hword
    rw [hpc]
    exact .inr (.inr (.inr ⟨fun _ => ⟨nofun, nofun⟩, by cases q <;> rfl, rfl⟩))
  | @regCas k =>
    refine .inr (.inr (.inr ⟨fun _ => ⟨nofun, nofun⟩, ?_, rfl⟩))
    show AsksMutex (k.registered m.lo) = false
    rw [WaitCall.registered]
    split <;> rfl
  | spinUnlock =>
    exact .inr (.inr (.inr ⟨fun _ => ⟨nofun, nofun⟩, WaitCall.asksMutex_block, rfl⟩))
  | awake => exact .inr (.inr (.inr ⟨fun _ => ⟨nofun, nofun⟩, WaitCall.asksMutex_awake, rfl⟩))
  | uncount =>
    exact .inr (.inr (.inr ⟨fun _ => ⟨nofun, nofun⟩, WaitCall.asksMutex_uncounted, rfl⟩))
  | cancelled hsw =>
    -- No test or store of `__mutex` is inside a cancellation point.
    refine .inr (.inr (.inr ⟨fun k => ⟨?_, ?_⟩, rfl, rfl⟩)) <;>
      · rintro rfl
        cases hsw
  | bcRequeue hreq =>
    obtain ⟨q, -, rfl⟩ := Option.map_eq_some_iff.mp hreq
    exact .inr (.inr (.inr ⟨fun _ => ⟨nofun, nofun⟩, rfl, rfl⟩))
  | _ => exact .inr (.inr (.inr ⟨fun _ => ⟨nofun, nofun⟩, rfl, rfl⟩))

end Hlpt.Requeue
