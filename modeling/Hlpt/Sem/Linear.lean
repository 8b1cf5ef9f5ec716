import Hlpt.Lib.Linear
import Hlpt.Sem.Model

/-!
# `Hlpt.Sem.Linear`: the semaphore is an atomic counter

A post, a try and a wait that succeed take effect at the compare-and-swap of the count, of
the whole word in a wait of the slow path. The count of the waiters in the high half, the
queue, the sleeps and the wakes are no part of the atomic counter: a waiter that was woken
and lost the count to another thread has done nothing yet.

* `sem_linearizable`: every history of `sem_post`, `sem_trywait`, `sem_wait` and
  `sem_timedwait` on one semaphore is a history of `counter`. A thread that is cancelled in
  a wait takes no count.
-/

set_option autoImplicit false

namespace Hlpt.Sem

open Hlpt.Lib

universe u

/-- What ends a call: its code, or `none` for a cancellation. -/
abbrev Result := Option Code

/-- The wait checks no deadline, or a good one. -/
def WaitCall.good : WaitCall → Bool
  | wait => true
  | timedwait tsp => !tsp.badNsec

/-- How a wait may end without the count. A wait with a bad deadline never sleeps: it fails
when it finds the count 0. -/
def WaitCall.gives (k : WaitCall) (n : ℕ) : Result → Bool
  | some .etimedout => k.timed && (k.good || n = 0)
  | some .eintr => k.good
  | none => k.good
  | some _ => false

/-- The atomic counter. -/
def counter (T : Type u) : Object T ℕ Call Result where
  init n := n ≤ SEM_VALUE_MAX.toNat
  apply _ o r n :=
    match o, r with
    | .post, some .ok => if n < SEM_VALUE_MAX.toNat then some (n + 1) else none
    | .post, some .eoverflow => if n = SEM_VALUE_MAX.toNat then some n else none
    | .trywait, some .ok => if 0 < n then some (n - 1) else none
    | .trywait, some .eagain => if n = 0 then some n else none
    | .wait _, some .ok => if 0 < n then some (n - 1) else none
    | .wait k, r => if k.gives n r then some n else none
    | _, _ => none

/-- The call that runs `__sem_trywait`. -/
def TryCall.call : TryCall → Call
  | trywait => .trywait
  | first k => .wait k

/-- How far a thread is with its call. -/
def callPhase : Pc → Phase Call Result
  | .idle => .idle
  | .postLoad | .postCas .. => .called .post
  | .postWake => .done (some .ok)
  | .tryLoad k | .tryCas k _ => .called k.call
  | .addLoad k | .addCas k .. | .look k | .take k .. | .cancelpointBegin k | .wait k
  | .asleep k | .cancelpointEnd k _ => .called (.wait k)
  | .clock tsp => .called (.wait (.timedwait tsp))
  | .cleanLoad r | .cleanCas r .. => .done r
  | .ret r => .done (some r)
  | .gone => .done none

variable {T : Type u}

/-- The event of an access: an idle thread calls an operation, or its call returns. -/
def event (c : Choice T) : Pc → Option (Event Call Result)
  | .idle => some (.inv c.call)
  | .ret r => some (.res (some r))
  | _ => none

/-- The event of a step. A cancellation is none: the call does not return. -/
def label (c : Choice T) (pc : Pc) : Option (Event Call Result) :=
  if c.cancel then none else event c pc

/-- What a thread knows from its last load, and from its check of the deadline. -/
def Knows : Pc → Prop
  | .postCas lo _ => lo ≠ SEM_VALUE_MAX
  | .tryCas _ val => val ≠ 0
  | .take _ lo _ => lo ≠ 0
  | .cancelpointBegin k | .wait k | .asleep k => k.good = true
  | .clock tsp => tsp.badNsec = false
  | .cancelpointEnd k res => k.good = true ∧ (res = .timedout → k.timed = true)
  | _ => True

/-- A count that is not 0 has a predecessor. -/
theorem pred_of_ne {lo : BitVec 32} (h : lo ≠ 0) :
    0 < lo.toNat ∧ (lo - 1).toNat = lo.toNat - 1 := by
  have hpos : lo.toNat ≠ 0 := fun h0 => h (BitVec.eq_of_toNat_eq h0)
  exact ⟨by omega, by bv_omega⟩

/-- A count below the maximum has a successor. -/
theorem succ_of_ne {lo : BitVec 32} (h : lo ≠ SEM_VALUE_MAX)
    (hle : lo.toNat ≤ SEM_VALUE_MAX.toNat) :
    lo.toNat < SEM_VALUE_MAX.toNat ∧ (lo + 1).toNat = lo.toNat + 1 := by
  have hne : lo.toNat ≠ SEM_VALUE_MAX.toNat := fun h0 => h (BitVec.eq_of_toNat_eq h0)
  have hmax : SEM_VALUE_MAX.toNat = 2147483647 := by decide
  exact ⟨by omega, by bv_omega⟩

/-- A wait that ends without the count leaves it alone. -/
theorem moves_gives {t : T} {k : WaitCall} {n : ℕ} {r : Result} (h : k.gives n r = true) :
    (counter T).Moves t none (.called (.wait k)) n (.done r) n := by
  refine .eff ?_
  have happly : (counter T).apply t (.wait k) r n = if k.gives n r then some n else none := by
    rcases r with _ | r
    · rfl
    · cases r with
      | ok => cases h
      | _ => rfl
  rw [happly, if_pos h]

/-- A call that takes one from a positive count. -/
theorem moves_take {t : T} {o : Call} {n : ℕ} (ho : o = .trywait ∨ ∃ k, o = .wait k)
    (h : 0 < n) : (counter T).Moves t none (.called o) n (.done (some .ok)) (n - 1) := by
  refine .eff ?_
  rcases ho with rfl | ⟨k, rfl⟩ <;> exact if_pos h

/-- A cancellation ends a wait that takes no count. -/
theorem moves_cancel {t : T} {pc : Pc} {n : ℕ} (hin : InCancelpoint pc = true)
    (hpc : Knows pc) : (counter T).Moves t none (callPhase pc) n (.done none) n := by
  cases pc <;> cases hin
  case clock tsp =>
    exact moves_gives (k := .timedwait tsp)
      (by simpa [Knows, WaitCall.gives, WaitCall.good] using hpc)
  case cancelpointEnd k res => exact moves_gives hpc.1
  all_goals exact moves_gives hpc

variable [DecidableEq T]

/-- Only a timed wait times out. -/
theorem timed_of_sleepEnd {asleep timed : Bool} {ends : Option WaitEnd}
    (h : sleepEnd asleep timed ends = some .timedout) : timed = true := by
  cases asleep <;> cases timed <;> rcases ends with _ | _ | _ <;> simp_all [sleepEnd]

/-- A waiter that finds the count 0 goes on with a good deadline, or fails. -/
theorem knows_blocked (k : WaitCall) : Knows k.blocked := by
  cases k with
  | wait => rfl
  | timedwait tsp =>
      rw [WaitCall.blocked]
      split
      · trivial
      · next hgood => simpa [Knows, WaitCall.good] using hgood

/-- A thread knows what its last access told. -/
theorem knows_of_act {t : T} {c : Choice T} {m m' : Mem T} {pc pc' : Pc} (hpc : Knows pc)
    (h : act t c m pc = some (m', pc')) : Knows pc' := by
  cases pc with
  | idle =>
      cases h
      cases c.call <;> trivial
  | postLoad =>
      cases h
      split
      · trivial
      · next hne => exact hne
  | postCas lo hi =>
      simp only [act] at h
      split at h <;> cases h
      · split <;> trivial
      · trivial
  | postWake =>
      obtain ⟨q, -, heq⟩ := Option.map_eq_some_iff.mp h
      cases heq
      trivial
  | tryLoad k =>
      cases h
      split
      · cases k <;> trivial
      · next hne => exact hne
  | tryCas k val =>
      simp only [act] at h
      split at h <;> cases h <;> trivial
  | addLoad k =>
      cases h
      trivial
  | addCas k lo hi =>
      simp only [act] at h
      split at h <;> cases h <;> trivial
  | look k =>
      cases h
      split
      · next hne => exact hne
      · exact knows_blocked k
  | take k lo hi =>
      simp only [act] at h
      split at h <;> cases h <;> trivial
  | cancelpointBegin k =>
      cases h
      cases k with
      | wait => rfl
      | timedwait tsp =>
          show tsp.badNsec = false
          simpa [Knows, WaitCall.good] using hpc
  | clock tsp =>
      cases h
      have hgood : (WaitCall.timedwait tsp).good = true := by simpa [Knows, WaitCall.good] using hpc
      split
      · exact ⟨hgood, fun _ => rfl⟩
      · exact hgood
  | wait k =>
      simp only [act] at h
      split at h <;> cases h
      · exact hpc
      · exact ⟨hpc, fun hres => by cases hres⟩
  | asleep k =>
      obtain ⟨res, hres, heq⟩ := Option.map_eq_some_iff.mp h
      cases heq
      exact ⟨hpc, fun hlate => timed_of_sleepEnd (hlate ▸ hres)⟩
  | cancelpointEnd k res =>
      cases h
      cases res <;> (try trivial)
      rw [WaitCall.resume]
      split <;> trivial
  | cleanLoad r =>
      cases h
      trivial
  | cleanCas r lo hi =>
      simp only [act] at h
      split at h <;> cases h
      · cases r <;> trivial
      · trivial
  | ret r =>
      cases h
      trivial
  | gone => cases h

/-- One access of a thread is nothing to the atomic counter, or the effect of its call. -/
theorem moves_of_act {t : T} {c : Choice T} {m m' : Mem T} {pc pc' : Pc}
    (h : act t c m pc = some (m', pc')) (hpc : Knows pc)
    (hle : m.lo.toNat ≤ SEM_VALUE_MAX.toNat) :
    (counter T).Moves t (event c pc) (callPhase pc) m.lo.toNat (callPhase pc') m'.lo.toNat ∧
      m'.lo.toNat ≤ SEM_VALUE_MAX.toNat := by
  cases pc with
  | idle =>
      cases h
      refine ⟨?_, hle⟩
      cases hcall : c.call <;> simp only [event, hcall] <;> exact .inv _
  | postLoad =>
      cases h
      refine ⟨?_, hle⟩
      split
      · next hmax =>
        -- The semaphore is full: the call fails with the load.
        refine .eff (if_pos ?_)
        rw [hmax]
      · exact .stutter
  | postCas lo hi =>
      simp only [act] at h
      split at h
      · next hm =>
        obtain ⟨rfl, rfl⟩ := hm
        cases h
        obtain ⟨hlt, hsucc⟩ := succ_of_ne hpc hle
        -- The count is higher from here on, whether or not a waiter has to be woken.
        have heff : (counter T).apply t .post (some .ok) m.lo.toNat = some (m.lo.toNat + 1) :=
          if_pos hlt
        dsimp only
        rw [hsucc]
        refine ⟨?_, hlt⟩
        split <;> exact .eff heff
      · cases h
        exact ⟨.stutter, hle⟩
  | postWake =>
      obtain ⟨q, -, heq⟩ := Option.map_eq_some_iff.mp h
      cases heq
      exact ⟨.stutter, hle⟩
  | tryLoad k =>
      cases h
      refine ⟨?_, hle⟩
      split
      · next h0 =>
        cases k with
        -- `sem_trywait` fails with its load. For the others it is only a first try.
        | trywait =>
            refine .eff (if_pos ?_)
            rw [h0]
            rfl
        | first k => exact .stutter
      · exact .stutter
  | tryCas k val =>
      simp only [act] at h
      split at h
      · next hm =>
        cases h
        subst hm
        obtain ⟨hpos, hpred⟩ := pred_of_ne hpc
        dsimp only
        rw [hpred]
        -- A try that succeeds is the effect of both calls.
        refine ⟨moves_take ?_ hpos, by omega⟩
        cases k with
        | trywait => exact .inl rfl
        | first k => exact .inr ⟨k, rfl⟩
      · cases h
        exact ⟨.stutter, hle⟩
  | addLoad k =>
      cases h
      exact ⟨.stutter, hle⟩
  | addCas k lo hi =>
      simp only [act] at h
      split at h <;> cases h <;> exact ⟨.stutter, hle⟩
  | look k =>
      cases h
      refine ⟨?_, hle⟩
      split
      · exact .stutter
      · next h0 =>
        cases k with
        | wait => exact .stutter
        | timedwait tsp =>
            rw [WaitCall.blocked]
            split
            · -- The deadline is looked at once the count is 0, and it is bad.
              refine moves_gives ?_
              have hzero : m.lo.toNat = 0 := by
                rw [not_not.mp h0]
                rfl
              simp [WaitCall.gives, WaitCall.timed, hzero]
            · exact .stutter
  | take k lo hi =>
      simp only [act] at h
      split at h
      · next hm =>
        obtain ⟨rfl, rfl⟩ := hm
        cases h
        obtain ⟨hpos, hpred⟩ := pred_of_ne hpc
        dsimp only
        rw [hpred]
        exact ⟨moves_take (.inr ⟨k, rfl⟩) hpos, by omega⟩
      · cases h
        exact ⟨.stutter, hle⟩
  | cancelpointBegin k =>
      cases h
      refine ⟨?_, hle⟩
      cases k <;> exact .stutter
  | clock tsp =>
      cases h
      refine ⟨?_, hle⟩
      split <;> exact .stutter
  | wait k =>
      simp only [act] at h
      split at h <;> cases h <;> exact ⟨.stutter, hle⟩
  | asleep k =>
      obtain ⟨res, -, heq⟩ := Option.map_eq_some_iff.mp h
      cases heq
      exact ⟨.stutter, hle⟩
  | cancelpointEnd k res =>
      cases h
      obtain ⟨hgood, htimed⟩ := hpc
      refine ⟨?_, hle⟩
      cases res with
      | interrupted => exact moves_gives hgood
      | timedout =>
          -- The sleep is over for some time. A timeout asks nothing of the count, so it may
          -- take effect as late as here.
          rw [WaitCall.resume, if_pos (htimed rfl)]
          exact moves_gives (by simp [WaitCall.gives, htimed rfl, hgood])
      | _ => exact .stutter
  | cleanLoad r =>
      cases h
      exact ⟨.stutter, hle⟩
  | cleanCas r lo hi =>
      simp only [act] at h
      split at h <;> cases h
      · refine ⟨?_, hle⟩
        cases r <;> exact .stutter
      · exact ⟨.stutter, hle⟩
  | ret r =>
      cases h
      exact ⟨.res _, hle⟩
  | gone => cases h

/-- The accesses simulate the atomic counter. -/
theorem simulates : exec.Simulates (T := T) IsInit (fun _ _ => True) label (counter T)
    (fun pc q => q = callPhase pc) (fun s => ∀ t, Knows (s.loc t))
    fun s n => s.mem.lo.toNat = n ∧ n ≤ SEM_VALUE_MAX.toNat where
  init := by
    rintro s ⟨⟨val, hval⟩, hidle⟩
    have hle : s.mem.lo.toNat ≤ SEM_VALUE_MAX.toNat := by
      rw [semInit] at hval
      split at hval
      · cases hval
      · next hmax =>
        rw [← Except.ok.inj hval]
        exact not_lt.mp hmax
    exact ⟨⟨_, hle, rfl, hle⟩, fun t => by rw [hidle t]; rfl⟩
  step := by
    rintro s t c m pc n q hknows ⟨rfl, hle⟩ rfl - he
    refine ⟨m.lo.toNat, callPhase pc, ?_⟩
    rw [exec] at he
    by_cases hc : c.cancel = true
    · rw [if_pos hc] at he
      split at he
      · next hin =>
        cases he
        rw [label, if_pos hc]
        exact ⟨moves_cancel hin (hknows t), rfl, rfl, hle⟩
      · cases he
    · rw [if_neg hc] at he
      rw [label, if_neg hc]
      obtain ⟨hmove, hle'⟩ := moves_of_act he (hknows t) hle
      exact ⟨hmove, rfl, rfl, hle'⟩

/-- Every thread knows what it needs to, in every reachable state. -/
theorem knows_of_reach {s : Global T (Mem T) Pc} (h : machine.Reach s) (t : T) :
    Knows (s.loc t) := by
  refine Exec.invariant_loc (fun s t hs => ?_) (fun t c m pc m' pc' hpc he => ?_) h t
  · rw [hs.2 t]
    trivial
  · rw [exec] at he
    split at he
    · split at he <;> cases he
      trivial
    · exact knows_of_act hpc he

/-- Every history of a semaphore is a history of the atomic counter, whatever the order of
the accesses, wakes, interruptions, timeouts and cancellations. -/
theorem sem_linearizable {H : List (T × Event Call Result)} {s : Global T (Mem T) Pc}
    (h : exec.History IsInit (fun _ _ => True) label H s) : (counter T).Linearizable H :=
  h.linearizable (fun _ hs => knows_of_reach hs) simulates

/-- The thread 0 sleeps on the empty semaphore. The thread 1 posts, and its try takes the
count from the woken thread 0, which sleeps again and is interrupted. -/
theorem sem_linearizable_overtaken : (counter (Fin 2)).Linearizable
    [(0, .inv (.wait .wait)), (1, .inv .post), (1, .res (some .ok)), (1, .inv .trywait),
      (1, .res (some .ok)), (0, .res (some .eintr))] := by
  have hrun : ∃ s, (exec (T := Fin 2)).History IsInit (fun _ _ => True) label
      [(0, .inv (.wait .wait)), (1, .inv .post), (1, .res (some .ok)), (1, .inv .trywait),
        (1, .res (some .ok)), (0, .res (some .eintr))] s :=
    Exec.exists_history_run (s := ⟨⟨0, 0, ∅⟩, fun _ => .idle⟩) ⟨⟨0, rfl⟩, fun _ => rfl⟩
      [(0, { call := .wait .wait }), (0, {}), (0, {}), (0, {}), (0, {}), (0, {}), (0, {}),
        (1, {}), (1, {}), (1, {}), (1, { pick := some 0 }), (1, {}),
        (1, { call := .trywait }), (1, {}), (1, {}), (1, {}),
        (0, {}), (0, {}), (0, {}), (0, {}), (0, {}), (0, { ends := some .interrupted }),
        (0, {}), (0, {}), (0, {}), (0, {})] (by decide)
  obtain ⟨s, hs⟩ := hrun
  exact sem_linearizable hs

end Hlpt.Sem
