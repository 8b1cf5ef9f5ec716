import Hlpt.Barrier.Model

/-!
# `Hlpt.Barrier.Steps`: the steps of a barrier, one by one

An arrival, a release and a return change the pair or a ghost. All other steps move the
thread on (`Moves`), and at most change the references and the two queues (`Step`).

* `step_of_exec`: every step is one of them.
-/

set_option autoImplicit false

namespace Hlpt.Barrier

open Hlpt.Lib

universe u

variable {T : Type u}

/-- A step that leaves the pair and the ghosts alone, with what it has read. -/
inductive Moves (m : Mem T) : Pc → Pc → Prop
  -- `pthread_barrier_wait`, up to the arrival.
  | wait : Moves m .idle .refsAdd
  | refsAdd : Moves m .refsAdd .seqLoad
  | seqLoad : Moves m .seqLoad (.cntAdd m.lo)
  -- Its inner loop.
  | loopSame {seq : BitVec 32} : Moves m (.loopTest seq) (.loopWait seq)
  | loopDone {seq : BitVec 32} (hm : m.lo ≠ seq) : Moves m (.loopTest seq) (.refsDec .zero)
  | loopWait {seq : BitVec 32} : Moves m (.loopWait seq) (.loopAsleep seq)
  | loopChanged {seq : BitVec 32} : Moves m (.loopWait seq) (.loopTest seq)
  | loopAwake {seq : BitVec 32} : Moves m (.loopAsleep seq) (.loopTest seq)
  -- The last thread of a round.
  | relLoad : Moves m .relLoad (.relStore (m.lo + 1))
  | relWake : Moves m .relWake (.refsDec .serialThread)
  -- A thread beyond the round.
  | lateWait {seq : BitVec 32} : Moves m (.lateWait seq) .lateAsleep
  | lateChanged {seq : BitVec 32} : Moves m (.lateWait seq) (.refsDec .zero)
  | lateAwake : Moves m .lateAsleep (.refsDec .zero)
  -- The end of `pthread_barrier_wait`.
  | refsLast {r : WaitRet} : Moves m (.refsDec r) (.refsWake r)
  | refsDec {r : WaitRet} : Moves m (.refsDec r) (.ret r)
  | refsWake {r : WaitRet} : Moves m (.refsWake r) (.ret r)
  -- `pthread_barrier_destroy`
  | destroy : Moves m .idle .destDec
  | destDec {refc : BitVec 32} : Moves m .destDec (.destWait refc)
  | destAlone : Moves m .destDec .destRet
  | destWait {refc : BitVec 32} : Moves m (.destWait refc) .destAsleep
  | destChanged {refc : BitVec 32} : Moves m (.destWait refc) .destLoad
  | destAwake : Moves m .destAsleep .destLoad
  | destLoad {refc : BitVec 32} : Moves m .destLoad (.destWait refc)
  | destDone : Moves m .destLoad .destRet
  | destRet : Moves m .destRet .idle

/-- A step, with what it changes. -/
inductive Step (total : BitVec 32) (m : Mem T) : Local → Mem T → Local → Prop
  | move {pc pc' : Pc} {arrival : ℕ} {nrefs : BitVec 32} {seqSleepers refSleepers : Finset T}
      (hm : Moves m pc pc') :
      Step total m ⟨pc, arrival⟩
        { m with nrefs := nrefs, seqSleepers := seqSleepers, refSleepers := refSleepers }
        ⟨pc', arrival⟩
  | arrive {seq : BitVec 32} {arrival : ℕ} :
      Step total m ⟨.cntAdd seq, arrival⟩ { m with hi := m.hi + 1, arrivals := m.arrivals + 1 }
        ⟨afterAdd total m.hi seq, m.arrivals⟩
  | release {v : BitVec 32} {arrival : ℕ} :
      Step total m ⟨.relStore v, arrival⟩ { m with lo := v, hi := 0 } ⟨.relWake, arrival⟩
  | ret {r : WaitRet} {arrival : ℕ} :
      Step total m ⟨.ret r, arrival⟩
        { m with returned := Function.update m.returned arrival (some r) } ⟨.idle, arrival⟩

variable [DecidableEq T] {total : BitVec 32} {t : T} {c : Choice T} {m m' : Mem T}
  {l l' : Local}

/-- Every step is one of them. -/
theorem step_of_exec (h : exec total t c m l = some (m', l')) : Step total m l m' l' := by
  rcases l with ⟨pc, arrival⟩
  cases pc with
  | idle =>
    cases hc : c.call with
    | wait =>
      simp only [exec, hc] at h
      cases h
      exact .move .wait
    | destroy =>
      simp only [exec, hc] at h
      cases h
      exact .move .destroy
  | refsAdd =>
    cases h
    exact .move .refsAdd
  | seqLoad =>
    cases h
    exact .move .seqLoad
  | cntAdd seq =>
    cases h
    exact .arrive
  | loopTest seq =>
    cases h
    refine .move ?_
    split
    · exact .loopSame
    · next hm => exact .loopDone hm
  | loopWait seq =>
    simp only [exec] at h
    split at h
    · cases h
      exact .move .loopWait
    · cases h
      exact .move .loopChanged
  | loopAsleep seq =>
    obtain ⟨-, h⟩ := Option.ite_none_left_eq_some.mp h
    cases h
    exact .move .loopAwake
  | relLoad =>
    cases h
    exact .move .relLoad
  | relStore v =>
    cases h
    exact .release
  | relWake =>
    cases h
    exact .move .relWake
  | lateWait seq =>
    simp only [exec] at h
    split at h
    · cases h
      exact .move .lateWait
    · cases h
      exact .move .lateChanged
  | lateAsleep =>
    obtain ⟨-, h⟩ := Option.ite_none_left_eq_some.mp h
    cases h
    exact .move .lateAwake
  | refsDec r =>
    cases h
    refine .move ?_
    split
    · exact .refsLast
    · exact .refsDec
  | refsWake r =>
    obtain ⟨q, -, hr⟩ := Option.map_eq_some_iff.mp h
    cases hr
    exact .move .refsWake
  | ret r =>
    cases h
    exact .ret
  | destDec =>
    cases h
    refine .move ?_
    split
    · exact .destDec
    · exact .destAlone
  | destWait refc =>
    simp only [exec] at h
    split at h
    · cases h
      exact .move .destWait
    · cases h
      exact .move .destChanged
  | destAsleep =>
    obtain ⟨-, h⟩ := Option.ite_none_left_eq_some.mp h
    cases h
    exact .move .destAwake
  | destLoad =>
    cases h
    refine .move ?_
    split
    · exact .destLoad
    · exact .destDone
  | destRet =>
    cases h
    exact .move .destRet

end Hlpt.Barrier
