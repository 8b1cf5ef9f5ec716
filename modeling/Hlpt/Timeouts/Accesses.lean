import Hlpt.Rwlock.Steps
import Hlpt.Sem.Steps
import Hlpt.Timeouts.Model

/-!
# `Hlpt.Timeouts.Accesses`: the whole calls, access by access

A whole call that needs no nap is what `Hlpt.Rwlock`, `Hlpt.Sem` and `Hlpt.Termination` do
access by access, when the thread moves alone.

With other threads in between, a call may look at its timeout more than once. Still nobody
waits in a read-write lock or in a semaphore with invalid nanoseconds.

* `timedrdlock_alone`, `timedwrlock_alone`, `timedwait_alone`, `timedjoin_alone`: the four
  calls.
* `rwlock_waits_valid`, `sem_waits_valid`: the runs.
-/

set_option autoImplicit false

namespace Hlpt.Timeouts

open Hlpt.Lib

universe u

variable {T : Type u} [DecidableEq T] {c : Code} {tsp : Timespec} {t : T}

/-! ### One call alone -/

section Rwlock

variable {I : Hlpt.Rwlock.Ids T} {pid : BitVec 32} {m : Hlpt.Rwlock.Mem T}
  {l : Hlpt.Rwlock.Local} {rw rw' : Rwlock}

/-- The three words that `Hlpt.Rwlock` has. -/
structure SameWords (m : Hlpt.Rwlock.Mem T) (rw : Rwlock) : Prop where
  oid : rw.oid = m.oid
  nrd : rw.nrd = m.nrd
  nwr : rw.nwr = m.nwr

omit [DecidableEq T] in
theorem SameWords.ownedP (hw : SameWords m rw) :
    rw.ownedP ⟨I.id t, pid⟩ false = true ↔ m.oid = I.id t := by
  simp [Rwlock.ownedP, hw.oid]

/-- `pthread_rwlock_timedrdlock` on a process-private lock. -/
theorem timedrdlock_alone (hw : SameWords m rw) (hl : l.pc = .rdOwned (.timedrdlock tsp))
    (h : Rwlock.pthreadRwlockTimedrdlock ⟨I.id t, pid⟩ false tsp [] rw = some (c, rw')) :
    ∃ cs m' l', (Hlpt.Rwlock.exec I).alone t cs (m, l) = some (m', l') ∧ l'.pc = .ret c ∧
      SameWords m' rw' := by
  obtain ⟨pc, reads, writes⟩ := l
  obtain rfl : pc = .rdOwned (.timedrdlock tsp) := hl
  unfold Rwlock.pthreadRwlockTimedrdlock Rwlock.timedrdLoop at h
  split at h
  · next hown =>
      cases h
      have htest : Hlpt.Rwlock.exec I t {} m ⟨.rdOwned (.timedrdlock tsp), reads, writes⟩ =
          some (m, ⟨.ret .edeadlk, reads, writes⟩) := by
        simp only [Hlpt.Rwlock.exec, if_pos (hw.ownedP.mp hown)]
      exact ⟨[{}], _, _, Exec.alone_cons htest rfl, rfl, hw⟩
  · next hown =>
      have htest : Hlpt.Rwlock.exec I t {} m ⟨.rdOwned (.timedrdlock tsp), reads, writes⟩ =
          some (m, ⟨.rdLoad (.timedrdlock tsp), reads, writes⟩) := by
        simp only [Hlpt.Rwlock.exec, if_neg (mt hw.ownedP.mpr hown)]
      rw [hw.oid] at h
      split at h
      · next hfree =>
          cases h
          have hload : Hlpt.Rwlock.exec I t {} m ⟨.rdLoad (.timedrdlock tsp), reads, writes⟩ =
              some (m, ⟨.rdCas (.timedrdlock tsp) m.oid m.nrd, reads, writes⟩) := by
            simp only [Hlpt.Rwlock.exec, if_pos hfree]
          have hafter : SameWords { m with
              oid := Hlpt.Rwlock.RWLOCK_RO, nrd := m.nrd + 1 } rw.rdTaken :=
            ⟨rfl, congrArg (· + 1) hw.nrd, hw.nwr⟩
          by_cases hwake : m.oid = Hlpt.Rwlock.RWLOCK_UNOWNED ∧ m.nrd ≠ 0
          · have hcas : Hlpt.Rwlock.exec I t {} m
                ⟨.rdCas (.timedrdlock tsp) m.oid m.nrd, reads, writes⟩ =
                  some ({ m with oid := Hlpt.Rwlock.RWLOCK_RO, nrd := m.nrd + 1 },
                    ⟨.rdWake, reads + 1, writes⟩) := by
              simp only [Hlpt.Rwlock.exec, and_self, if_true, if_pos hwake]
            exact ⟨[{}, {}, {}, {}], _, _, Exec.alone_cons htest (Exec.alone_cons hload
              (Exec.alone_cons hcas (Exec.alone_cons rfl rfl))), rfl, hafter.1, hafter.2, hafter.3⟩
          · have hcas : Hlpt.Rwlock.exec I t {} m
                ⟨.rdCas (.timedrdlock tsp) m.oid m.nrd, reads, writes⟩ =
                  some ({ m with oid := Hlpt.Rwlock.RWLOCK_RO, nrd := m.nrd + 1 },
                    ⟨.ret .ok, reads + 1, writes⟩) := by
              simp only [Hlpt.Rwlock.exec, and_self, if_true, if_neg hwake]
            exact ⟨[{}, {}, {}], _, _, Exec.alone_cons htest (Exec.alone_cons hload
              (Exec.alone_cons hcas rfl)), rfl, hafter⟩
      · next htaken =>
          split at h
          · next hbad =>
              cases h
              have hload : Hlpt.Rwlock.exec I t {} m ⟨.rdLoad (.timedrdlock tsp), reads, writes⟩ =
                  some (m, ⟨.ret .einval, reads, writes⟩) := by
                simp only [Hlpt.Rwlock.exec, if_neg htaken, Hlpt.Rwlock.RdCall.blocked, if_pos hbad]
              exact ⟨[{}, {}], _, _, Exec.alone_cons htest (Exec.alone_cons hload rfl), rfl, hw⟩
          · cases h

/-- `pthread_rwlock_timedwrlock` on a process-private lock. -/
theorem timedwrlock_alone (hw : SameWords m rw) (hl : l.pc = .wrOwned (.timedwrlock tsp))
    (h : Rwlock.pthreadRwlockTimedwrlock ⟨I.id t, pid⟩ false tsp [] rw = some (c, rw')) :
    ∃ cs m' l', (Hlpt.Rwlock.exec I).alone t cs (m, l) = some (m', l') ∧ l'.pc = .ret c ∧
      SameWords m' rw' := by
  obtain ⟨pc, reads, writes⟩ := l
  obtain rfl : pc = .wrOwned (.timedwrlock tsp) := hl
  unfold Rwlock.pthreadRwlockTimedwrlock Rwlock.timedwrLoop at h
  split at h
  · next hown =>
      cases h
      have htest : Hlpt.Rwlock.exec I t {} m ⟨.wrOwned (.timedwrlock tsp), reads, writes⟩ =
          some (m, ⟨.ret .edeadlk, reads, writes⟩) := by
        simp only [Hlpt.Rwlock.exec, if_pos (hw.ownedP.mp hown)]
      exact ⟨[{}], _, _, Exec.alone_cons htest rfl, rfl, hw⟩
  · next hown =>
      have htest : Hlpt.Rwlock.exec I t {} m ⟨.wrOwned (.timedwrlock tsp), reads, writes⟩ =
          some (m, ⟨.wrLoad (.timedwrlock tsp), reads, writes⟩) := by
        simp only [Hlpt.Rwlock.exec, if_neg (mt hw.ownedP.mpr hown)]
      rw [hw.oid] at h
      split at h
      · next hfree =>
          cases h
          have hload : Hlpt.Rwlock.exec I t {} m ⟨.wrLoad (.timedwrlock tsp), reads, writes⟩ =
              some (m, ⟨.wrCas (.timedwrlock tsp), reads, writes⟩) := by
            simp only [Hlpt.Rwlock.exec, if_pos hfree]
          have hcas : Hlpt.Rwlock.exec I t {} m ⟨.wrCas (.timedwrlock tsp), reads, writes⟩ =
              some ({ m with oid := I.id t }, ⟨.ret .ok, reads, true⟩) := by
            simp only [Hlpt.Rwlock.exec, if_pos hfree]
          exact ⟨[{}, {}, {}], _, _, Exec.alone_cons htest (Exec.alone_cons hload
            (Exec.alone_cons hcas rfl)), rfl, rfl, hw.nrd, hw.nwr⟩
      · next htaken =>
          split at h
          · next hbad =>
              cases h
              have hload : Hlpt.Rwlock.exec I t {} m ⟨.wrLoad (.timedwrlock tsp), reads, writes⟩ =
                  some (m, ⟨.ret .einval, reads, writes⟩) := by
                simp only [Hlpt.Rwlock.exec, if_neg htaken, Hlpt.Rwlock.WrCall.blocked, if_pos hbad]
              exact ⟨[{}, {}], _, _, Exec.alone_cons htest (Exec.alone_cons hload rfl), rfl, hw⟩
          · cases h

end Rwlock

section Sem

variable {m : Hlpt.Sem.Mem T} {s s' : Sem}

/-- An access of a thread that is not cancelled. -/
theorem sem_exec_act {pc : Hlpt.Sem.Pc} {r : Option (Hlpt.Sem.Mem T × Hlpt.Sem.Pc)}
    (h : Hlpt.Sem.act t {} m pc = r) : Hlpt.Sem.exec t {} m pc = r := by
  rw [Hlpt.Sem.exec, if_neg Bool.false_ne_true, h]

/-- `sem_timedwait` -/
theorem timedwait_alone (hm : s = ⟨m.lo, m.hi⟩)
    (h : Sem.semTimedwait tsp [] s = some (c, s')) :
    ∃ cs m', Hlpt.Sem.exec.alone t cs (m, Hlpt.Sem.Pc.tryLoad (.first (.timedwait tsp))) =
      some (m', .ret c) ∧ s' = ⟨m'.lo, m'.hi⟩ := by
  subst hm
  unfold Sem.semTimedwait Sem.timedwaitLoop at h
  split at h
  · next hne =>
      cases h
      have hload : Hlpt.Sem.act t {} m (.tryLoad (.first (.timedwait tsp))) =
          some (m, .tryCas (.first (.timedwait tsp)) m.lo) := by
        simp only [Hlpt.Sem.act, if_neg hne]
      have hcas : Hlpt.Sem.act t {} m (.tryCas (.first (.timedwait tsp)) m.lo) =
          some ({ m with lo := m.lo - 1 }, .ret .ok) := by
        simp only [Hlpt.Sem.act, if_true]
      exact ⟨[{}, {}], _, Exec.alone_cons (sem_exec_act hload)
        (Exec.alone_cons (sem_exec_act hcas) rfl), rfl⟩
  · next h0 =>
      replace h0 : m.lo = 0 := not_not.mp h0
      split at h
      · next hbad =>
          cases h
          have hload : Hlpt.Sem.act t {} m (.tryLoad (.first (.timedwait tsp))) =
              some (m, .addLoad (.timedwait tsp)) := by
            simp only [Hlpt.Sem.act, if_pos h0, Hlpt.Sem.TryCall.fail]
          have hadd : Hlpt.Sem.act t {} m (.addCas (.timedwait tsp) m.lo m.hi) =
              some ({ m with hi := m.hi + 1 }, .look (.timedwait tsp)) := by
            simp only [Hlpt.Sem.act, and_self, if_true]
          have hlook : Hlpt.Sem.act t {} { m with hi := m.hi + 1 } (.look (.timedwait tsp)) =
              some ({ m with hi := m.hi + 1 }, .cleanLoad (some .etimedout)) := by
            simp only [Hlpt.Sem.act, if_neg (not_not.mpr h0), Hlpt.Sem.WaitCall.blocked,
              if_pos hbad]
          have hclean : Hlpt.Sem.act t {} { m with hi := m.hi + 1 }
              (.cleanCas (some .etimedout) m.lo (m.hi + 1)) =
                some ({ m with hi := m.hi + 1 - 1 }, .ret .etimedout) := by
            simp only [Hlpt.Sem.act, and_self, if_true, Hlpt.Sem.cleaned]
          -- It has counted itself as a waiter, and `cleanup` takes that back.
          exact ⟨[{}, {}, {}, {}, {}, {}], _, Exec.alone_cons (sem_exec_act hload)
            (Exec.alone_cons (sem_exec_act rfl) (Exec.alone_cons (sem_exec_act hadd)
              (Exec.alone_cons (sem_exec_act hlook) (Exec.alone_cons (sem_exec_act rfl)
                (Exec.alone_cons (sem_exec_act hclean) rfl))))), rfl⟩
      · cases h

end Sem

section Join

variable {tgt : Hlpt.Termination.Target T} {m : Hlpt.Termination.Mem T} {retpp : Bool}
  {out : Option (BitVec 32)} {d d' : Joinee T}

/-- The fields of the descriptor. -/
structure SameDesc (m : Hlpt.Termination.Mem T) (d : Joinee T) : Prop where
  joinpt : d.joinpt = m.joinpt
  id : d.id = m.id
  flags : d.flags = m.flags
  retval : d.retval = m.retval

/-- `__pthread_deallocate`, the end of a join. -/
theorem deallocate_alone (tgt : Hlpt.Termination.Target T) (t : T) (m : Hlpt.Termination.Mem T)
    (retpp : Bool) (out : Option (BitVec 32)) :
    ∃ cs m', (Hlpt.Termination.exec tgt).alone t cs (m, ⟨.deallocate .joiner, retpp, out⟩) =
      some (m', ⟨.ret .joiner .ok, retpp, out⟩) ∧ m'.joinpt = m.joinpt ∧ m'.id = m.id ∧
        m'.flags = m.flags ||| PT_FLG_TERMINATED ∧ m'.retval = m.retval := by
  by_cases hterm : m.flags &&& PT_FLG_TERMINATED = 0
  · have hmark : Hlpt.Termination.exec tgt t {} m ⟨.deallocate .joiner, retpp, out⟩ =
        some ({ m with flags := m.flags ||| PT_FLG_TERMINATED },
          ⟨.freeStack .joiner, retpp, out⟩) := by
      simp only [Hlpt.Termination.exec, if_pos hterm]
    by_cases husr : (m.flags ||| PT_FLG_TERMINATED) &&& PT_FLG_USR_STACK = 0
    · have hfree : Hlpt.Termination.exec tgt t {} { m with flags := m.flags ||| PT_FLG_TERMINATED }
          ⟨.freeStack .joiner, retpp, out⟩ =
            some ({ m with flags := m.flags ||| PT_FLG_TERMINATED },
              ⟨.vmDeallocate .joiner tgt.range.1 tgt.range.2, retpp, out⟩) := by
        simp only [Hlpt.Termination.exec, if_neg (not_not.mpr husr)]
      exact ⟨[{}, {}, {}], _, Exec.alone_cons hmark (Exec.alone_cons hfree
        (Exec.alone_cons rfl rfl)), rfl, rfl, rfl, rfl⟩
    · have hfree : Hlpt.Termination.exec tgt t {} { m with flags := m.flags ||| PT_FLG_TERMINATED }
          ⟨.freeStack .joiner, retpp, out⟩ =
            some ({ m with flags := m.flags ||| PT_FLG_TERMINATED },
              ⟨.ret .joiner .ok, retpp, out⟩) := by
        simp only [Hlpt.Termination.exec, if_pos husr]
      exact ⟨[{}, {}], _, Exec.alone_cons hmark (Exec.alone_cons hfree rfl), rfl, rfl, rfl, rfl⟩
  · have hmark : Hlpt.Termination.exec tgt t {} m ⟨.deallocate .joiner, retpp, out⟩ =
        some ({ m with flags := m.flags ||| PT_FLG_TERMINATED },
          ⟨.ret .joiner .ok, retpp, out⟩) := by
      simp only [Hlpt.Termination.exec, if_neg hterm]
    exact ⟨[{}], _, Exec.alone_cons hmark rfl, rfl, rfl, rfl, rfl⟩

/-- The loop of a join ends before a wait when the target has terminated. -/
theorem joinLoad_alone (tgt : Hlpt.Termination.Target T) (t : T) (tsp : Timespec) (retpp : Bool)
    (out : Option (BitVec 32)) (hid : m.id = 0) :
    ∃ cs m' l', (Hlpt.Termination.exec tgt).alone t cs
        (m, ⟨.joinLoad (.timedjoin tsp), retpp, out⟩) = some (m', l') ∧
      l'.pc = .ret .joiner .ok ∧ m'.joinpt = m.joinpt ∧ m'.id = m.id ∧
      m'.flags = m.flags ||| PT_FLG_TERMINATED ∧ m'.retval = m.retval := by
  have hload : Hlpt.Termination.exec tgt t {} m ⟨.joinLoad (.timedjoin tsp), retpp, out⟩ =
      some (m, ⟨.joinEnd false, retpp, out⟩) := by
    simp only [Hlpt.Termination.exec, Bool.false_eq_true, if_false, if_neg (not_not.mpr hid)]
  have hjoined : ∃ cs out', (Hlpt.Termination.exec tgt).alone t cs
      (m, ⟨.joinEnd false, retpp, out⟩) = some (m, ⟨.deallocate .joiner, retpp, out'⟩) := by
    cases retpp with
    | false => exact ⟨[{}], out, Exec.alone_cons rfl rfl⟩
    | true =>
        have hend : Hlpt.Termination.exec tgt t {} m ⟨.joinEnd false, true, out⟩ =
            some (m, ⟨.joinRetval, true, out⟩) := rfl
        exact ⟨[{}, {}], some m.retval, Exec.alone_cons hend (Exec.alone_cons rfl rfl)⟩
  obtain ⟨cs, out', hend⟩ := hjoined
  obtain ⟨cs', m', hdealloc, hrest⟩ := deallocate_alone tgt t m retpp out'
  exact ⟨_, m', _, Exec.alone_cons hload (Exec.alone_append hend hdealloc), rfl, hrest⟩

/-- `pthread_timedjoin_np` on the target. -/
theorem timedjoin_alone {selfJoinpt : Option T} (hd : SameDesc m d)
    (h : Joinee.pthreadTimedjoinNp t selfJoinpt (some tgt.th) retpp tsp [] d = some (c, d')) :
    ∃ cs m' l', (Hlpt.Termination.exec tgt).alone t cs
        (m, ⟨.joinDetached (.timedjoin tsp), retpp, out⟩) = some (m', l') ∧
      l'.pc = .ret .joiner c ∧ SameDesc m' d' := by
  unfold Joinee.pthreadTimedjoinNp Joinee.timedjoinLoop at h
  simp only [hd.joinpt] at h
  split at h
  · next hdet =>
      cases h
      have htest : Hlpt.Termination.exec tgt t {} m
          ⟨.joinDetached (.timedjoin tsp), retpp, out⟩ =
            some (m, ⟨.ret .joiner .einval, retpp, out⟩) := by
        simp only [Hlpt.Termination.exec, Hlpt.Termination.Mem.detachedP, hdet, decide_true,
          if_true]
      exact ⟨[{}], _, _, Exec.alone_cons htest rfl, rfl, hd⟩
  · next hdet =>
      have htest : Hlpt.Termination.exec tgt t {} m
          ⟨.joinDetached (.timedjoin tsp), retpp, out⟩ =
            some (m, ⟨.joinSelf (.timedjoin tsp), retpp, out⟩) := by
        simp only [Hlpt.Termination.exec, Hlpt.Termination.Mem.detachedP, hdet, decide_false,
          Bool.false_eq_true, if_false]
      split at h
      · cases h
        exact ⟨[{}, { joinsMe := true }], _, _,
          Exec.alone_cons htest (Exec.alone_cons rfl rfl), rfl, hd⟩
      · split at h
        · next hjoined =>
            cases h
            have hlook : Hlpt.Termination.exec tgt t {} m
                ⟨.joinLook (.timedjoin tsp), retpp, out⟩ =
                  some (m, ⟨.ret .joiner .einval, retpp, out⟩) := by
              simp only [Hlpt.Termination.exec, if_pos hjoined]
            exact ⟨[{}, {}, {}], _, _, Exec.alone_cons htest
              (Exec.alone_cons rfl (Exec.alone_cons hlook rfl)), rfl, hd⟩
        · next hfree =>
            split at h
            · next hid =>
                cases h
                replace hid : m.id = 0 := hd.id ▸ hid
                have hlook : Hlpt.Termination.exec tgt t {} m
                    ⟨.joinLook (.timedjoin tsp), retpp, out⟩ =
                      some (m, ⟨.joinCas (.timedjoin tsp), retpp, out⟩) := by
                  simp only [Hlpt.Termination.exec, if_neg hfree]
                have hcas : Hlpt.Termination.exec tgt t {} m
                    ⟨.joinCas (.timedjoin tsp), retpp, out⟩ =
                      some ({ m with joinpt := some t },
                        ⟨.joinBegin (.timedjoin tsp), retpp, out⟩) := by
                  simp only [Hlpt.Termination.exec, if_pos (not_not.mp hfree)]
                  rfl
                have hself : Hlpt.Termination.exec tgt t {} m
                    ⟨.joinSelf (.timedjoin tsp), retpp, out⟩ =
                      some (m, ⟨.joinLook (.timedjoin tsp), retpp, out⟩) := rfl
                have hbegin : Hlpt.Termination.exec tgt t {} { m with joinpt := some t }
                    ⟨.joinBegin (.timedjoin tsp), retpp, out⟩ =
                      some ({ m with joinpt := some t },
                        ⟨.joinLoad (.timedjoin tsp), retpp, out⟩) := rfl
                obtain ⟨cs, m', l', hloop, hret, hjoin, hid', hflags, hretval⟩ :=
                  joinLoad_alone tgt t tsp retpp out (m := { m with joinpt := some t }) hid
                refine ⟨_, m', l', Exec.alone_cons htest (Exec.alone_cons hself
                  (Exec.alone_cons hlook (Exec.alone_cons hcas
                    (Exec.alone_cons hbegin hloop)))), hret, ?_⟩
                exact ⟨hjoin.symm, hd.id.trans hid'.symm,
                  (congrArg (· ||| PT_FLG_TERMINATED) hd.flags).trans hflags.symm,
                  hd.retval.trans hretval.symm⟩
            · cases h

end Join

/-! ### Calls of many threads -/

/-- The timeout of a thread that waits in a read-write lock, from its addition to the count of
the waiters on. -/
def rwlockTimeout : Hlpt.Rwlock.Pc → Option Timespec
  | .rdAdd (.timedrdlock tsp) _ | .rdClock tsp _ | .rdWait (.timedrdlock tsp) _ => some tsp
  | .rdAsleep (.timedrdlock tsp) => some tsp
  | .wrAdd (.timedwrlock tsp) _ | .wrClock tsp _ _ | .wrWait (.timedwrlock tsp) _ _ => some tsp
  | .wrAsleep (.timedwrlock tsp) => some tsp
  | _ => none

/-- A step to such a wait begins there, or has checked the timeout. -/
theorem rwlock_timeout_step {I : Hlpt.Rwlock.Ids T} {x : Hlpt.Rwlock.Choice T}
    {m m' : Hlpt.Rwlock.Mem T} {l l' : Hlpt.Rwlock.Local}
    (h : Hlpt.Rwlock.exec I t x m l = some (m', l')) (hw : rwlockTimeout l'.pc = some tsp) :
    rwlockTimeout l.pc = some tsp ∨ tsp.badNsec = false := by
  cases Hlpt.Rwlock.step_of_exec h with
  | move hm =>
      cases hm with
      | @rdQueue k hq =>
          cases k with
          | timedrdlock abstime =>
              -- `abstime` was checked right before.
              refine .inr (Bool.eq_false_iff.mpr fun hbad => ?_)
              obtain rfl : abstime = tsp := Option.some.inj hw
              simp only [Hlpt.Rwlock.exec, if_neg hq, Hlpt.Rwlock.RdCall.blocked, if_pos hbad] at h
              cases h
          | rdlock | tryrdlock => cases hw
      | @wrQueue k hq =>
          cases k with
          | timedwrlock abstime =>
              refine .inr (Bool.eq_false_iff.mpr fun hbad => ?_)
              obtain rfl : abstime = tsp := Option.some.inj hw
              simp only [Hlpt.Rwlock.exec, if_neg hq, Hlpt.Rwlock.WrCall.blocked, if_pos hbad] at h
              cases h
          | wrlock => cases hw
      | rdEarly | wrEarly => exact .inl hw
      | _ => cases hw
  | @rdAdd k => cases k <;> exact .inl hw
  | @wrAdd k => cases k <;> exact .inl hw
  | @rdSleep k => cases k <;> exact .inl hw
  | @wrSleep k => cases k <;> exact .inl hw
  | rdTake | rdDec | wrDec =>
      revert hw
      dsimp only
      split
      all_goals
        intro hw
        cases hw
  | _ => cases hw

/-- Nobody waits in a read-write lock with invalid nanoseconds. -/
theorem rwlock_waits_valid {I : Hlpt.Rwlock.Ids T}
    {s : Global T (Hlpt.Rwlock.Mem T) Hlpt.Rwlock.Local}
    (h : (Hlpt.Rwlock.machine I).Reach s) (t : T) :
    ∀ tsp, rwlockTimeout (s.loc t).pc = some tsp → tsp.badNsec = false := by
  refine Exec.invariant_loc (P := fun l : Hlpt.Rwlock.Local => ∀ tsp,
    rwlockTimeout l.pc = some tsp → tsp.badNsec = false) ?_ ?_ h t
  · intro s t hs tsp hw
    rw [hs.2 t] at hw
    cases hw
  · intro t x m l m' l' hl he tsp hw
    rcases rwlock_timeout_step he hw with hbefore | hvalid
    · exact hl tsp hbefore
    · exact hvalid

/-- The timeout of a thread that is at the sleep of a semaphore. -/
def semTimeout : Hlpt.Sem.Pc → Option Timespec
  | .cancelpointBegin (.timedwait tsp) | .clock tsp => some tsp
  | .wait (.timedwait tsp) | .asleep (.timedwait tsp) => some tsp
  | _ => none

theorem sem_timeout_step {x : Hlpt.Sem.Choice T} {m m' : Hlpt.Sem.Mem T} {pc pc' : Hlpt.Sem.Pc}
    (h : Hlpt.Sem.exec t x m pc = some (m', pc')) (hw : semTimeout pc' = some tsp) :
    semTimeout pc = some tsp ∨ tsp.badNsec = false := by
  cases Hlpt.Sem.step_of_exec h with
  | move hm =>
      cases hm with
      | @blocked k hq =>
          cases k with
          | timedwait tsp' =>
              refine .inr (Bool.eq_false_iff.mpr fun hbad => ?_)
              obtain rfl : tsp' = tsp := Option.some.inj hw
              cases hcancel : x.cancel with
              | true => simp [Hlpt.Sem.exec, hcancel, Hlpt.Sem.InCancelpoint] at h
              | false =>
                  simp only [Hlpt.Sem.exec, hcancel, Hlpt.Sem.act, hq, ne_eq, not_true_eq_false,
                    Hlpt.Sem.WaitCall.blocked, if_pos hbad, Bool.false_eq_true, if_false] at h
                  cases h
          | wait => cases hw
      | call =>
          revert hw
          cases x.call
          all_goals
            intro hw
            cases hw
      | blockTimed | early => exact .inl hw
      | _ => cases hw
  | @sleep k => cases k <;> exact .inl hw
  | @clean r => cases r <;> cases hw
  | _ => cases hw

/-- Nobody sleeps in a semaphore with invalid nanoseconds. -/
theorem sem_waits_valid {s : Global T (Hlpt.Sem.Mem T) Hlpt.Sem.Pc}
    (h : Hlpt.Sem.machine.Reach s) (t : T) :
    ∀ tsp, semTimeout (s.loc t) = some tsp → tsp.badNsec = false := by
  refine Exec.invariant_loc (P := fun pc => ∀ tsp, semTimeout pc = some tsp →
    tsp.badNsec = false) ?_ ?_ h t
  · intro s t hs tsp hw
    rw [hs.2 t] at hw
    cases hw
  · intro t x m pc m' pc' hpc he tsp hw
    rcases sem_timeout_step he hw with hbefore | hvalid
    · exact hpc tsp hbefore
    · exact hvalid

end Hlpt.Timeouts
