import Hlpt.Rwlock.Exclusion

/-!
# `Hlpt.Rwlock.Idle`: when an idle read-write lock is free

A reader-owned lock goes back to unowned only in the last-reader test of
`pthread_rwlock_unlock`, so `oid` may stay at `RWLOCK_RO` after the last hold is gone
when `nrd` still counts a queued reader. That reader is an `Anchor`: it compares
again, takes a hold and releases it later. A queued reader that times out takes its
share out of `nrd` without a look at `oid`, and when its share is the last one, the
lock stays owned by readers with no reader left.

* `rwlock_idle`: in runs without such a decrement (`Kept`), an idle lock is free.
* `rwlock_idle_stuck`: a run with such a decrement leaves an idle lock that no writer
  can take.
-/

set_option autoImplicit false

namespace Hlpt.Rwlock

open Hlpt.Lib

universe u

/-- A thread that keeps a reader-owned lock alive: it has a share in `nrd`, or it is a
reader that looks at the pair again. -/
def Anchors (l : Local) : Prop :=
  0 < shareRd l ∨ (∃ k, l.pc = .rdLoad k) ∨ ∃ k oid nrd, l.pc = .rdCas k oid nrd

variable {T : Type u} [DecidableEq T] {I : Ids T} {t : T} {c : Choice T} {m m' : Mem T}
  {l l' : Local}

omit [DecidableEq T] in
/-- A move of an anchor, when readers own the lock, is one to an anchor. -/
theorem Moves.anchors {pc pc' : Pc} {reads : ℕ} {writes : Bool} (h : Moves I t c m pc pc')
    (hro : m.oid = RWLOCK_RO) (ha : Anchors ⟨pc, reads, writes⟩) :
    Anchors ⟨pc', reads, writes⟩ := by
  have hmask : m.oid &&& PTHREAD_ID_MASK = 0 := by rw [hro]; decide
  rcases ha with hshare | ⟨k, hk⟩ | ⟨k, oid, nrd, hk⟩
  · left
    show 0 < reads + queuedRd pc'
    rw [h.queued.1]
    exact hshare
  · obtain rfl : pc = .rdLoad k := hk
    cases h with
    | rdFree hm => exact .inr (.inr ⟨k, m.oid, m.nrd, rfl⟩)
    | rdFails r hm => exact absurd hmask hm
    | rdQueue hm => exact absurd hmask hm
  · obtain rfl : pc = .rdCas k oid nrd := hk
    cases h with
    | rdAgain hm => exact .inr (.inl ⟨k, rfl⟩)

/-- A step that leaves the lock with the readers keeps the thread an anchor, or the
thread was none, or it is the last act of a queued reader that timed out or of a
reader that is not the last share. -/
theorem exec_anchors (h : exec I t c m l = some (m', l')) (hpc : PcOk l)
    (hro : m'.oid = RWLOCK_RO) :
    Anchors l' ∨ (m.oid = RWLOCK_RO ∧ ¬ Anchors l) ∨
    (m.oid = RWLOCK_RO ∧ shareRd l = 1 ∧
      ((∃ k, l.pc = .rdDec k true) ∨ m.nrd ≠ 1)) := by
  have hid := (I.ne_special t).2
  have hun : RWLOCK_UNOWNED ≠ RWLOCK_RO := by decide
  have hkeep : m.oid = RWLOCK_RO → (Anchors l → Anchors l') →
      Anchors l' ∨ (m.oid = RWLOCK_RO ∧ ¬ Anchors l) ∨
      (m.oid = RWLOCK_RO ∧ shareRd l = 1 ∧ ((∃ k, l.pc = .rdDec k true) ∨ m.nrd ≠ 1)) := by
    intro ho himp
    by_cases ha : Anchors l
    · exact .inl (himp ha)
    · exact .inr (.inl ⟨ho, ha⟩)
  cases step_of_exec h with
  | move hm => exact hkeep hro (hm.anchors hro)
  | rdTake => exact .inl (.inl (by simp [shareRd]))
  | @rdAdd k oid => exact .inl (.inl (by simp [shareRd, (k.queued_wait oid).1]))
  | rdSleep => exact .inl (.inl (by simp [shareRd, queuedRd]))
  | rdAwake hout => exact .inl (.inl (by simp [shareRd, queuedRd]))
  | @rdDec k out reads writes =>
    cases out with
    | false => exact .inl (.inr (.inl ⟨k, rfl⟩))
    | true =>
      by_cases hreads : reads = 0
      · subst hreads
        exact .inr (.inr ⟨hro, rfl, .inl ⟨k, rfl⟩⟩)
      · exact .inl (.inl (Nat.pos_of_ne_zero hreads))
  | @wrAdd k owner reads writes =>
    refine hkeep hro fun ha => .inl ?_
    show 0 < reads + queuedRd (k.wait owner m.nwr)
    rw [(k.queued_wait owner m.nwr).1]
    simpa [Anchors, shareRd, queuedRd] using ha
  | @wrDec k out reads writes =>
    refine hkeep hro fun ha => .inl ?_
    have hpos : 0 < reads := by simpa [Anchors, shareRd, queuedRd] using ha
    cases out <;> exact hpos
  | wrTake hm => exact absurd hro hid
  | tryTake hm => exact absurd hro hid
  | wrLeave => exact absurd hro hun
  | rdLeaveLast hm => exact absurd hro hun
  | @rdLeave reads writes hm =>
    have hpos : 0 < reads := hpc
    by_cases hone : reads = 1
    · subst hone
      exact .inr (.inr ⟨hro, rfl, .inr hm⟩)
    · left
      left
      show 0 < reads - 1
      omega
  | _ =>
    -- The share of the thread stays, and it neither was nor is a reader that looks.
    exact hkeep hro fun ha => by simpa [Anchors, shareRd, queuedRd] using ha

/-! ### The invariant -/

/-- The owner word holds one of the special owners or an id, and a lock owned by
readers has an anchor. -/
structure Anchored (I : Ids T) (s : Global T (Mem T) Local) : Prop where
  owner : s.mem.oid = RWLOCK_UNOWNED ∨ s.mem.oid = RWLOCK_RO ∨ ∃ t, s.mem.oid = I.id t
  anchor : s.mem.oid = RWLOCK_RO → ∃ t, Anchors (s.loc t)

/-- The step is not the one that strands the lock: a queued reader that timed out
takes the last share out of a lock owned by readers. -/
def Kept (s : Global T (Mem T) Local) (a : T × Choice T) : Prop :=
  ¬ ((s.loc a.1).pc matches .rdDec _ true ∧ s.mem.oid = RWLOCK_RO ∧ s.mem.nrd = 1)

instance (s : Global T (Mem T) Local) (a : T × Choice T) : Decidable (Kept s a) :=
  inferInstanceAs (Decidable (¬ (_ ∧ _ ∧ _)))

variable [Fintype T]

/-- A kept step leaves an anchor behind. -/
theorem Anchored.step {s : Global T (Mem T) Local} (hinv : Inv I s) (hs : Anchored I s)
    (hkept : Kept s (t, c)) (h : exec I t c s.mem (s.loc t) = some (m, l)) :
    Anchored I ⟨m, Function.update s.loc t l⟩ where
  owner := (exec_own h (hinv.pc t)).owner hs.owner
  anchor hro := by
    rcases exec_anchors h (hinv.pc t) hro with ha | ⟨hm, hna⟩ | ⟨hm, hshare, hlast⟩
    · exact ⟨t, by simpa using ha⟩
    · -- The anchor is another thread, which did not move.
      obtain ⟨u, hu⟩ := hs.anchor hm
      have hut : u ≠ t := fun he => hna (he ▸ hu)
      exact ⟨u, by simpa [hut] using hu⟩
    · by_cases halone : ∀ u, u ≠ t → shareRd (s.loc u) = 0
      · -- The share that goes is the last one, so `nrd = 1`.
        have hone : s.mem.nrd = 1 := by
          rw [hinv.nrd, readers, sum_loc_eq_of_alone halone, hshare]
          rfl
        rcases hlast with ⟨k, hk⟩ | hne
        · exact absurd ⟨by simp [hk], hm, hone⟩ hkept
        · exact absurd hone hne
      · push Not at halone
        obtain ⟨u, hut, hu⟩ := halone
        refine ⟨u, ?_⟩
        simp only [Function.update_of_ne hut]
        exact .inl (Nat.pos_of_ne_zero hu)

/-- A lock owned by readers has an anchor, in runs whose steps are kept. -/
theorem anchored_of_reach {s : Global T (Mem T) Local}
    (h : (machine I).ReachVia (fun s a => Small s ∧ Kept s a) s) : Anchored I s := by
  have hinv : ∀ s, (machine I).ReachVia (fun s a => Small s ∧ Kept s a) s → Inv I s :=
    fun s => inv_of_reach fun _ _ => And.left
  refine Exec.invariant_of hinv (fun s hs => ?_)
    (fun s t c m p hinv hp ha he => hp.step hinv ha.2 he) h
  obtain ⟨hm, -⟩ := hs
  constructor
  · exact .inl (by rw [hm]; rfl)
  · have hun : (0 : BitVec 32) ≠ RWLOCK_RO := by decide
    rw [hm]
    exact fun h => absurd h hun

/-! ### The idle lock -/

/-- No thread holds the lock and no thread is inside an operation. -/
def Idle (s : Global T (Mem T) Local) : Prop := ∀ t, s.loc t = ⟨.idle, 0, false⟩

/-- The lock is free: unowned, with nobody counted. -/
def Free (s : Global T (Mem T) Local) : Prop :=
  s.mem.oid = RWLOCK_UNOWNED ∧ s.mem.nrd = 0 ∧ s.mem.nwr = 0

/-- A `trywrlock` by `t`, with no other thread in between, returns 0 with the lock. -/
def TrywrlockSucceeds (I : Ids T) (s : Global T (Mem T) Local) (t : T) : Prop :=
  ∃ s', (machine I).run s [(t, { call := .trywrlock }), (t, {}), (t, {}), (t, {})] = some s' ∧
    s'.loc t = ⟨.ret .ok, 0, true⟩

/-- The choices of a `trywrlock` of four steps. -/
def trywrlockSteps : List (Choice T) := [{ call := .trywrlock }, {}, {}, {}]

omit [Fintype T] in
/-- What a `trywrlock` of an idle lock comes to, with what its last two steps do. -/
theorem trywrlock_alone {s : Global T (Mem T) Local} {m₁ : Mem T} {l₁ : Local}
    {r : Mem T × Local} (hidle : Idle s)
    (htest : exec I t {} s.mem ⟨.tryOwned s.mem.oid, 0, false⟩ = some (m₁, l₁))
    (hlast : exec I t {} m₁ l₁ = some r) :
    (machine I).run s (trywrlockSteps.map (t, ·)) =
      some ⟨r.1, Function.update s.loc t r.2⟩ := by
  have hcall : exec I t { call := .trywrlock } s.mem ⟨.idle, 0, false⟩ =
      some (s.mem, ⟨.tryLoad, 0, false⟩) := rfl
  have hload : exec I t {} s.mem ⟨.tryLoad, 0, false⟩ =
      some (s.mem, ⟨.tryOwned s.mem.oid, 0, false⟩) := rfl
  have halone : (exec I).alone t trywrlockSteps (s.mem, s.loc t) = some r := by
    simp only [trywrlockSteps, Exec.alone, hidle t, hcall, hload, htest, hlast, Option.bind_some]
  exact (Exec.run_alone trywrlockSteps s).trans (congrArg _ halone)

omit [Fintype T] in
/-- A free lock is taken by the next `trywrlock`. -/
theorem Free.trywrlock {s : Global T (Mem T) Local} (hs : Free s) (hidle : Idle s) (t : T) :
    TrywrlockSucceeds I s t := by
  have hid : s.mem.oid ≠ I.id t := by
    rw [hs.1]
    exact (I.ne_special t).1.symm
  have htest : exec I t {} s.mem ⟨.tryOwned s.mem.oid, 0, false⟩ =
      some (s.mem, ⟨.tryCas, 0, false⟩) := by
    simp only [exec, if_neg hid, if_pos hs.1]
  have htake : exec I t {} s.mem ⟨.tryCas, 0, false⟩ =
      some ({ s.mem with oid := I.id t }, ⟨.ret .ok, 0, true⟩) := if_pos hs.1
  exact ⟨_, trywrlock_alone hidle htest htake, Function.update_self _ _ _⟩

omit [Fintype T] in
/-- A `trywrlock` of a lock that is owned by readers fails. -/
theorem not_trywrlock {s : Global T (Mem T) Local} (ho : s.mem.oid = RWLOCK_RO) (hidle : Idle s)
    (t : T) : ¬ TrywrlockSucceeds I s t := by
  have hid : s.mem.oid ≠ I.id t := by
    rw [ho]
    exact (I.ne_special t).2.symm
  have hun : s.mem.oid ≠ RWLOCK_UNOWNED := by
    rw [ho]
    decide
  have htest : exec I t {} s.mem ⟨.tryOwned s.mem.oid, 0, false⟩ =
      some (s.mem, ⟨.ret .ebusy, 0, false⟩) := by
    simp only [exec, if_neg hid, if_neg hun]
  have hret : exec I t {} s.mem ⟨.ret .ebusy, 0, false⟩ = some (s.mem, ⟨.idle, 0, false⟩) := rfl
  rintro ⟨s', hrun, hloc⟩
  obtain rfl := Option.some.inj (hrun.symm.trans (trywrlock_alone hidle htest hret))
  simp at hloc

/-- An idle read-write lock is free, and the next `trywrlock` takes it: in every state
that is reached with fewer than `2 ^ 32` read holds and queued readers at once and
without a timed-out reader that takes the last share out of a lock owned by
readers. -/
theorem rwlock_idle {s : Global T (Mem T) Local}
    (h : (machine I).ReachVia (fun s a => Small s ∧ Kept s a) s) (hidle : Idle s) :
    Free s ∧ ∀ t, TrywrlockSucceeds I s t := by
  have hinv : Inv I s := inv_of_reach (fun _ _ => And.left) h
  have hs := anchored_of_reach h
  have hfree : Free s := by
    refine ⟨?_, ?_, ?_⟩
    · rcases hs.owner with ho | ho | ⟨t, ho⟩
      · exact ho
      · obtain ⟨t, ht⟩ := hs.anchor ho
        simp [Anchors, hidle t, shareRd, queuedRd] at ht
      · have hw := (hinv.writer t).mpr ho
        simp [hidle t] at hw
    · rw [hinv.nrd]
      simp [readers, hidle _, shareRd, queuedRd]
    · rw [hinv.nwr]
      simp [hidle _, shareWr, queuedWr]
  exact ⟨hfree, hfree.trywrlock hidle⟩

/-- A run in which a timed reader queues behind a writer and times out, and the writer
unlocks. -/
theorem rwlock_idle_two : ∃ s : Global (Fin 2) (Mem (Fin 2)) Local,
    (machine Ids.two).ReachVia (fun s a => Small s ∧ Kept s a) s ∧ Idle s ∧
    Free s ∧ ∀ t, TrywrlockSucceeds Ids.two s t := by
  obtain ⟨s, hs, hp⟩ := (machine Ids.two).exists_reachVia (fun s a => Small s ∧ Kept s a)
    (s := ⟨⟨0, 0, 0, ∅, ∅⟩, fun _ => ⟨.idle, 0, false⟩⟩) ⟨rfl, fun _ => rfl⟩
    [(0, { call := .wr .wrlock }), (0, {}), (0, {}), (0, {}), (0, {}),
      (1, { call := .rd (.timedrdlock default) }), (1, {}), (1, {}), (1, {}),
      (1, { now := ⟨1, 0⟩ }), (1, {}), (1, {}),
      (0, {}), (0, {}), (0, {}), (0, {}), (0, {}), (0, {}), (0, {})]
    (fun s => ∀ t, s.loc t = ⟨.idle, 0, false⟩) (by decide)
  exact ⟨s, hs, hp, rwlock_idle hs hp⟩

/-- An idle lock that nobody can write-lock. The thread 1 queues behind the writer 0;
the writer unlocks; the reader 2 takes the lock with the share of 1 still in `nrd`,
and gives it up with `oid` left at `RWLOCK_RO`; then 1 times out. -/
theorem rwlock_idle_stuck : ∃ s : Global (Fin 3) (Mem (Fin 3)) Local,
    (machine Ids.three).ReachVia (fun s _ => Small s) s ∧ Idle s ∧
    s.mem.oid = RWLOCK_RO ∧ s.mem.nrd = 0 ∧ ¬ Free s ∧
    ¬ TrywrlockSucceeds Ids.three s 0 := by
  obtain ⟨s, hs, hp, ho, hn⟩ := (machine Ids.three).exists_reachVia (fun s _ => Small s)
    (s := ⟨⟨0, 0, 0, ∅, ∅⟩, fun _ => ⟨.idle, 0, false⟩⟩) ⟨rfl, fun _ => rfl⟩
    [(0, { call := .wr .wrlock }), (0, {}), (0, {}), (0, {}), (0, {}),
      (1, { call := .rd (.timedrdlock default) }), (1, {}), (1, {}), (1, {}),
      (0, {}), (0, {}), (0, {}), (0, {}), (0, {}), (0, {}), (0, {}), (0, {}),
      (2, { call := .rd .rdlock }), (2, {}), (2, {}), (2, {}), (2, {}), (2, {}),
      (2, {}), (2, {}), (2, {}), (2, {}), (2, {}), (2, {}),
      (1, { now := ⟨1, 0⟩ }), (1, {}), (1, {})]
    (fun s => (∀ t, s.loc t = ⟨.idle, 0, false⟩) ∧ s.mem.oid = RWLOCK_RO ∧ s.mem.nrd = 0)
    (by decide)
  refine ⟨s, hs, hp, ho, hn, fun hf => ?_, not_trywrlock ho hp 0⟩
  exact absurd (hf.1.symm.trans ho) (by decide)

end Hlpt.Rwlock
