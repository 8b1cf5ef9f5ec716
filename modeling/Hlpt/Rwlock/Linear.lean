import Hlpt.Lib.Linear
import Hlpt.Rwlock.Exclusion

/-!
# `Hlpt.Rwlock.Linear`: the read-write lock is an atomic one

A lock takes effect at the compare-and-swap of the owner word, a release of the write hold
at the store of `RWLOCK_UNOWNED`, and one of a read hold at the compare-and-swap of the owner
word and the count. The queues, the counts of the queued threads and the wakes are no part
of the atomic lock.

Two codes are weaker than the holds. A reader that was only queued keeps the owner word at
`RWLOCK_RO`, so `pthread_rwlock_trywrlock` and the check of a bad deadline in
`pthread_rwlock_timedwrlock` may take a lock for owned that nobody holds.

* `rwlock_linearizable`: every history of the lock and unlock functions through states with
  fewer than `2 ^ 32` read holds and queued readers is a history of `atomicRwlock`.
-/

set_option autoImplicit false

namespace Hlpt.Rwlock

open Hlpt.Lib

universe u

variable {T : Type u}

/-- The state of the atomic lock: the read holds of each thread, and who writes. -/
structure Holds (T : Type u) where
  reads : T → ℕ
  writer : Option T

/-- A reader that is not the writer is kept out. -/
def Holds.shut [DecidableEq T] (a : Holds T) (t : T) : Bool :=
  a.writer.isSome && a.writer ≠ some t

/-- Nobody holds the lock. -/
def Holds.Free (a : Holds T) : Prop := a.writer = none ∧ ∀ u, a.reads u = 0

section Atomic

variable [DecidableEq T] [Fintype T]

instance (a : Holds T) : Decidable a.Free := instDecidableAnd

/-- The codes with which a read lock may fail. -/
def RdCall.gives (k : RdCall) (a : Holds T) (t : T) : Code → Bool
  | .edeadlk => a.writer = some t
  | .ebusy => match k with
      | .tryrdlock => a.shut t
      | _ => false
  | .einval => match k with
      | .timedrdlock abstime => abstime.badNsec && a.shut t
      | _ => false
  | .etimedout => match k with
      | .timedrdlock abstime => !abstime.badNsec
      | _ => false
  | _ => false

/-- The codes with which a write lock may fail. `EINVAL` does not say that somebody holds the
lock: the owner word may be `RWLOCK_RO` for a reader that is only queued, or was. -/
def WrCall.gives (k : WrCall) (a : Holds T) (t : T) : Code → Bool
  | .edeadlk => a.writer = some t
  | .einval => match k with
      | .timedwrlock abstime => abstime.badNsec && a.writer ≠ some t
      | _ => false
  | .etimedout => match k with
      | .timedwrlock abstime => !abstime.badNsec
      | _ => false
  | _ => false

/-- The codes with which `pthread_rwlock_trywrlock` may fail. As above, `EBUSY` only says that
the caller is not the writer. -/
def tryGives (a : Holds T) (t : T) : Code → Bool
  | .edeadlk => a.writer = some t
  | .ebusy => a.writer ≠ some t
  | _ => false

/-- The lock after `t` took the write hold, when it is free. -/
def Holds.write (a : Holds T) (t : T) : Option (Holds T) :=
  if a.Free then some { a with writer := some t } else none

/-- The lock after `t` took a read hold, when there is no writer. -/
def Holds.read (a : Holds T) (t : T) : Option (Holds T) :=
  if a.writer = none then some { a with reads := Function.update a.reads t (a.reads t + 1) }
  else none

/-- The lock after `t` gave up a hold: the write hold, or else a read hold. -/
def Holds.release (a : Holds T) (t : T) : Option (Holds T) :=
  if a.writer = some t then some { a with writer := none }
  else if 0 < a.reads t then some { a with reads := Function.update a.reads t (a.reads t - 1) }
  else none

/-- The atomic read-write lock. -/
def atomicRwlock (T : Type u) [DecidableEq T] [Fintype T] : Object T (Holds T) Call Code where
  init a := a = ⟨fun _ => 0, none⟩
  apply t o r a :=
    match o, r with
    | .rd _, .ok => a.read t
    | .rd k, r => if k.gives a t r then some a else none
    | .wr _, .ok => a.write t
    | .wr k, r => if k.gives a t r then some a else none
    | .trywrlock, .ok => a.write t
    | .trywrlock, r => if tryGives a t r then some a else none
    | .unlock, .ok => a.release t
    | .unlock, _ => none

end Atomic

/-- How far a thread is with its call. -/
def phase : Pc → Phase Call Code
  | .idle => .idle
  | .rdOwned k | .rdLoad k | .rdCas k .. | .rdAdd k _ | .rdWait k _ | .rdAsleep k
  | .rdDec k _ => .called (.rd k)
  | .rdClock abstime _ => .called (.rd (.timedrdlock abstime))
  | .rdWake => .done .ok
  | .wrOwned k | .wrLoad k | .wrCas k | .wrAdd k _ | .wrWait k .. | .wrAsleep k
  | .wrDec k _ => .called (.wr k)
  | .wrClock abstime .. => .called (.wr (.timedwrlock abstime))
  | .wrCheck _ | .wrWake => .done .etimedout
  | .tryLoad | .tryOwned _ | .tryCas => .called .trywrlock
  | .unLoad | .unOwned | .unStore | .unCount | .unLoadx | .unCas .. => .called .unlock
  | .unTestWr | .unTestRd | .unWakeRd | .unTestQwr | .unWakeWr => .done .ok
  | .ret r | .unRet r => .done r

/-- The event of a step: an idle thread calls an operation, or its call returns. -/
def label (c : Choice T) (l : Local) : Option (Event Call Code) :=
  match l.pc with
  | .idle => some (.inv c.call)
  | .ret r | .unRet r => some (.res r)
  | _ => none

/-- The deadline of a read lock is good, if it has one. -/
def RdCall.good : RdCall → Bool
  | timedrdlock abstime => !abstime.badNsec
  | _ => true

/-- The deadline of a write lock is good, if it has one. -/
def WrCall.good : WrCall → Bool
  | wrlock => true
  | timedwrlock abstime => !abstime.badNsec

/-- What a thread knows after its checks: it is not the writer, and the deadline that it
may run into is good. -/
def Knows (l : Local) : Prop :=
  match l.pc with
  | .rdLoad _ | .rdCas .. => l.writes = false
  | .rdAdd k _ | .rdWait k _ | .rdAsleep k => l.writes = false ∧ k.good = true
  | .rdClock abstime _ => l.writes = false ∧ abstime.badNsec = false
  | .rdDec k out => l.writes = false ∧ k.good = true ∧ (out = true → k.timed = true)
  | .wrLoad _ | .wrCas _ | .tryCas => l.writes = false
  | .wrAdd k _ | .wrWait k .. | .wrAsleep k => l.writes = false ∧ k.good = true
  | .wrClock abstime .. => l.writes = false ∧ abstime.badNsec = false
  | .wrDec k out => l.writes = false ∧ k.good = true ∧ (out = true → k.timed = true)
  | _ => True

/-! ### What a thread knows -/

variable [DecidableEq T] {I : Ids T} {t : T} {c : Choice T} {m m' : Mem T} {l l' p : Local}

/-- Only a timed wait of a reader or a writer times out. -/
theorem timed_of_wakeUp {asleep timed out : Bool} {ends : Option WaitEnd}
    (h : wakeUp asleep timed ends = some out) : out = true → timed = true := by
  rintro rfl
  exact (wakeUp_true h).2

/-- A read lock that goes on to queue has a good deadline. -/
theorem knows_rdBlocked {k : RdCall} {oid : BitVec 32} (hw : l.writes = false) :
    Knows { l with pc := k.blocked oid } := by
  cases k with
  | rdlock => exact ⟨hw, rfl⟩
  | tryrdlock => trivial
  | timedrdlock abstime =>
      rw [RdCall.blocked]
      split
      · trivial
      · next hgood => exact ⟨hw, by simpa [RdCall.good] using hgood⟩

/-- A write lock that goes on to queue has a good deadline. -/
theorem knows_wrBlocked {k : WrCall} {owner : BitVec 32} (hw : l.writes = false) :
    Knows { l with pc := k.blocked owner } := by
  cases k with
  | wrlock => exact ⟨hw, rfl⟩
  | timedwrlock abstime =>
      rw [WrCall.blocked]
      split
      · trivial
      · next hgood => exact ⟨hw, by simpa [WrCall.good] using hgood⟩

/-- A thread knows what its last access told. -/
theorem knows_of_exec (hown : l.writes = true ↔ m.oid = I.id t) (hl : Knows l)
    (h : exec I t c m l = some (m', l')) : Knows l' := by
  rcases l with ⟨pc, reads, writes⟩
  have hnot : m.oid ≠ I.id t → writes = false := by
    intro hne
    simpa [hne] using hown
  cases pc with
  | idle =>
      obtain ⟨l₁, henter, heq⟩ := Option.map_eq_some_iff.mp h
      cases heq
      rcases hc : c.call with k | k | _ | _ <;> rw [hc] at henter
      · cases henter
        trivial
      · cases henter
        trivial
      · cases henter
        trivial
      · rw [enter] at henter
        split at henter <;> cases henter
        trivial
  | rdOwned k =>
      cases h
      dsimp only
      split
      · trivial
      · next hne => exact hnot hne
  | rdLoad k =>
      cases h
      dsimp only
      split
      · exact hl
      · exact knows_rdBlocked (l := ⟨.rdLoad k, reads, writes⟩) hl
  | rdCas k oid nrd =>
      simp only [exec] at h
      split at h <;> cases h
      · split <;> trivial
      · exact hl
  | rdWake =>
      cases h
      trivial
  | rdAdd k oid =>
      cases h
      cases k with
      | timedrdlock abstime => exact ⟨hl.1, by simpa [RdCall.good] using hl.2⟩
      | _ => exact hl
  | rdClock abstime oid =>
      cases h
      have hgood : (RdCall.timedrdlock abstime).good = true := by simp [RdCall.good, hl.2]
      dsimp only
      split
      · exact ⟨hl.1, hgood, fun _ => rfl⟩
      · exact ⟨hl.1, hgood⟩
  | rdWait k oid =>
      simp only [exec] at h
      split at h <;> cases h
      · exact hl
      · exact ⟨hl.1, hl.2, fun hout => by cases hout⟩
  | rdAsleep k =>
      obtain ⟨out, hout, heq⟩ := Option.map_eq_some_iff.mp h
      cases heq
      exact ⟨hl.1, hl.2, timed_of_wakeUp hout⟩
  | rdDec k out =>
      cases h
      dsimp only
      split
      · trivial
      · exact hl.1
  | wrOwned k =>
      cases h
      dsimp only
      split
      · trivial
      · next hne => exact hnot hne
  | wrLoad k =>
      cases h
      dsimp only
      split
      · exact hl
      · exact knows_wrBlocked (l := ⟨.wrLoad k, reads, writes⟩) hl
  | wrCas k =>
      simp only [exec] at h
      split at h <;> cases h
      · trivial
      · exact hl
  | wrAdd k owner =>
      cases h
      cases k with
      | timedwrlock abstime => exact ⟨hl.1, by simpa [WrCall.good] using hl.2⟩
      | wrlock => exact hl
  | wrClock abstime owner nw =>
      cases h
      have hgood : (WrCall.timedwrlock abstime).good = true := by simp [WrCall.good, hl.2]
      dsimp only
      split
      · exact ⟨hl.1, hgood, fun _ => rfl⟩
      · exact ⟨hl.1, hgood⟩
  | wrWait k owner nw =>
      simp only [exec] at h
      split at h <;> cases h
      · exact hl
      · exact ⟨hl.1, hl.2, fun hout => by cases hout⟩
  | wrAsleep k =>
      obtain ⟨out, hout, heq⟩ := Option.map_eq_some_iff.mp h
      cases heq
      exact ⟨hl.1, hl.2, timed_of_wakeUp hout⟩
  | wrDec k out =>
      cases h
      dsimp only
      split
      · trivial
      · exact hl.1
  | wrCheck nw =>
      cases h
      dsimp only
      split <;> trivial
  | tryOwned owner =>
      cases h
      dsimp only
      split
      · trivial
      · next hne =>
        split
        · exact hnot hne
        · trivial
  | tryCas =>
      simp only [exec] at h
      split at h <;> cases h <;> trivial
  | unLoad =>
      cases h
      dsimp only
      split <;> trivial
  | unOwned =>
      cases h
      dsimp only
      split <;> trivial
  | unTestWr =>
      cases h
      dsimp only
      split <;> trivial
  | unTestRd =>
      cases h
      dsimp only
      split <;> trivial
  | unCount =>
      cases h
      dsimp only
      split <;> trivial
  | unCas oid nrd =>
      simp only [exec] at h
      split at h <;> cases h
      · split <;> trivial
      · trivial
  | unTestQwr =>
      cases h
      dsimp only
      split <;> trivial
  | unWakeWr =>
      obtain ⟨q, -, heq⟩ := Option.map_eq_some_iff.mp h
      cases heq
      trivial
  | _ =>
      cases h
      trivial

/-! ### The simulation -/

variable [Fintype T] {a a' : Holds T}

/-- The atomic lock as the words and the thread `t` show it. -/
structure Seen (I : Ids T) (t : T) (m : Mem T) (l : Local) (a : Holds T) : Prop where
  reads : a.reads t = l.reads
  writes : l.writes = true ↔ a.writer = some t
  own : m.oid = I.id t ↔ l.writes = true
  unmasked : m.oid &&& PTHREAD_ID_MASK = 0 → a.writer = none
  masked : m.oid &&& PTHREAD_ID_MASK ≠ 0 → a.writer ≠ none
  unowned : m.oid = RWLOCK_UNOWNED → a.Free
  reader : 0 < l.reads → m.oid = RWLOCK_RO ∧ m.nrd ≠ 0

/-- The holds after a step of `t`, which changes its own only. -/
structure Follows (t : T) (a : Holds T) (p : Local) (a' : Holds T) : Prop where
  reads : a'.reads t = p.reads
  writes : p.writes = true ↔ a'.writer = some t
  others : ∀ u, u ≠ t → a'.reads u = a.reads u ∧ (a'.writer = some u ↔ a.writer = some u)

omit [DecidableEq T] [Fintype T] in
/-- A step that changes no hold. -/
theorem Follows.same (hr : a.reads t = p.reads) (hw : p.writes = true ↔ a.writer = some t) :
    Follows t a p a := ⟨hr, hw, fun _ _ => ⟨rfl, Iff.rfl⟩⟩

omit [DecidableEq T] in
/-- A thread takes the write hold of a free lock. -/
theorem Follows.write (hfree : a.Free) (hr : a.reads t = p.reads) (hw : p.writes = true) :
    ∃ a', a.write t = some a' ∧ Follows t a p a' := by
  refine ⟨_, if_pos hfree, hr, iff_of_true hw rfl, fun u hu => ⟨rfl, ?_⟩⟩
  rw [hfree.1]
  simp [hu.symm]

omit [Fintype T] in
/-- A thread takes a read hold. -/
theorem Follows.read (hnone : a.writer = none) (hr : a.reads t + 1 = p.reads)
    (hw : p.writes = true ↔ a.writer = some t) :
    ∃ a', a.read t = some a' ∧ Follows t a p a' := by
  refine ⟨_, if_pos hnone, ?_, hw, fun u hu => ⟨?_, Iff.rfl⟩⟩
  · exact (Function.update_self ..).trans hr
  · exact Function.update_of_ne hu ..

omit [Fintype T] in
/-- The writer gives up its hold. -/
theorem Follows.releaseWrite (how : a.writer = some t) (hr : a.reads t = p.reads)
    (hw : p.writes = false) : ∃ a', a.release t = some a' ∧ Follows t a p a' := by
  refine ⟨_, if_pos how, hr, by simp [hw], fun u hu => ⟨rfl, ?_⟩⟩
  rw [how]
  simp [hu.symm]

omit [Fintype T] in
/-- A reader gives up a hold. -/
theorem Follows.releaseRead (how : a.writer ≠ some t) (hpos : 0 < a.reads t)
    (hr : a.reads t - 1 = p.reads) (hw : p.writes = true ↔ a.writer = some t) :
    ∃ a', a.release t = some a' ∧ Follows t a p a' := by
  refine ⟨_, (if_neg how).trans (if_pos hpos), ?_, hw, fun u hu => ⟨?_, Iff.rfl⟩⟩
  · exact (Function.update_self ..).trans hr
  · exact Function.update_of_ne hu ..

omit [Fintype T] in
/-- A thread without the write hold is kept out by the owner. -/
theorem Seen.shut (hs : Seen I t m l a) (hm : m.oid &&& PTHREAD_ID_MASK ≠ 0)
    (hw : l.writes = false) : a.shut t = true := by
  have hne : a.writer ≠ some t := by
    rw [Ne, ← hs.writes]
    simp [hw]
  simp [Holds.shut, hne, Option.isSome_iff_ne_none.mpr (hs.masked hm)]

/-- A read lock fails. -/
theorem moves_rdGives {k : RdCall} {r : Code} (h : k.gives a t r = true) :
    (atomicRwlock T).Moves t none (.called (.rd k)) a (.done r) a := by
  refine .eff ?_
  have happly : (atomicRwlock T).apply t (.rd k) r a = if k.gives a t r then some a else none := by
    cases r with
    | ok => cases h
    | _ => rfl
  rw [happly, if_pos h]

/-- A write lock fails. -/
theorem moves_wrGives {k : WrCall} {r : Code} (h : k.gives a t r = true) :
    (atomicRwlock T).Moves t none (.called (.wr k)) a (.done r) a := by
  refine .eff ?_
  have happly : (atomicRwlock T).apply t (.wr k) r a = if k.gives a t r then some a else none := by
    cases r with
    | ok => cases h
    | _ => rfl
  rw [happly, if_pos h]

/-- The try of a write lock fails. -/
theorem moves_tryGives {r : Code} (h : tryGives a t r = true) :
    (atomicRwlock T).Moves t none (.called .trywrlock) a (.done r) a := by
  refine .eff ?_
  have happly : (atomicRwlock T).apply t .trywrlock r a =
      if tryGives a t r then some a else none := by
    cases r with
    | ok => cases h
    | _ => rfl
  rw [happly, if_pos h]

/-- One access of a thread is nothing to the atomic lock, or the effect of its call. -/
theorem moves_of_exec (hs : Seen I t m l a) (hl : Knows l) (hpc : PcOk l)
    (h : exec I t c m l = some (m', l')) :
    ∃ a', (atomicRwlock T).Moves t (label c l) (phase l.pc) a (phase l'.pc) a' ∧
      Follows t a l' a' := by
  rcases l with ⟨pc, reads, writes⟩
  have hsame : Follows t a ⟨pc, reads, writes⟩ a := .same hs.reads hs.writes
  have hnot : writes = false → a.writer ≠ some t := by
    rintro rfl how
    exact absurd (hs.writes.mpr how) (by simp)
  cases pc with
  | idle =>
      obtain ⟨l₁, henter, heq⟩ := Option.map_eq_some_iff.mp h
      cases heq
      rcases hc : c.call with k | k | _ | _ <;> rw [hc] at henter
      · cases henter
        simp only [label, hc]
        exact ⟨a, .inv _, .same hs.reads hs.writes⟩
      · cases henter
        simp only [label, hc]
        exact ⟨a, .inv _, .same hs.reads hs.writes⟩
      · cases henter
        simp only [label, hc]
        exact ⟨a, .inv _, .same hs.reads hs.writes⟩
      · rw [enter] at henter
        split at henter <;> cases henter
        simp only [label, hc]
        exact ⟨a, .inv _, .same hs.reads hs.writes⟩
  | rdOwned k =>
      cases h
      refine ⟨a, ?_, .same hs.reads hs.writes⟩
      dsimp only
      split
      · -- The owner itself asks: the call fails with this look.
        next how => exact moves_rdGives (by simpa [RdCall.gives] using hs.writes.mp (hs.own.mp how))
      · exact .stutter
  | rdLoad k =>
      cases h
      refine ⟨a, ?_, .same hs.reads hs.writes⟩
      dsimp only
      split
      · exact .stutter
      · next hm =>
        -- A writer keeps the thread out. That is enough for a try to fail, and for a bad deadline.
        have hshut := hs.shut hm hl
        cases k with
        | rdlock => exact .stutter
        | tryrdlock => exact moves_rdGives hshut
        | timedrdlock abstime =>
            rw [RdCall.blocked]
            split
            · next hbad => exact moves_rdGives (by simp [RdCall.gives, hbad, hshut])
            · exact .stutter
  | rdCas k oid nrd =>
      simp only [exec] at h
      split at h
      · next hm =>
        cases h
        -- The read hold is taken. Other readers are woken after it.
        have hnone : a.writer = none := hs.unmasked (by rw [hm.1]; exact hpc)
        obtain ⟨a', ha', hf⟩ := Follows.read (t := t)
          (p := ⟨if oid = RWLOCK_UNOWNED ∧ nrd ≠ 0 then .rdWake else .ret .ok, reads + 1, writes⟩)
          hnone (by rw [hs.reads]) hs.writes
        refine ⟨a', ?_, hf⟩
        dsimp only
        split <;> exact .eff ha'
      · cases h
        exact ⟨a, .stutter, .same hs.reads hs.writes⟩
  | rdWake =>
      cases h
      exact ⟨a, .stutter, .same hs.reads hs.writes⟩
  | rdAdd k oid =>
      cases h
      refine ⟨a, ?_, .same hs.reads hs.writes⟩
      cases k <;> exact .stutter
  | rdClock abstime oid =>
      cases h
      refine ⟨a, ?_, .same hs.reads hs.writes⟩
      dsimp only
      split <;> exact .stutter
  | rdWait k oid =>
      simp only [exec] at h
      split at h <;> cases h <;> exact ⟨a, .stutter, .same hs.reads hs.writes⟩
  | rdAsleep k =>
      obtain ⟨out, -, heq⟩ := Option.map_eq_some_iff.mp h
      cases heq
      exact ⟨a, .stutter, .same hs.reads hs.writes⟩
  | rdDec k out =>
      cases h
      refine ⟨a, ?_, .same hs.reads hs.writes⟩
      dsimp only
      split
      · next hout =>
        -- The wait timed out, so it had a deadline, and a good one.
        cases k with
        | timedrdlock abstime => exact moves_rdGives hl.2.1
        | _ => cases hl.2.2 hout
      · exact .stutter
  | wrOwned k =>
      cases h
      refine ⟨a, ?_, .same hs.reads hs.writes⟩
      dsimp only
      split
      · next how => exact moves_wrGives (by simpa [WrCall.gives] using hs.writes.mp (hs.own.mp how))
      · exact .stutter
  | wrLoad k =>
      cases h
      refine ⟨a, ?_, .same hs.reads hs.writes⟩
      dsimp only
      split
      · exact .stutter
      · cases k with
        | wrlock => exact .stutter
        | timedwrlock abstime =>
            rw [WrCall.blocked]
            split
            · next hbad => exact moves_wrGives (by simp [WrCall.gives, hbad, hnot hl])
            · exact .stutter
  | wrCas k =>
      simp only [exec] at h
      split at h
      · next hm =>
        cases h
        -- An unowned lock is free, and now the write hold is taken.
        obtain ⟨a', ha', hf⟩ := Follows.write (t := t) (p := ⟨.ret .ok, reads, true⟩)
          (hs.unowned hm) hs.reads rfl
        exact ⟨a', .eff ha', hf⟩
      · cases h
        exact ⟨a, .stutter, .same hs.reads hs.writes⟩
  | wrAdd k owner =>
      cases h
      refine ⟨a, ?_, .same hs.reads hs.writes⟩
      cases k <;> exact .stutter
  | wrClock abstime owner nw =>
      cases h
      refine ⟨a, ?_, .same hs.reads hs.writes⟩
      dsimp only
      split <;> exact .stutter
  | wrWait k owner nw =>
      simp only [exec] at h
      split at h <;> cases h <;> exact ⟨a, .stutter, .same hs.reads hs.writes⟩
  | wrAsleep k =>
      obtain ⟨out, -, heq⟩ := Option.map_eq_some_iff.mp h
      cases heq
      exact ⟨a, .stutter, .same hs.reads hs.writes⟩
  | wrDec k out =>
      cases h
      refine ⟨a, ?_, .same hs.reads hs.writes⟩
      dsimp only
      split
      · next hout =>
        cases k with
        | timedwrlock abstime => exact moves_wrGives hl.2.1
        | wrlock => cases hl.2.2 hout
      · exact .stutter
  | wrCheck nw =>
      cases h
      refine ⟨a, ?_, .same hs.reads hs.writes⟩
      dsimp only
      split <;> exact .stutter
  | wrWake =>
      cases h
      exact ⟨a, .stutter, .same hs.reads hs.writes⟩
  | tryLoad =>
      cases h
      exact ⟨a, .stutter, .same hs.reads hs.writes⟩
  | tryOwned owner =>
      cases h
      refine ⟨a, ?_, .same hs.reads hs.writes⟩
      dsimp only
      split
      · next how => exact moves_tryGives (by simpa [tryGives] using hs.writes.mp (hs.own.mp how))
      · next hne =>
        split
        · exact .stutter
        · have hother : a.writer ≠ some t := fun how => hne (hs.own.mpr (hs.writes.mpr how))
          exact moves_tryGives (by simp [tryGives, hother])
  | tryCas =>
      simp only [exec] at h
      split at h
      · next hm =>
        cases h
        obtain ⟨a', ha', hf⟩ := Follows.write (t := t) (p := ⟨.ret .ok, reads, true⟩)
          (hs.unowned hm) hs.reads rfl
        exact ⟨a', .eff ha', hf⟩
      · -- The lock was taken after the load.
        cases h
        exact ⟨a, moves_tryGives (by simp [tryGives, hnot hl]), .same hs.reads hs.writes⟩
  | unLoad =>
      cases h
      refine ⟨a, ?_, .same hs.reads hs.writes⟩
      dsimp only
      split <;> exact .stutter
  | unOwned =>
      cases h
      refine ⟨a, ?_, .same hs.reads hs.writes⟩
      dsimp only
      split
      · exact .stutter
      · next hne => exact absurd (hs.own.mpr hpc) hne
  | unStore =>
      cases h
      -- The write hold is gone with the store. The wakes come after it.
      obtain ⟨a', ha', hf⟩ := Follows.releaseWrite (t := t) (p := ⟨.unTestWr, reads, false⟩)
        (hs.writes.mp hpc) hs.reads rfl
      exact ⟨a', .eff ha', hf⟩
  | unTestWr =>
      cases h
      refine ⟨a, ?_, .same hs.reads hs.writes⟩
      dsimp only
      split <;> exact .stutter
  | unTestRd =>
      cases h
      refine ⟨a, ?_, .same hs.reads hs.writes⟩
      dsimp only
      split <;> exact .stutter
  | unWakeRd =>
      cases h
      exact ⟨a, .stutter, .same hs.reads hs.writes⟩
  | unCount =>
      cases h
      refine ⟨a, ?_, .same hs.reads hs.writes⟩
      dsimp only
      split
      · -- There is a reader, the thread itself.
        next h0 => exact absurd h0 (hs.reader hpc).2
      · exact .stutter
  | unLoadx =>
      cases h
      exact ⟨a, .stutter, .same hs.reads hs.writes⟩
  | unCas oid nrd =>
      simp only [exec] at h
      split at h
      · next hm =>
        cases h
        -- The read hold is gone. The last reader still has to look for a writer.
        have hpos : 0 < a.reads t := hs.reads ▸ hpc
        have hnone : a.writer = none := hs.unmasked (by rw [(hs.reader hpc).1]; decide)
        obtain ⟨a', ha', hf⟩ := Follows.releaseRead (t := t)
          (p := ⟨if nrd = 1 then .unTestQwr else .unRet .ok, reads - 1, writes⟩)
          (by simp [hnone]) hpos (by rw [hs.reads]) hs.writes
        refine ⟨a', ?_, hf⟩
        dsimp only
        split <;> exact .eff ha'
      · cases h
        exact ⟨a, .stutter, .same hs.reads hs.writes⟩
  | unTestQwr =>
      cases h
      refine ⟨a, ?_, .same hs.reads hs.writes⟩
      dsimp only
      split <;> exact .stutter
  | unWakeWr =>
      obtain ⟨q, -, heq⟩ := Option.map_eq_some_iff.mp h
      cases heq
      exact ⟨a, .stutter, .same hs.reads hs.writes⟩
  | ret r =>
      cases h
      exact ⟨a, .res r, .same hs.reads hs.writes⟩
  | unRet r =>
      cases h
      exact ⟨a, .res r, .same hs.reads hs.writes⟩

/-- The owner word is one of the special owners, or an id. -/
def OwnerOk (I : Ids T) (s : Global T (Mem T) Local) : Prop :=
  s.mem.oid = RWLOCK_UNOWNED ∨ s.mem.oid = RWLOCK_RO ∨ ∃ u, s.mem.oid = I.id u

/-- It is so in every reached state. -/
theorem ownerOk_of_reach {s : Global T (Mem T) Local}
    (h : (machine I).ReachVia (fun s _ => Small s) s) : OwnerOk I s := by
  refine Exec.invariant_of (P := OwnerOk I) (Q := Inv I)
    (fun s hs => inv_of_reach (fun _ _ => id) hs)
    (fun s hs => ?_) (fun s t c m l hinv ho _ he => ?_) h
  · rw [OwnerOk, hs.1]
    exact .inl rfl
  · exact (exec_own he (hinv.pc t)).owner ho

/-- The holds that the atomic lock should have. -/
def Records (s : Global T (Mem T) Local) (a : Holds T) : Prop :=
  (∀ t, a.reads t = (s.loc t).reads) ∧ ∀ t, (s.loc t).writes = true ↔ a.writer = some t

/-- What is known of every reached state. -/
structure Known (I : Ids T) (s : Global T (Mem T) Local) : Prop where
  inv : Inv I s
  owner : OwnerOk I s
  knows : ∀ t, Knows (s.loc t)

omit [DecidableEq T] in
/-- The words show the holds of the atomic lock. -/
theorem Known.seen {s : Global T (Mem T) Local} (hs : Known I s) (hsmall : Small s)
    (ha : Records s a) (t : T) : Seen I t s.mem (s.loc t) a := by
  have hnone : (∀ u, s.mem.oid ≠ I.id u) → a.writer = none := by
    intro hne
    cases hw : a.writer with
    | none => rfl
    | some u => exact absurd ((hs.inv.writer u).mp ((ha.2 u).mpr hw)) (hne u)
  refine ⟨ha.1 t, ha.2 t, (hs.inv.writer t).symm, fun h0 => ?_, fun h0 => ?_, fun h0 => ⟨?_, ?_⟩,
    fun hpos => ⟨hs.inv.reader t hpos, hs.inv.nrd_ne_zero hsmall hpos⟩⟩
  · refine hnone fun u hu => ?_
    rw [hu] at h0
    exact I.masked u h0
  · rcases hs.owner with ho | ho | ⟨u, hu⟩
    · rw [ho] at h0
      exact absurd (by decide) h0
    · rw [ho] at h0
      exact absurd (by decide) h0
    · have hw := (ha.2 u).mp ((hs.inv.writer u).mpr hu)
      simp [hw]
  · exact hnone fun u hu => (I.ne_special u).1 (hu.symm.trans h0)
  · intro u
    rw [ha.1 u]
    by_contra hne
    have hro := hs.inv.reader u (Nat.pos_of_ne_zero hne)
    rw [h0] at hro
    exact absurd hro (by decide)

/-- The accesses simulate the atomic lock. -/
theorem simulates : (exec I).Simulates IsInit (fun s _ => Small s) label (atomicRwlock T)
    (fun l q => q = phase l.pc) (Known I) Records where
  init := by
    rintro s ⟨-, hloc⟩
    exact ⟨⟨_, rfl, fun t => by rw [hloc t], fun t => by simp [hloc t]⟩,
      fun t => by rw [hloc t]; rfl⟩
  step := by
    rintro s t c m l a q hknown ha rfl hsmall he
    obtain ⟨a', hmove, hf⟩ :=
      moves_of_exec (hknown.seen hsmall ha t) (hknown.knows t) (hknown.inv.pc t) he
    refine ⟨a', _, hmove, rfl, ?_, ?_⟩
    · refine (forall_loc_iff (P := fun u (p : Local) => a'.reads u = p.reads)).mpr
        ⟨hf.reads, fun u hu => ?_⟩
      rw [(hf.others u hu).1]
      exact ha.1 u
    · refine (forall_loc_iff (P := fun u (p : Local) => p.writes = true ↔ a'.writer = some u)).mpr
        ⟨hf.writes, fun u hu => ?_⟩
      rw [(hf.others u hu).2]
      exact ha.2 u

/-- What is known of every reached state holds in it. -/
theorem known_of_reach {s : Global T (Mem T) Local}
    (h : (machine I).ReachVia (fun s _ => Small s) s) : Known I s := by
  refine ⟨inv_of_reach (fun _ _ => id) h, ownerOk_of_reach h, ?_⟩
  refine Exec.invariant_of (P := fun s => ∀ t, Knows (s.loc t)) (Q := Inv I)
    (fun s hs => inv_of_reach (fun _ _ => id) hs) (fun s hs t => ?_)
    (fun s t c m l hinv hk _ he => ?_) h
  · rw [hs.2 t]
    trivial
  · exact forall_loc_iff.mpr ⟨knows_of_exec (hinv.writer t) (hk t) he, fun u _ => hk u⟩

/-- Every history of a read-write lock is a history of the atomic one, as long as there are
fewer than `2 ^ 32` read holds and queued readers. -/
theorem rwlock_linearizable {H : List (T × Event Call Code)} {s : Global T (Mem T) Local}
    (h : (exec I).History IsInit (fun s _ => Small s) label H s) :
    (atomicRwlock T).Linearizable H :=
  h.linearizable (fun _ => known_of_reach) simulates

/-- A reader queues behind the writer and gets the lock when the writer leaves. -/
theorem rwlock_linearizable_handover : (atomicRwlock (Fin 2)).Linearizable
    [(0, .inv (.wr .wrlock)), (0, .res .ok), (1, .inv (.rd .rdlock)), (0, .inv .unlock),
      (0, .res .ok), (1, .res .ok)] := by
  have hrun : ∃ s, (exec Ids.two).History IsInit (fun s _ => Small s) label
      [(0, .inv (.wr .wrlock)), (0, .res .ok), (1, .inv (.rd .rdlock)), (0, .inv .unlock),
        (0, .res .ok), (1, .res .ok)] s :=
    Exec.exists_history_run (s := ⟨⟨0, 0, 0, ∅, ∅⟩, fun _ => ⟨.idle, 0, false⟩⟩)
      ⟨rfl, fun _ => rfl⟩
      [(0, { call := .wr .wrlock }), (0, {}), (0, {}), (0, {}), (0, {}),
        (1, { call := .rd .rdlock }), (1, {}), (1, {}), (1, {}), (1, {}),
        (0, {}), (0, {}), (0, {}), (0, {}), (0, {}), (0, {}), (0, {}), (0, {}),
        (1, {}), (1, {}), (1, {}), (1, {}), (1, {})] (by decide)
  obtain ⟨s, hs⟩ := hrun
  exact rwlock_linearizable hs

end Hlpt.Rwlock
