import Hlpt.Lib.Counter
import Hlpt.Rwlock.Steps

/-!
# `Hlpt.Rwlock.Exclusion`: a write hold excludes every other hold

`nrd` counts two kinds of threads at once: the read holds, and the readers that
are only queued (`shareRd`). The invariant `Inv` ties the three words to the
threads:

* `nrd` and `nwr` are the sums of the shares, modulo `2 ^ 32`;
* `oid` is a thread's id exactly when that thread has the write hold;
* a read hold keeps `oid` at `RWLOCK_RO`.

The only access that could break it is the last-reader test of
`pthread_rwlock_unlock`: a reader that finds `nrd = 1` gives up the ownership. As
long as the sum fits into 32 bits, `nrd = 1` says that its own hold is the only
share, so nobody else loses one.
-/

set_option autoImplicit false

namespace Hlpt.Rwlock

open Hlpt.Lib

universe u

/-! ### The shares of a thread -/

/-- A reader that is counted in `nrd` while it is queued. -/
def queuedRd : Pc → ℕ
  | .rdClock .. | .rdWait .. | .rdAsleep _ | .rdDec .. => 1
  | _ => 0

/-- A writer that is counted in `nwr`. -/
def queuedWr : Pc → ℕ
  | .wrClock .. | .wrWait .. | .wrAsleep _ | .wrDec .. => 1
  | _ => 0

/-- What a thread contributes to `nrd`: its read holds, and one while it is queued. -/
def shareRd (l : Local) : ℕ := l.reads + queuedRd l.pc

/-- What a thread contributes to `nwr`. -/
def shareWr (l : Local) : ℕ := queuedWr l.pc

/-- What the control point of a thread says about its holds. An unlock starts only
with a hold, goes to the branch of that kind, and does not fail. -/
def PcOk (l : Local) : Prop :=
  match l.pc with
  | .rdCas _ oid _ => oid &&& PTHREAD_ID_MASK = 0
  | .unLoad => l.writes = true ∨ 0 < l.reads
  | .unOwned | .unStore => l.writes = true
  | .unCount | .unLoadx | .unCas .. => 0 < l.reads
  | .unRet r => r = .ok
  | _ => True

/-- What one step does to the owner word and to the holds of the thread that moved. -/
inductive OwnStep {T : Type u} (I : Ids T) (t : T) (m m' : Mem T) (l l' : Local) : Prop
  | quiet (ho : m'.oid = m.oid) (hr : l'.reads = l.reads) (hw : l'.writes = l.writes)
  | rdlock (hm : m.oid &&& PTHREAD_ID_MASK = 0) (ho : m'.oid = RWLOCK_RO)
      (hr : l'.reads = l.reads + 1) (hw : l'.writes = l.writes)
  | wrlock (hm : m.oid = RWLOCK_UNOWNED) (ho : m'.oid = I.id t) (hr : l'.reads = l.reads)
      (hw : l'.writes = true)
  | wrunlock (hpc : l.pc = .unStore) (ho : m'.oid = RWLOCK_UNOWNED)
      (hr : l'.reads = l.reads) (hw : l'.writes = false)
  | rdunlock (hpc : l.pc = .unCas m.oid m.nrd)
      (ho : m'.oid = if m.nrd = 1 then RWLOCK_UNOWNED else m.oid)
      (hr : l'.reads + 1 = l.reads) (hw : l'.writes = l.writes)

variable {T : Type u} [DecidableEq T] {I : Ids T} {t : T} {c : Choice T} {m m' : Mem T}
  {l l' : Local}

/-! ### What one step does -/

omit [DecidableEq T] in
/-- A move keeps the queued readers and writers. -/
theorem Moves.queued {pc pc' : Pc} (h : Moves I t c m pc pc') :
    queuedRd pc' = queuedRd pc ∧ queuedWr pc' = queuedWr pc := by
  cases h <;> exact ⟨rfl, rfl⟩

/-- The wait of a reader that has added its share to `nrd`. -/
theorem RdCall.queued_wait (k : RdCall) (oid : BitVec 32) :
    queuedRd (k.wait oid) = 1 ∧ queuedWr (k.wait oid) = 0 := by
  cases k <;> exact ⟨rfl, rfl⟩

/-- The wait of a writer that has added its share to `nwr`. -/
theorem WrCall.queued_wait (k : WrCall) (owner nw : BitVec 32) :
    queuedRd (k.wait owner nw) = 0 ∧ queuedWr (k.wait owner nw) = 1 := by
  cases k <;> exact ⟨rfl, rfl⟩

/-- `nrd` follows the read holds and the queued readers. -/
theorem exec_nrd (h : exec I t c m l = some (m', l')) (hpc : PcOk l) :
    CountStep m.nrd m'.nrd (shareRd l) (shareRd l') := by
  cases step_of_exec h with
  | @move pc pc' reads writes hm =>
    refine .inl ⟨rfl, ?_⟩
    show reads + queuedRd pc' = reads + queuedRd pc
    rw [hm.queued.1]
  | @rdTake k reads writes =>
    -- The hold that the reader takes is its share.
    refine .inr (.inl ⟨rfl, ?_⟩)
    show reads + 1 + queuedRd (if _ then _ else _) = reads + 0 + 1
    split <;> rfl
  | @rdAdd k oid reads writes =>
    refine .inr (.inl ⟨rfl, ?_⟩)
    show reads + queuedRd (k.wait oid) = reads + 0 + 1
    rw [(k.queued_wait oid).1]
  | @rdDec k out reads writes =>
    refine .inr (.inr ⟨rfl, ?_⟩)
    show reads + queuedRd (if _ then _ else _) + 1 = reads + 1
    split <;> rfl
  | @wrAdd k owner reads writes =>
    refine .inl ⟨rfl, ?_⟩
    show reads + queuedRd (k.wait owner m.nwr) = reads + 0
    rw [(k.queued_wait owner m.nwr).1]
  | @wrDec k out reads writes =>
    refine .inl ⟨rfl, ?_⟩
    show reads + queuedRd (if _ then _ else _) = reads + 0
    split <;> rfl
  | @rdLeave reads writes hm =>
    have hpos : 0 < reads := hpc
    exact .inr (.inr ⟨rfl, Nat.sub_add_cancel hpos⟩)
  | @rdLeaveLast reads writes hm =>
    have hpos : 0 < reads := hpc
    exact .inr (.inr ⟨rfl, Nat.sub_add_cancel hpos⟩)
  | _ => exact .inl ⟨rfl, rfl⟩

/-- `nwr` follows the queued writers. -/
theorem exec_nwr (h : exec I t c m l = some (m', l')) :
    CountStep m.nwr m'.nwr (shareWr l) (shareWr l') := by
  cases step_of_exec h with
  | move hm => exact .inl ⟨rfl, hm.queued.2⟩
  | rdTake =>
    refine .inl ⟨rfl, ?_⟩
    show queuedWr (if _ then _ else _) = 0
    split <;> rfl
  | @rdAdd k oid =>
    exact .inl ⟨rfl, (k.queued_wait oid).2⟩
  | rdDec =>
    refine .inl ⟨rfl, ?_⟩
    show queuedWr (if _ then _ else _) = 0
    split <;> rfl
  | @wrAdd k owner => exact .inr (.inl ⟨rfl, (k.queued_wait owner m.nwr).2⟩)
  | wrDec =>
    refine .inr (.inr ⟨rfl, ?_⟩)
    show queuedWr (if _ then _ else _) + 1 = 1
    split <;> rfl
  | _ => exact .inl ⟨rfl, rfl⟩

/-- The owner word and the holds change together, in one of five ways. -/
theorem exec_own (h : exec I t c m l = some (m', l')) (hpc : PcOk l) :
    OwnStep I t m m' l l' := by
  cases step_of_exec h with
  | rdTake => exact .rdlock hpc rfl rfl rfl
  | wrTake hm => exact .wrlock hm rfl rfl rfl
  | tryTake hm => exact .wrlock hm rfl rfl rfl
  | wrLeave => exact .wrunlock rfl rfl rfl rfl
  | rdLeave hm => exact .rdunlock rfl (if_neg hm).symm (Nat.sub_add_cancel hpc) rfl
  | rdLeaveLast hm => exact .rdunlock rfl (if_pos hm).symm (Nat.sub_add_cancel hpc) rfl
  | _ => exact .quiet rfl rfl rfl

omit [DecidableEq T] in
/-- The owner word stays one of the special owners or an id. -/
theorem OwnStep.owner (h : OwnStep I t m m' l l')
    (ho : m.oid = RWLOCK_UNOWNED ∨ m.oid = RWLOCK_RO ∨ ∃ u, m.oid = I.id u) :
    m'.oid = RWLOCK_UNOWNED ∨ m'.oid = RWLOCK_RO ∨ ∃ u, m'.oid = I.id u := by
  cases h with
  | quiet ho' hr hw => rwa [ho']
  | rdlock hm ho' hr hw => exact .inr (.inl ho')
  | wrlock hm ho' hr hw => exact .inr (.inr ⟨t, ho'⟩)
  | wrunlock hpc ho' hr hw => exact .inl ho'
  | rdunlock hpc ho' hr hw =>
      rw [ho']
      split
      · exact .inl rfl
      · exact ho

omit [DecidableEq T] in
/-- A move keeps the control point right, when the words record the thread's own holds. -/
theorem Moves.pcOk {pc pc' : Pc} {reads : ℕ} {writes : Bool} (h : Moves I t c m pc pc')
    (hpc : PcOk ⟨pc, reads, writes⟩) (hwr : writes = true ↔ m.oid = I.id t)
    (hrd : 0 < reads → m.oid = RWLOCK_RO) (hnrd : 0 < reads → m.nrd ≠ 0) :
    PcOk ⟨pc', reads, writes⟩ := by
  cases h with
  | rdFree hm => exact hm
  | unOfWriter hm =>
    -- The reader of the two possible holders is out.
    rcases hpc with hwrites | hreads
    · exact hwrites
    · rw [hrd hreads] at hm
      exact absurd (by decide) hm
  | unOfReader hm =>
    rcases hpc with hwrites | hreads
    · rw [hwr.mp hwrites] at hm
      exact absurd hm (I.masked t)
    · exact hreads
  | unOwned hm => exact hpc
  | unNotOwned hm => exact absurd (hwr.mp hpc) hm
  | unUncounted hm => exact absurd hm (hnrd hpc)
  | unCounted hm => exact hpc
  | unLoadx => exact hpc
  | unAgain => exact hpc
  | unNoRd hm => rfl
  | unNoQwr hm => rfl
  | _ => trivial

/-- The control point stays right, when the words record the thread's own holds. -/
theorem exec_pcOk (h : exec I t c m l = some (m', l')) (hpc : PcOk l)
    (hwr : l.writes = true ↔ m.oid = I.id t) (hrd : 0 < l.reads → m.oid = RWLOCK_RO)
    (hnrd : 0 < l.reads → m.nrd ≠ 0) : PcOk l' := by
  cases step_of_exec h with
  | move hm => exact hm.pcOk hpc hwr hrd hnrd
  | unlock hold => exact hold
  | rdTake =>
    show PcOk ⟨if _ then _ else _, _, _⟩
    split <;> trivial
  | @rdAdd k oid => cases k <;> trivial
  | rdDec =>
    show PcOk ⟨if _ then _ else _, _, _⟩
    split <;> trivial
  | @wrAdd k owner => cases k <;> trivial
  | wrDec =>
    show PcOk ⟨if _ then _ else _, _, _⟩
    split <;> trivial
  | unWakeRd => rfl
  | rdLeave hm => rfl
  | unWakeWr hq => rfl
  | _ => trivial

/-! ### The invariant -/

variable [Fintype T]

/-- The read holds and the queued readers, over all threads. -/
def readers (s : Global T (Mem T) Local) : ℕ := ∑ t, shareRd (s.loc t)

/-- Fewer than `2 ^ 32` read holds and queued readers exist. -/
def Small (s : Global T (Mem T) Local) : Prop := readers s < 2 ^ 32

instance (s : Global T (Mem T) Local) : Decidable (Small s) := Nat.decLt _ _

/-- The words of the lock and the threads agree. -/
structure Inv (I : Ids T) (s : Global T (Mem T) Local) : Prop where
  nrd : s.mem.nrd = BitVec.ofNat 32 (readers s)
  nwr : s.mem.nwr = BitVec.ofNat 32 (∑ t, shareWr (s.loc t))
  pc : ∀ t, PcOk (s.loc t)
  writer : ∀ t, (s.loc t).writes = true ↔ s.mem.oid = I.id t
  reader : ∀ t, 0 < (s.loc t).reads → s.mem.oid = RWLOCK_RO

omit [DecidableEq T] [Fintype T] in
/-- An id is neither of the two special owners. -/
theorem Ids.ne_special (I : Ids T) (t : T) :
    I.id t ≠ RWLOCK_UNOWNED ∧ I.id t ≠ RWLOCK_RO := by
  constructor <;> exact fun h => I.masked t (by rw [h]; decide)

omit [DecidableEq T] in
/-- A thread with a read hold finds `nrd` at least 1. -/
theorem Inv.nrd_ne_zero {s : Global T (Mem T) Local} (hs : Inv I s) (hsmall : Small s)
    (h : 0 < (s.loc t).reads) : s.mem.nrd ≠ 0 := by
  have hle : shareRd (s.loc t) ≤ readers s := le_sum_loc shareRd s.loc t
  simp only [shareRd] at hle
  rw [hs.nrd]
  intro h0
  have := (ofNat_eq_iff (k := 0) hsmall (by decide)).mp h0
  omega

omit [DecidableEq T] in
/-- `nrd = 1` says that there is one share in all. -/
theorem Inv.readers_eq_one {s : Global T (Mem T) Local} (hs : Inv I s) (hsmall : Small s)
    (hone : s.mem.nrd = 1) : readers s = 1 := by
  rw [hs.nrd] at hone
  exact (ofNat_eq_iff (k := 1) hsmall (by decide)).mp hone

omit [DecidableEq T] in
/-- When a reader finds `nrd = 1`, its own hold is its only one. -/
theorem Inv.reads_eq_one {s : Global T (Mem T) Local} (hs : Inv I s) (hsmall : Small s)
    (h : 0 < (s.loc t).reads) (hone : s.mem.nrd = 1) : (s.loc t).reads = 1 := by
  have hle : shareRd (s.loc t) ≤ readers s := le_sum_loc shareRd s.loc t
  rw [hs.readers_eq_one hsmall hone] at hle
  simp only [shareRd] at hle
  omega

/-- When a reader finds `nrd = 1`, no other thread has a read hold. -/
theorem Inv.reads_eq_zero {s : Global T (Mem T) Local} (hs : Inv I s) (hsmall : Small s)
    (h : 0 < (s.loc t).reads) (hone : s.mem.nrd = 1) {u : T} (hu : u ≠ t) :
    (s.loc u).reads = 0 := by
  have hle : shareRd (s.loc u) + shareRd (s.loc t) ≤ readers s :=
    add_le_sum_loc shareRd s.loc hu
  rw [hs.readers_eq_one hsmall hone] at hle
  simp only [shareRd] at hle
  omega

omit [DecidableEq T] in
/-- The thread that stores `RWLOCK_UNOWNED` owns the lock. -/
theorem Inv.oid_of_unStore {s : Global T (Mem T) Local} (hs : Inv I s)
    (h : (s.loc t).pc = .unStore) : s.mem.oid = I.id t := by
  have hpc := hs.pc t
  rw [PcOk, h] at hpc
  exact (hs.writer t).mp hpc

/-- One step keeps the write holds in agreement with the owner word. -/
theorem Inv.writer_step {s : Global T (Mem T) Local} (hs : Inv I s)
    (h : OwnStep I t s.mem m (s.loc t) l) (u : T) :
    (Function.update s.loc t l u).writes = true ↔ m.oid = I.id u := by
  have hu := hs.writer u
  have hspec := I.ne_special u
  by_cases hut : u = t
  · subst hut
    rw [Function.update_self]
    cases h with
    | quiet ho hr hw => rw [hw, ho, hu]
    | rdlock hm ho hr hw =>
        rw [hw, ho, hu]
        exact ⟨fun h => absurd hm (h ▸ I.masked u), fun h => absurd h.symm hspec.2⟩
    | wrlock hm ho hr hw => simp [hw, ho]
    | wrunlock hpc ho hr hw => simp [hw, ho, hspec.1.symm]
    | rdunlock hpc ho hr hw =>
        have hro : s.mem.oid = RWLOCK_RO := hs.reader u (by omega)
        rw [hw, ho, hu, hro]
        split
        · exact ⟨fun h => absurd h.symm hspec.2, fun h => absurd h.symm hspec.1⟩
        · exact Iff.rfl
  · rw [Function.update_of_ne hut, hu]
    cases h with
    | quiet ho hr hw => rw [ho]
    | rdlock hm ho hr hw =>
        rw [ho]
        exact ⟨fun h => absurd hm (h ▸ I.masked u), fun h => absurd h.symm hspec.2⟩
    | wrlock hm ho hr hw =>
        rw [ho, hm]
        exact ⟨fun h => absurd h.symm hspec.1, fun h => absurd (I.inj _ _ h).symm hut⟩
    | wrunlock hpc ho hr hw =>
        rw [ho, hs.oid_of_unStore hpc]
        exact ⟨fun h => absurd (I.inj _ _ h).symm hut, fun h => absurd h.symm hspec.1⟩
    | rdunlock hpc ho hr hw =>
        have hro : s.mem.oid = RWLOCK_RO := hs.reader t (by omega)
        rw [ho, hro]
        split
        · exact ⟨fun h => absurd h.symm hspec.2, fun h => absurd h.symm hspec.1⟩
        · exact Iff.rfl

/-- One step keeps every read hold recorded in the owner word. -/
theorem Inv.reader_step {s : Global T (Mem T) Local} (hs : Inv I s) (hsmall : Small s)
    (h : OwnStep I t s.mem m (s.loc t) l) (u : T)
    (hpos : 0 < (Function.update s.loc t l u).reads) : m.oid = RWLOCK_RO := by
  by_cases hut : u = t
  · subst hut
    rw [Function.update_self] at hpos
    cases h with
    | quiet ho hr hw => rw [ho, hs.reader u (by omega)]
    | rdlock hm ho hr hw => exact ho
    | wrlock hm ho hr hw =>
        have hro := hs.reader u (by omega)
        rw [hm] at hro
        exact absurd hro (by decide)
    | wrunlock hpc ho hr hw =>
        have hid := hs.oid_of_unStore hpc
        rw [hs.reader u (by omega)] at hid
        exact absurd hid.symm (I.ne_special u).2
    | rdunlock hpc ho hr hw =>
        -- A second hold of the same thread keeps `nrd` above 1.
        have hne : s.mem.nrd ≠ 1 := fun hone => by
          have := hs.reads_eq_one (t := u) hsmall (by omega) hone
          omega
        rw [ho, if_neg hne, hs.reader u (by omega)]
  · rw [Function.update_of_ne hut] at hpos
    have hro := hs.reader u hpos
    cases h with
    | quiet ho hr hw => rw [ho, hro]
    | rdlock hm ho hr hw => exact ho
    | wrlock hm ho hr hw =>
        rw [hm] at hro
        exact absurd hro (by decide)
    | wrunlock hpc ho hr hw =>
        have hid := hs.oid_of_unStore hpc
        rw [hro] at hid
        exact absurd hid.symm (I.ne_special t).2
    | rdunlock hpc ho hr hw =>
        have hne : s.mem.nrd ≠ 1 := fun hone => by
          have := hs.reads_eq_zero (t := t) hsmall (by omega) hone hut
          omega
        rw [ho, if_neg hne, hro]

/-- A step from a small state keeps the invariant. -/
theorem Inv.step {s : Global T (Mem T) Local} (hs : Inv I s) (hsmall : Small s)
    (h : exec I t c s.mem (s.loc t) = some (m, l)) :
    Inv I ⟨m, Function.update s.loc t l⟩ where
  nrd := word_eq_sum_step hs.nrd (exec_nrd h (hs.pc t))
  nwr := word_eq_sum_step hs.nwr (exec_nwr h)
  pc u := by
    show PcOk (Function.update s.loc t l u)
    by_cases hut : u = t
    · subst hut
      rw [Function.update_self]
      exact exec_pcOk h (hs.pc u) (hs.writer u) (hs.reader u) fun hr =>
        hs.nrd_ne_zero hsmall hr
    · rw [Function.update_of_ne hut]
      exact hs.pc u
  writer u := hs.writer_step (exec_own h (hs.pc t)) u
  reader u hpos := hs.reader_step hsmall (exec_own h (hs.pc t)) u hpos

/-- The invariant holds at the end of every run through small states. -/
theorem inv_of_reach {s : Global T (Mem T) Local}
    {ok : Global T (Mem T) Local → T × Choice T → Prop}
    (hok : ∀ s a, ok s a → Small s) (h : (machine I).ReachVia ok s) : Inv I s := by
  refine Exec.invariant (fun s hs => ?_) (fun s t c m p hp ha he => hp.step (hok _ _ ha) he) h
  obtain ⟨hm, hl⟩ := hs
  constructor <;> simp [readers, hm, hl, shareRd, shareWr, queuedRd, queuedWr, PcOk]
  exact fun t ht => (I.ne_special t).1 ht.symm

/-! ### Exclusion -/

/-- The thread has the write hold. -/
def HoldsWr (s : Global T (Mem T) Local) (t : T) : Prop := (s.loc t).writes = true

/-- The thread has a read hold. -/
def HoldsRd (s : Global T (Mem T) Local) (t : T) : Prop := 0 < (s.loc t).reads

/-- A read-write lock in every state that is reached with fewer than `2 ^ 32` read
holds and queued readers at once. A write hold excludes every other hold. Each hold
is recorded in the owner word, so no unlock took it away. An unlock returns 0, and it
changes the owner word only with a hold of its own thread and of that kind. -/
theorem rwlock_exclusion {s : Global T (Mem T) Local}
    (h : (machine I).ReachVia (fun s _ => Small s) s) :
    (∀ t u, HoldsWr s t → ¬ HoldsRd s u ∧ (HoldsWr s u → u = t)) ∧
    (∀ t, HoldsWr s t ↔ s.mem.oid = I.id t) ∧
    (∀ t, HoldsRd s t → s.mem.oid = RWLOCK_RO) ∧
    (∀ t r, (s.loc t).pc = .unRet r → r = .ok) ∧
    (∀ t, (s.loc t).pc = .unStore → HoldsWr s t) ∧
    (∀ t oid nrd, (s.loc t).pc = .unCas oid nrd → HoldsRd s t) := by
  have hs := inv_of_reach (fun _ _ => id) h
  refine ⟨fun t u ht => ⟨fun hu => ?_, fun hu => ?_⟩, hs.writer, hs.reader,
    fun t r hpc => ?_, fun t hpc => ?_, fun t oid nrd hpc => ?_⟩
  · have hid := (hs.writer t).mp ht
    rw [hs.reader u hu] at hid
    exact (I.ne_special t).2 hid.symm
  · exact I.inj u t (((hs.writer u).mp hu).symm.trans ((hs.writer t).mp ht))
  all_goals
    have hok := hs.pc t
    rw [PcOk, hpc] at hok
    exact hok

/-- The ids 1 and 2 are not special values of the word. -/
theorem ids_masked_two : ∀ t : Fin 2, BitVec.ofNat 32 (t + 1) &&& PTHREAD_ID_MASK ≠ 0 := by decide

/-- The ids 1 and 2 of two threads. -/
def Ids.two : Ids (Fin 2) where
  id t := BitVec.ofNat 32 (t + 1)
  inj := ids_inj_two
  masked := ids_masked_two

/-- The ids 1, 2 and 3 of three threads. -/
def Ids.three : Ids (Fin 3) where
  id t := BitVec.ofNat 32 (t + 1)
  inj := ids_inj_three
  masked := by decide

/-- A run in which two readers hold the lock and one of them is about to release its
hold. -/
theorem rwlock_exclusion_two : ∃ s : Global (Fin 2) (Mem (Fin 2)) Local,
    (machine Ids.two).ReachVia (fun s _ => Small s) s ∧
    ((s.loc 0).pc = .unCas RWLOCK_RO 2 ∧ HoldsRd s 1) ∧
    (∀ t u, HoldsWr s t → ¬ HoldsRd s u ∧ (HoldsWr s u → u = t)) ∧
    (∀ t, HoldsWr s t ↔ s.mem.oid = Ids.two.id t) ∧
    (∀ t, HoldsRd s t → s.mem.oid = RWLOCK_RO) ∧
    (∀ t r, (s.loc t).pc = .unRet r → r = .ok) ∧
    (∀ t, (s.loc t).pc = .unStore → HoldsWr s t) ∧
    (∀ t oid nrd, (s.loc t).pc = .unCas oid nrd → HoldsRd s t) := by
  obtain ⟨s, hs, hp⟩ := (machine Ids.two).exists_reachVia (fun s _ => Small s)
    (s := ⟨⟨0, 0, 0, ∅, ∅⟩, fun _ => ⟨.idle, 0, false⟩⟩) ⟨rfl, fun _ => rfl⟩
    [(0, { call := .rd .rdlock }), (0, {}), (0, {}), (0, {}), (0, {}),
      (1, { call := .rd .tryrdlock }), (1, {}), (1, {}), (1, {}), (1, {}),
      (0, {}), (0, {}), (0, {}), (0, {})]
    (fun s => (s.loc 0).pc = .unCas RWLOCK_RO 2 ∧ 0 < (s.loc 1).reads) (by decide)
  exact ⟨s, hs, hp, rwlock_exclusion hs⟩

end Hlpt.Rwlock
