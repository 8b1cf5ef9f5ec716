import Hlpt.Rwlock.Exclusion

/-!
# `Hlpt.Rwlock.Stranded`: no thread sleeps on a lock that nobody holds

A write unlock wakes one writer or all readers, by what it reads of the two counters
after the lock is already free. Between that read and the wake the lock may be taken,
left and queued on again, and the writer that it counts on may time out. The invariant
`Served` says who still owes a wake, or will take the lock:

* `wr`: of an unowned lock with sleeping writers, an unlocker before its wake, or a
  writer that is awake and looks at `oid` again (`WrTurn`);
* `rd`: of an unowned lock with sleeping readers, an unlocker before its wake, a queued
  writer, or a timed-out writer that was the last one queued (`RdTurn`);
* `ro`: of a lock owned by readers with sleeping readers, the reader that took it and has
  not woken the others yet;
* `left`: of a lock owned by readers, a holder, or a reader that is awake and looks at the
  pair again (`ReaderLeft`).

`timedrdlock` is left out: a timed-out reader takes its share out of `nrd` without a look
at `oid`, which is what `Hlpt.Rwlock.Idle` is about.
-/

set_option autoImplicit false

namespace Hlpt.Rwlock

open Hlpt.Lib

universe u

variable {T : Type u}

/-! ### Who has the next turn -/

/-- A thread that will wake a writer, or take the lock if it finds it unowned. -/
def WrTurn (q : Finset T) (t : T) (l : Local) : Prop :=
  match l.pc with
  | .unTestWr | .unTestQwr | .unWakeWr | .wrLoad _ | .wrCas _ | .wrDec _ false => True
  | .wrAsleep _ => t ∉ q
  | _ => False

/-- A thread that will wake the readers of an unowned lock, or leaves that to a writer. -/
def RdTurn (l : Local) : Prop :=
  match l.pc with
  | .unTestWr | .unTestRd | .unWakeRd | .rdWake | .wrWake | .wrLoad _ | .wrCas _ => True
  | .wrCheck nw => nw = 1
  | _ => queuedWr l.pc = 1

/-- A thread that holds a read lock, or will find a lock owned by readers. -/
def ReaderLeft (q : Finset T) (t : T) (l : Local) : Prop :=
  0 < l.reads ∨
  match l.pc with
  | .rdLoad _ | .rdCas .. | .rdWait .. | .rdDec .. => True
  | .rdAsleep _ => t ∉ q
  | _ => False

/-- What the control point says about the owner that a queued thread waits for. A reader
has no deadline, so its wait does not time out. -/
def QueueOk (l : Local) : Prop :=
  match l.pc with
  | .rdOwned k | .rdLoad k | .rdCas k .. | .rdAsleep k => k.timed = false
  | .rdAdd k oid | .rdWait k oid => k.timed = false ∧ oid &&& PTHREAD_ID_MASK ≠ 0
  | .rdClock .. => False
  | .rdDec k out => k.timed = false ∧ out = false
  | .rdWake => 0 < l.reads
  | .wrAdd _ owner | .wrClock _ owner _ | .wrWait _ owner _ => owner ≠ RWLOCK_UNOWNED
  | _ => True

/-- A member of a queue is inside `gsync_wait` on that queue. -/
def InQueue (m : Mem T) (t : T) (l : Local) : Prop :=
  (t ∈ m.rdSleepers → ∃ k, l.pc = .rdAsleep k) ∧ (t ∈ m.wrSleepers → ∃ k, l.pc = .wrAsleep k)

/-- The thread does not call `timedrdlock`. -/
def NoTimedRd (s : Global T (Mem T) Local) (a : T × Choice T) : Prop :=
  (s.loc a.1).pc = .idle → ¬ a.2.call matches .rd (.timedrdlock _)

instance (s : Global T (Mem T) Local) (a : T × Choice T) : Decidable (NoTimedRd s a) :=
  inferInstanceAs (Decidable (_ → _))

variable [DecidableEq T] {I : Ids T} {t u : T} {c : Choice T} {m m' : Mem T} {l l' : Local}

/-! ### What one step does -/

/-- A step puts no other thread to sleep. -/
theorem exec_sleepers (h : exec I t c m l = some (m', l')) (hu : u ≠ t) :
    (u ∈ m'.rdSleepers → u ∈ m.rdSleepers) ∧ (u ∈ m'.wrSleepers → u ∈ m.wrSleepers) := by
  cases step_of_exec h with
  | rdWake => exact ⟨fun hmem => absurd hmem (Finset.notMem_empty u), id⟩
  | wrWake => exact ⟨fun hmem => absurd hmem (Finset.notMem_empty u), id⟩
  | unWakeRd => exact ⟨fun hmem => absurd hmem (Finset.notMem_empty u), id⟩
  | rdSleep => exact ⟨fun hmem => Finset.mem_of_mem_insert_of_ne hmem hu, id⟩
  | wrSleep hm => exact ⟨id, fun hmem => Finset.mem_of_mem_insert_of_ne hmem hu⟩
  | rdAwake hout => exact ⟨Finset.mem_of_mem_erase, id⟩
  | wrAwake hout => exact ⟨id, Finset.mem_of_mem_erase⟩
  | unWakeWr hq => exact ⟨id, fun hmem => wakeOne_subset hq hmem⟩
  | _ => exact ⟨id, id⟩

/-- Another thread keeps its turn: a step puts only the thread that moved to sleep. -/
theorem WrTurn.frame (h : exec I t c m l = some (m', l')) (hu : u ≠ t) {p : Local}
    (hp : WrTurn m.wrSleepers u p) : WrTurn m'.wrSleepers u p := by
  unfold WrTurn at hp ⊢
  split at hp <;> first | trivial | exact fun hmem => hp ((exec_sleepers h hu).2 hmem)

/-- Another thread keeps the lock with the readers. -/
theorem ReaderLeft.frame (h : exec I t c m l = some (m', l')) (hu : u ≠ t) {p : Local}
    (hp : ReaderLeft m.rdSleepers u p) : ReaderLeft m'.rdSleepers u p := by
  rcases hp with hreads | hp
  · exact .inl hreads
  · refine .inr ?_
    split at hp <;> first | trivial | exact fun hmem => hp ((exec_sleepers h hu).1 hmem)

omit [DecidableEq T] in
/-- The control points stay right in a move. -/
theorem Moves.queueOk {pc pc' : Pc} {reads : ℕ} {writes : Bool} (h : Moves I t c m pc pc')
    (hq : QueueOk ⟨pc, reads, writes⟩)
    (hcall : pc = .idle → ¬ c.call matches .rd (.timedrdlock _)) :
    QueueOk ⟨pc', reads, writes⟩ := by
  cases h with
  | @rdCall k hc =>
    cases k with
    | rdlock | tryrdlock => rfl
    | timedrdlock abstime => exact absurd (by rw [hc]) (hcall rfl)
  | rdEnter hm => exact hq
  | rdFree hm => exact hq
  | rdQueue hm => exact ⟨hq, hm⟩
  | rdAgain hm => exact hq
  | rdLate => exact hq.elim
  | rdEarly => exact hq.elim
  | rdChanged hm => exact ⟨hq.1, rfl⟩
  | wrQueue hm => exact hm
  | wrEarly => exact hq
  | _ => trivial

/-- The control points stay right. -/
theorem exec_queueOk (h : exec I t c m l = some (m', l')) (hq : QueueOk l)
    (hcall : l.pc = .idle → ¬ c.call matches .rd (.timedrdlock _)) : QueueOk l' := by
  cases step_of_exec h with
  | move hm => exact hm.queueOk hq hcall
  | rdTake =>
    show QueueOk ⟨if _ then _ else _, _, _⟩
    split
    · exact Nat.succ_pos _
    · trivial
  | @rdAdd k oid =>
    cases k with
    | rdlock | tryrdlock => exact hq
    | timedrdlock abstime => cases hq.1
  | rdSleep => exact hq.1
  | @rdAwake k out reads writes hout =>
    -- The reader has no deadline, and does not time out.
    have hk : k.timed = false := hq
    refine ⟨hk, ?_⟩
    by_contra hne
    rw [eq_true_of_ne_false hne, hk] at hout
    exact absurd (wakeUp_true hout).2 (by decide)
  | @rdDec k out reads writes =>
    obtain ⟨hk, rfl⟩ : k.timed = false ∧ out = false := hq
    exact hk
  | @wrAdd k owner => cases k <;> exact hq
  | wrSleep hm => trivial
  | wrDec =>
    show QueueOk ⟨if _ then _ else _, _, _⟩
    split <;> trivial
  | _ => trivial

omit [DecidableEq T] in
/-- A thread that is not asleep is in no queue. -/
theorem InQueue.not_mem (hin : InQueue m t l) (hrd : ∀ k, l.pc ≠ .rdAsleep k)
    (hwr : ∀ k, l.pc ≠ .wrAsleep k) : t ∉ m.rdSleepers ∧ t ∉ m.wrSleepers := by
  constructor
  · intro hmem
    obtain ⟨k, hk⟩ := hin.1 hmem
    exact hrd k hk
  · intro hmem
    obtain ⟨k, hk⟩ := hin.2 hmem
    exact hwr k hk

omit [DecidableEq T] in
/-- The two sleeps do not end with a move. -/
theorem Moves.not_asleep {pc pc' : Pc} (h : Moves I t c m pc pc') :
    (∀ k, pc ≠ .rdAsleep k) ∧ ∀ k, pc ≠ .wrAsleep k := by
  constructor
  · rintro k rfl
    cases h
  · rintro k rfl
    cases h

/-- The thread that moved is in a queue only if it went to sleep there. -/
theorem exec_inQueue (h : exec I t c m l = some (m', l')) (hin : InQueue m t l) :
    InQueue m' t l' := by
  have hout : t ∉ m'.rdSleepers → t ∉ m'.wrSleepers → InQueue m' t l' :=
    fun hrd hwr => ⟨fun hmem => absurd hmem hrd, fun hmem => absurd hmem hwr⟩
  cases step_of_exec h with
  | move hm =>
    obtain ⟨hrd, hwr⟩ := hin.not_mem hm.not_asleep.1 hm.not_asleep.2
    exact hout hrd hwr
  | rdSleep =>
    obtain ⟨-, hwr⟩ := hin.not_mem nofun nofun
    exact ⟨fun _ => ⟨_, rfl⟩, fun hmem => absurd hmem hwr⟩
  | wrSleep hm =>
    obtain ⟨hrd, -⟩ := hin.not_mem nofun nofun
    exact ⟨fun hmem => absurd hmem hrd, fun _ => ⟨_, rfl⟩⟩
  | rdAwake _ => exact hout (Finset.notMem_erase t _) fun hmem => by cases (hin.2 hmem).choose_spec
  | wrAwake _ =>
    exact hout (fun hmem => by cases (hin.1 hmem).choose_spec) (Finset.notMem_erase t _)
  | rdWake =>
    obtain ⟨-, hwr⟩ := hin.not_mem nofun nofun
    exact hout (Finset.notMem_empty t) hwr
  | wrWake =>
    obtain ⟨-, hwr⟩ := hin.not_mem nofun nofun
    exact hout (Finset.notMem_empty t) hwr
  | unWakeRd =>
    obtain ⟨-, hwr⟩ := hin.not_mem nofun nofun
    exact hout (Finset.notMem_empty t) hwr
  | unWakeWr hq =>
    obtain ⟨hrd, hwr⟩ := hin.not_mem nofun nofun
    exact hout hrd fun hmem => hwr (wakeOne_subset hq hmem)
  | _ =>
    obtain ⟨hrd, hwr⟩ := hin.not_mem nofun nofun
    exact hout hrd hwr

omit [DecidableEq T] in
/-- A move of an unowned lock hands the turn on, or finds no writer counted. -/
theorem Moves.wrTurn {pc pc' : Pc} {reads : ℕ} {writes : Bool} (h : Moves I t c m pc pc')
    (ho : m.oid = RWLOCK_UNOWNED) {q : Finset T} (hturn : WrTurn q t ⟨pc, reads, writes⟩) :
    WrTurn q t ⟨pc', reads, writes⟩ ∨ m.nwr = 0 := by
  cases h with
  | wrFree hm => exact .inl trivial
  | wrFails r hm => exact absurd ho hm
  | wrQueue hm => exact absurd ho hm
  | wrAgain hm => exact .inl trivial
  | unSomeWr hm => exact .inl trivial
  | unNoWr hm => exact .inr hm
  | unSomeQwr hm => exact .inl trivial
  | unNoQwr hm => exact .inr hm
  | _ => exact hturn.elim

/-- Sleeping writers of a lock that is unowned after the step: the thread that moved has
the turn, or another thread had it before the step, or the step woke another thread. An
unlock that finds `nwr = 0` is the case left over. -/
theorem exec_wrTurn (h : exec I t c m l = some (m', l')) (hq : QueueOk l)
    (hin : InQueue m t l) (ho : m'.oid = RWLOCK_UNOWNED) (hne : m'.wrSleepers.Nonempty) :
    WrTurn m'.wrSleepers t l' ∨
    (m.oid = RWLOCK_UNOWNED ∧ m.wrSleepers.Nonempty ∧ ¬ WrTurn m.wrSleepers t l) ∨
    (∃ u ∈ m.wrSleepers, u ≠ t ∧ u ∉ m'.wrSleepers) ∨
    (m.wrSleepers.Nonempty ∧ m.nwr = 0) := by
  have hid := (I.ne_special t).1
  have hro : RWLOCK_RO ≠ RWLOCK_UNOWNED := by decide
  cases step_of_exec h with
  | @move pc pc' reads writes hm =>
    by_cases hturn : WrTurn m.wrSleepers t ⟨pc, reads, writes⟩
    · rcases hm.wrTurn ho hturn with hturn' | h0
      · exact .inl hturn'
      · exact .inr (.inr (.inr ⟨hne, h0⟩))
    · exact .inr (.inl ⟨ho, hne, hturn⟩)
  | rdTake => exact absurd ho hro
  | wrTake hm => exact absurd ho hid
  | tryTake hm => exact absurd ho hid
  | wrSleep hm => exact absurd ho hq
  | @wrAwake k out reads writes hout =>
    have hsome : m.wrSleepers.Nonempty := hne.mono (Finset.erase_subset _ _)
    -- Only a sleeper times out, and a sleeper does not have the turn.
    by_cases hmem : t ∈ m.wrSleepers
    · cases out with
      | true => exact .inr (.inl ⟨ho, hsome, fun hturn => hturn hmem⟩)
      | false => exact .inl trivial
    · obtain rfl : out = false := by simpa [wakeUp, hmem] using hout.symm
      exact .inl trivial
  | @wrDec k out reads writes =>
    cases out with
    | true => exact .inr (.inl ⟨ho, hne, id⟩)
    | false => exact .inl trivial
  | wrLeave => exact .inl trivial
  | rdLeaveLast hm => exact .inl trivial
  | unWakeWr hwake =>
    obtain ⟨u, hu, hu'⟩ := exists_woken hwake hne
    have hut : u ≠ t := by
      rintro rfl
      cases (hin.2 hu).choose_spec
    exact .inr (.inr (.inl ⟨u, hu, hut, hu'⟩))
  | _ => exact .inr (.inl ⟨ho, hne, id⟩)

omit [DecidableEq T] in
/-- A move of an unowned lock hands the turn on, or `nwr` counts another writer, or `nrd`
counts nobody. -/
theorem Moves.rdTurn {pc pc' : Pc} {reads : ℕ} {writes : Bool} (h : Moves I t c m pc pc')
    (ho : m.oid = RWLOCK_UNOWNED) (hturn : RdTurn ⟨pc, reads, writes⟩) :
    RdTurn ⟨pc', reads, writes⟩ ∨ m.nwr ≠ BitVec.ofNat 32 (queuedWr pc) ∨ m.nrd = 0 := by
  cases h with
  | wrFree hm => exact .inl trivial
  | wrFails r hm => exact absurd ho hm
  | wrQueue hm => exact absurd ho hm
  | wrAgain hm => exact .inl trivial
  | wrLate => exact .inl rfl
  | wrEarly => exact .inl rfl
  | wrChanged hm => exact .inl rfl
  | wrHandOn hrd hm => exact .inl trivial
  | wrGivesUp hm =>
    -- The last queued writer hands on, unless there is no reader.
    by_contra hno
    exact hm ⟨hturn, fun h0 => hno (.inr (.inr h0)), ho⟩
  | unSomeWr hm => exact .inr (.inl hm)
  | unNoWr hm => exact .inl trivial
  | unSomeRd hm => exact .inl trivial
  | unNoRd hm => exact .inr (.inr hm)
  | _ => exact absurd hturn Nat.zero_ne_one

/-- Sleeping readers of a lock that is unowned after the step: the thread that moved has
the turn, or another thread had it before the step, or `nwr` counts another writer. The
case left over is that `nrd` does not count the sleepers. -/
theorem exec_rdTurn (h : exec I t c m l = some (m', l')) (hq : QueueOk l) (hpc : PcOk l)
    (ho : m'.oid = RWLOCK_UNOWNED) (hne : m'.rdSleepers.Nonempty) :
    RdTurn l' ∨ (m.oid = RWLOCK_UNOWNED ∧ m.rdSleepers.Nonempty ∧ ¬ RdTurn l) ∨
    m.nwr ≠ BitVec.ofNat 32 (shareWr l) ∨
    (m.rdSleepers.Nonempty ∧ (m.nrd = 0 ∨ m.nrd = 1 ∧ 0 < l.reads)) := by
  have hid := (I.ne_special t).1
  have hmask : RWLOCK_UNOWNED &&& PTHREAD_ID_MASK = 0 := by decide
  have hro : RWLOCK_RO ≠ RWLOCK_UNOWNED := by decide
  cases step_of_exec h with
  | @move pc pc' reads writes hm =>
    by_cases hturn : RdTurn ⟨pc, reads, writes⟩
    · rcases hm.rdTurn ho hturn with hturn' | hnwr | h0
      · exact .inl hturn'
      · exact .inr (.inr (.inl hnwr))
      · exact .inr (.inr (.inr ⟨hne, .inl h0⟩))
    · exact .inr (.inl ⟨ho, hne, hturn⟩)
  | rdTake => exact absurd ho hro
  | rdWake => exact absurd hne Finset.not_nonempty_empty
  | wrWake => exact absurd hne Finset.not_nonempty_empty
  | unWakeRd => exact absurd hne Finset.not_nonempty_empty
  | rdSleep =>
    have howned : m.oid &&& PTHREAD_ID_MASK ≠ 0 := hq.2
    exact absurd (ho ▸ hmask) howned
  | rdAwake hout =>
    exact .inr (.inl ⟨ho, hne.mono (Finset.erase_subset _ _), Nat.zero_ne_one⟩)
  | wrTake hm => exact absurd ho hid
  | tryTake hm => exact absurd ho hid
  | @wrAdd k owner => cases k <;> exact .inl rfl
  | wrSleep hm => exact .inl rfl
  | wrAwake hout => exact .inl rfl
  | @wrDec k out reads writes =>
    cases out with
    | true =>
      by_cases hone : m.nwr = 1
      · exact .inl hone
      · exact .inr (.inr (.inl hone))
    | false => exact .inl trivial
  | wrLeave => exact .inl trivial
  | rdLeaveLast hm => exact .inr (.inr (.inr ⟨hne, .inr ⟨hm, hpc⟩⟩))
  | _ => exact .inr (.inl ⟨ho, hne, Nat.zero_ne_one⟩)

/-- Sleeping readers of a lock that is owned by readers after the step. The reader that
takes an unowned lock goes to wake them, since `nrd` counts them. -/
theorem exec_rdWake (h : exec I t c m l = some (m', l')) (hq : QueueOk l) (hpc : PcOk l)
    (hown : m.oid = RWLOCK_UNOWNED ∨ m.oid = RWLOCK_RO ∨ m.oid &&& PTHREAD_ID_MASK ≠ 0)
    (ho : m'.oid = RWLOCK_RO) (hne : m'.rdSleepers.Nonempty) :
    l'.pc = .rdWake ∨ (m.oid = RWLOCK_RO ∧ m.rdSleepers.Nonempty ∧ l.pc ≠ .rdWake) ∨
    (m.rdSleepers.Nonempty ∧ m.nrd = 0) := by
  have hid := (I.ne_special t).2
  have hmask : RWLOCK_RO &&& PTHREAD_ID_MASK = 0 := by decide
  have hro : RWLOCK_RO ≠ RWLOCK_UNOWNED := by decide
  cases step_of_exec h with
  | move hm =>
    refine .inr (.inl ⟨ho, hne, ?_⟩)
    rintro rfl
    cases hm
  | @rdTake k reads writes =>
    rcases hown with hun | hr | howned
    · by_cases h0 : m.nrd = 0
      · exact .inr (.inr ⟨hne, h0⟩)
      · exact .inl (if_pos ⟨hun, h0⟩)
    · exact .inr (.inl ⟨hr, hne, nofun⟩)
    · exact absurd hpc howned
  | rdWake => exact absurd hne Finset.not_nonempty_empty
  | wrWake => exact absurd hne Finset.not_nonempty_empty
  | unWakeRd => exact absurd hne Finset.not_nonempty_empty
  | rdSleep =>
    have howned : m.oid &&& PTHREAD_ID_MASK ≠ 0 := hq.2
    exact absurd (ho ▸ hmask) howned
  | rdAwake hout => exact .inr (.inl ⟨ho, hne.mono (Finset.erase_subset _ _), nofun⟩)
  | wrTake hm => exact absurd ho hid
  | tryTake hm => exact absurd ho hid
  | wrLeave => exact absurd ho.symm hro
  | rdLeaveLast hm => exact absurd ho.symm hro
  | _ => exact .inr (.inl ⟨ho, hne, nofun⟩)

omit [DecidableEq T] in
/-- A move of a lock that readers own leaves it with them. -/
theorem Moves.readerLeft {pc pc' : Pc} {reads : ℕ} {writes : Bool} (h : Moves I t c m pc pc')
    (ho : m.oid = RWLOCK_RO) {q : Finset T} (hleft : ReaderLeft q t ⟨pc, reads, writes⟩) :
    ReaderLeft q t ⟨pc', reads, writes⟩ := by
  have hmask : m.oid &&& PTHREAD_ID_MASK = 0 := by rw [ho]; decide
  cases h with
  | rdFree hm => exact .inr trivial
  | rdFails r hm => exact absurd hmask hm
  | rdQueue hm => exact absurd hmask hm
  | rdAgain hm => exact .inr trivial
  | rdChanged hm => exact .inr trivial
  | _ => exact .inl (hleft.resolve_right id)

/-- Readers of a lock that is owned by readers after the step. The case left over is an
unlock that gives up the last hold of the thread while `nrd` counts another share. -/
theorem exec_readerLeft (h : exec I t c m l = some (m', l')) (hq : QueueOk l) (hpc : PcOk l)
    (ho : m'.oid = RWLOCK_RO) :
    ReaderLeft m'.rdSleepers t l' ∨
    (m.oid = RWLOCK_RO ∧ ¬ ReaderLeft m.rdSleepers t l) ∨
    (m.oid = RWLOCK_RO ∧ m.nrd ≠ BitVec.ofNat 32 (shareRd l) ∧ l.pc ≠ .rdWake) := by
  have hid := (I.ne_special t).2
  have hmask : RWLOCK_RO &&& PTHREAD_ID_MASK = 0 := by decide
  have hro : RWLOCK_RO ≠ RWLOCK_UNOWNED := by decide
  have hkeep : m.oid = RWLOCK_RO →
      (ReaderLeft m.rdSleepers t l → ReaderLeft m'.rdSleepers t l') →
      ReaderLeft m'.rdSleepers t l' ∨ (m.oid = RWLOCK_RO ∧ ¬ ReaderLeft m.rdSleepers t l) ∨
      (m.oid = RWLOCK_RO ∧ m.nrd ≠ BitVec.ofNat 32 (shareRd l) ∧ l.pc ≠ .rdWake) := by
    intro ho' himp
    by_cases hleft : ReaderLeft m.rdSleepers t l
    · exact .inl (himp hleft)
    · exact .inr (.inl ⟨ho', hleft⟩)
  cases step_of_exec h with
  | move hm => exact hkeep ho (hm.readerLeft ho)
  | rdTake => exact .inl (.inl (Nat.succ_pos _))
  | rdWake => exact .inl (.inl hq)
  | @rdAdd k oid =>
    cases k with
    | rdlock | tryrdlock => exact .inl (.inr trivial)
    | timedrdlock abstime => cases hq.1
  | rdSleep =>
    have howned : m.oid &&& PTHREAD_ID_MASK ≠ 0 := hq.2
    exact absurd (ho ▸ hmask) howned
  | rdAwake hout => exact .inl (.inr trivial)
  | @rdDec k out reads writes =>
    obtain ⟨-, rfl⟩ : k.timed = false ∧ out = false := hq
    exact .inl (.inr trivial)
  | wrTake hm => exact absurd ho hid
  | tryTake hm => exact absurd ho hid
  | wrLeave => exact absurd ho.symm hro
  | rdLeaveLast hm => exact absurd ho.symm hro
  | @rdLeave reads writes hm =>
    have hpos : 0 < reads := hpc
    by_cases hlast : reads = 1
    · subst hlast
      exact .inr (.inr ⟨ho, hm, nofun⟩)
    · left
      left
      show 0 < reads - 1
      omega
  | _ => exact hkeep ho fun hleft => .inl (hleft.resolve_right id)

/-! ### The invariant -/

variable [Fintype T]

/-- The queued writers, over all threads. -/
def writers (s : Global T (Mem T) Local) : ℕ := ∑ t, shareWr (s.loc t)

/-- Fewer than `2 ^ 32` read holds and queued readers, and fewer than `2 ^ 32` queued
writers exist. -/
def Few (s : Global T (Mem T) Local) : Prop := Small s ∧ writers s < 2 ^ 32

instance (s : Global T (Mem T) Local) : Decidable (Few s) :=
  inferInstanceAs (Decidable (_ ∧ _))

/-- Every sleeper of a lock that no thread of the other kind holds is served. -/
structure Served (I : Ids T) (s : Global T (Mem T) Local) : Prop where
  owner : s.mem.oid = RWLOCK_UNOWNED ∨ s.mem.oid = RWLOCK_RO ∨ ∃ t, s.mem.oid = I.id t
  pc : ∀ t, QueueOk (s.loc t)
  queue : ∀ t, InQueue s.mem t (s.loc t)
  wr : s.mem.oid = RWLOCK_UNOWNED → s.mem.wrSleepers.Nonempty →
    ∃ t, WrTurn s.mem.wrSleepers t (s.loc t)
  rd : s.mem.oid = RWLOCK_UNOWNED → s.mem.rdSleepers.Nonempty → ∃ t, RdTurn (s.loc t)
  ro : s.mem.oid = RWLOCK_RO → s.mem.rdSleepers.Nonempty → ∃ t, (s.loc t).pc = .rdWake
  left : s.mem.oid = RWLOCK_RO → ∃ t, ReaderLeft s.mem.rdSleepers t (s.loc t)

omit [DecidableEq T] in
/-- `nwr` counts a sleeping writer. -/
theorem Served.nwr_ne_zero {s : Global T (Mem T) Local} (hs : Served I s) (hinv : Inv I s)
    (hfew : Few s) (hne : s.mem.wrSleepers.Nonempty) : s.mem.nwr ≠ 0 := by
  obtain ⟨u, hu⟩ := hne
  obtain ⟨k, hk⟩ := (hs.queue u).2 hu
  have hone : shareWr (s.loc u) = 1 := by simp [shareWr, hk, queuedWr]
  have hle : shareWr (s.loc u) ≤ writers s := le_sum_loc shareWr s.loc u
  rw [hinv.nwr]
  intro h0
  have hzero : writers s = 0 := (ofNat_eq_iff (k := 0) hfew.2 (by decide)).mp h0
  omega

/-- `nrd` counts a sleeping reader beside the holds of any thread. -/
theorem Served.nrd_of_sleeper {s : Global T (Mem T) Local} (hs : Served I s) (hinv : Inv I s)
    (hsmall : Small s) (hne : s.mem.rdSleepers.Nonempty) (t : T) :
    ¬ (s.mem.nrd = 0 ∨ s.mem.nrd = 1 ∧ 0 < (s.loc t).reads) := by
  obtain ⟨u, hu⟩ := hne
  obtain ⟨k, hk⟩ := (hs.queue u).1 hu
  have hone : shareRd (s.loc u) = (s.loc u).reads + 1 := by simp [shareRd, hk, queuedRd]
  have hle : shareRd (s.loc u) ≤ readers s := le_sum_loc shareRd s.loc u
  rw [hinv.nrd]
  rintro (h0 | ⟨h1, hpos⟩)
  · have hzero : readers s = 0 := (ofNat_eq_iff (k := 0) hsmall (by decide)).mp h0
    omega
  · have hsum : readers s = 1 := (ofNat_eq_iff (k := 1) hsmall (by decide)).mp h1
    by_cases hut : u = t
    · subst hut
      omega
    · have hadd : shareRd (s.loc u) + shareRd (s.loc t) ≤ readers s :=
        add_le_sum_loc shareRd s.loc hut
      have ht : (s.loc t).reads ≤ shareRd (s.loc t) := Nat.le_add_right _ _
      omega

/-- A counter that differs from the share of one thread counts another thread. -/
theorem exists_other_share {s : Global T (Mem T) Local} {g : Local → ℕ} {x : BitVec 32}
    (hx : x = BitVec.ofNat 32 (∑ u, g (s.loc u))) (hne : x ≠ BitVec.ofNat 32 (g (s.loc t))) :
    ∃ u, u ≠ t ∧ 0 < g (s.loc u) := by
  by_contra hno
  push Not at hno
  refine hne (hx.trans ?_)
  rw [sum_loc_eq_of_alone fun u hu => Nat.le_zero.mp (hno u hu)]

omit [DecidableEq T] [Fintype T] in
/-- A thread with a share in `nrd` that is awake finds the lock owned by readers. -/
theorem readerLeft_of_share {q : Finset T} (hq : QueueOk l) (hshare : 0 < shareRd l)
    (hmem : t ∉ q) : ReaderLeft q t l := by
  rcases l with ⟨pc, reads, writes⟩
  by_cases hreads : 0 < reads
  · exact .inl hreads
  · -- Then the share is the one of a queued reader.
    have hqueued : 0 < queuedRd pc := by
      have hsum : 0 < reads + queuedRd pc := hshare
      omega
    cases pc with
    | rdClock abstime oid => exact hq.elim
    | rdWait k oid => exact .inr trivial
    | rdAsleep k => exact .inr hmem
    | rdDec k out => exact .inr trivial
    | _ => exact absurd hqueued (Nat.lt_irrefl 0)

/-- A thread with a share in `nwr` has the turn of the readers. -/
theorem rdTurn_of_share (hshare : 0 < shareWr l) : RdTurn l := by
  rcases l with ⟨pc, reads, writes⟩
  cases pc with
  | wrClock abstime owner nw => rfl
  | wrWait k owner nw => rfl
  | wrAsleep k => rfl
  | wrDec k out => rfl
  | _ => exact absurd hshare (Nat.lt_irrefl 0)

/-- When the last hold of a thread goes and `nrd` counts another share, another thread
holds the lock or will find it owned by readers. -/
theorem Served.exists_readerLeft {s : Global T (Mem T) Local} (hinv : Inv I s)
    (hs : Served I s) (ho : s.mem.oid = RWLOCK_RO)
    (hnrd : s.mem.nrd ≠ BitVec.ofNat 32 (shareRd (s.loc t))) (hpc : (s.loc t).pc ≠ .rdWake) :
    ∃ u, u ≠ t ∧ ReaderLeft s.mem.rdSleepers u (s.loc u) := by
  obtain ⟨u, hut, hu⟩ := exists_other_share hinv.nrd hnrd
  by_cases hmem : u ∈ s.mem.rdSleepers
  · -- A sleeper is still to be woken by the reader that took the lock.
    obtain ⟨v, hv⟩ := hs.ro ho ⟨u, hmem⟩
    have hvt : v ≠ t := fun he => hpc (he ▸ hv)
    have hreads := hs.pc v
    rw [QueueOk, hv] at hreads
    exact ⟨v, hvt, .inl hreads⟩
  · exact ⟨u, hut, readerLeft_of_share (hs.pc u) hu hmem⟩

/-- A step from a state with few threads keeps every sleeper served. -/
theorem Served.step {s : Global T (Mem T) Local} (hinv : Inv I s) (hs : Served I s)
    (hfew : Few s) (hcall : NoTimedRd s (t, c))
    (h : exec I t c s.mem (s.loc t) = some (m, l)) :
    Served I ⟨m, Function.update s.loc t l⟩ where
  owner := (exec_own h (hinv.pc t)).owner hs.owner
  pc := (forall_loc_iff (P := fun _ p => QueueOk p)).mpr
    ⟨exec_queueOk h (hs.pc t) hcall, fun u _ => hs.pc u⟩
  queue := by
    refine (forall_loc_iff (P := fun u p => InQueue m u p)).mpr
      ⟨exec_inQueue h (hs.queue t), fun u hu => ?_⟩
    have hsub := exec_sleepers h hu
    exact ⟨fun hmem => (hs.queue u).1 (hsub.1 hmem), fun hmem => (hs.queue u).2 (hsub.2 hmem)⟩
  wr ho hne := by
    rcases exec_wrTurn h (hs.pc t) (hs.queue t) ho hne with
      hself | ⟨ho', hne', hnot⟩ | ⟨u, hu, hut, hwoken⟩ | ⟨hne', h0⟩
    · exact ⟨t, by simpa using hself⟩
    · -- The turn was with another thread, which did not move.
      obtain ⟨u, hu⟩ := hs.wr ho' hne'
      have hut : u ≠ t := fun he => hnot (he ▸ hu)
      exact ⟨u, by simpa [hut] using hu.frame h hut⟩
    · -- The woken writer looks at the lock again.
      obtain ⟨k, hk⟩ := (hs.queue u).2 hu
      exact ⟨u, by simpa [hut, WrTurn, hk] using hwoken⟩
    · exact absurd h0 (hs.nwr_ne_zero hinv hfew hne')
  rd ho hne := by
    rcases exec_rdTurn h (hs.pc t) (hinv.pc t) ho hne with
      hself | ⟨ho', hne', hnot⟩ | hnwr | ⟨hne', hnrd⟩
    · exact ⟨t, by simpa using hself⟩
    · obtain ⟨u, hu⟩ := hs.rd ho' hne'
      have hut : u ≠ t := fun he => hnot (he ▸ hu)
      exact ⟨u, by simpa [hut] using hu⟩
    · -- A queued writer that is counted takes the wake over.
      obtain ⟨u, hut, hu⟩ := exists_other_share hinv.nwr hnwr
      refine ⟨u, ?_⟩
      simp only [Function.update_of_ne hut]
      exact rdTurn_of_share hu
    · exact absurd hnrd (hs.nrd_of_sleeper hinv hfew.1 hne' t)
  ro ho hne := by
    have hown : s.mem.oid = RWLOCK_UNOWNED ∨ s.mem.oid = RWLOCK_RO ∨
        s.mem.oid &&& PTHREAD_ID_MASK ≠ 0 :=
      hs.owner.imp_right fun hown => hown.imp_right fun ⟨u, hu⟩ => hu ▸ I.masked u
    rcases exec_rdWake h (hs.pc t) (hinv.pc t) hown ho hne with
      hself | ⟨ho', hne', hnot⟩ | ⟨hne', h0⟩
    · exact ⟨t, by simpa using hself⟩
    · obtain ⟨u, hu⟩ := hs.ro ho' hne'
      have hut : u ≠ t := fun he => hnot (he ▸ hu)
      exact ⟨u, by simpa [hut] using hu⟩
    · exact absurd (.inl h0) (hs.nrd_of_sleeper hinv hfew.1 hne' t)
  left ho := by
    rcases exec_readerLeft h (hs.pc t) (hinv.pc t) ho with hself | ⟨ho', hnot⟩ | ⟨ho', hnrd, hpc⟩
    · exact ⟨t, by simpa using hself⟩
    · obtain ⟨u, hu⟩ := hs.left ho'
      have hut : u ≠ t := fun he => hnot (he ▸ hu)
      exact ⟨u, by simpa [hut] using hu.frame h hut⟩
    · obtain ⟨u, hut, hu⟩ := hs.exists_readerLeft hinv ho' hnrd hpc
      exact ⟨u, by simpa [hut] using hu.frame h hut⟩

/-- Every sleeper is served at the end of every run without a `timedrdlock`. -/
theorem served_of_reach {s : Global T (Mem T) Local}
    (h : (machine I).ReachVia (fun s a => Few s ∧ NoTimedRd s a) s) : Served I s := by
  have hinv : ∀ s, (machine I).ReachVia (fun s a => Few s ∧ NoTimedRd s a) s → Inv I s :=
    fun s => inv_of_reach fun _ _ ha => ha.1.1
  refine Exec.invariant_of hinv (fun s hs => ?_)
    (fun s t c m p hinv hp ha he => hp.step hinv ha.1 ha.2 he) h
  obtain ⟨hm, hl⟩ := hs
  have hro : 0#32 ≠ RWLOCK_RO := by decide
  constructor
  · exact .inl (by rw [hm]; rfl)
  · intro t
    simp [hl, QueueOk]
  · intro t
    simp [hm, InQueue]
  all_goals simp [hm, hro]

/-! ### The quiet lock -/

/-- The thread is asleep in the queue of the readers. -/
def RdAsleep (s : Global T (Mem T) Local) (t : T) : Prop :=
  (s.loc t).pc matches .rdAsleep _ ∧ t ∈ s.mem.rdSleepers

/-- The thread is asleep in the queue of the writers. -/
def WrAsleep (s : Global T (Mem T) Local) (t : T) : Prop :=
  (s.loc t).pc matches .wrAsleep _ ∧ t ∈ s.mem.wrSleepers

instance (s : Global T (Mem T) Local) (t : T) : Decidable (RdAsleep s t) :=
  inferInstanceAs (Decidable (_ ∧ _))

instance (s : Global T (Mem T) Local) (t : T) : Decidable (WrAsleep s t) :=
  inferInstanceAs (Decidable (_ ∧ _))

/-- Every thread inside an operation is asleep. -/
def Quiet (s : Global T (Mem T) Local) : Prop :=
  ∀ t, (s.loc t).pc ≠ .idle → RdAsleep s t ∨ WrAsleep s t

omit [DecidableEq T] [Fintype T] in
/-- In a quiet state nobody has a writer's turn. -/
theorem Quiet.not_wrTurn {s : Global T (Mem T) Local} (hs : Quiet s) (t : T) :
    ¬ WrTurn s.mem.wrSleepers t (s.loc t) := by
  intro hturn
  have hin : (s.loc t).pc ≠ .idle := fun hpc => by simp [WrTurn, hpc] at hturn
  rcases hs t hin with ⟨hpc, -⟩ | ⟨hpc, hmem⟩
  · cases hp : (s.loc t).pc <;> simp_all [WrTurn]
  · cases hp : (s.loc t).pc <;> simp_all [WrTurn]

omit [DecidableEq T] [Fintype T] in
/-- In a quiet state only a sleeping writer has the readers' turn. -/
theorem Quiet.wrAsleep_of_rdTurn {s : Global T (Mem T) Local} (hs : Quiet s) {t : T}
    (hturn : RdTurn (s.loc t)) : WrAsleep s t := by
  have hin : (s.loc t).pc ≠ .idle := fun hpc => by simp [RdTurn, hpc, queuedWr] at hturn
  rcases hs t hin with ⟨hpc, -⟩ | hwr
  · cases hp : (s.loc t).pc <;> simp_all [RdTurn, queuedWr]
  · exact hwr

omit [DecidableEq T] [Fintype T] in
/-- In a quiet state a thread that keeps the lock with the readers holds it. -/
theorem Quiet.reads_of_readerLeft {s : Global T (Mem T) Local} (hs : Quiet s) {t : T}
    (hleft : ReaderLeft s.mem.rdSleepers t (s.loc t)) : HoldsRd s t := by
  rcases hleft with hreads | hleft
  · exact hreads
  · have hin : (s.loc t).pc ≠ .idle := fun hpc => by simp [hpc] at hleft
    rcases hs t hin with ⟨hpc, hmem⟩ | ⟨hpc, -⟩
    · cases hp : (s.loc t).pc <;> simp_all
    · cases hp : (s.loc t).pc <;> simp_all

/-- No thread is stranded on a read-write lock, in runs with fewer than `2 ^ 32` read
holds and queued threads and without `timedrdlock`. When every thread inside an
operation is asleep and some thread is, some thread holds the lock; and it is a writer
when a reader is asleep. -/
theorem rwlock_not_stranded {s : Global T (Mem T) Local}
    (h : (machine I).ReachVia (fun s a => Few s ∧ NoTimedRd s a) s) (hquiet : Quiet s) :
    ((∃ t, RdAsleep s t ∨ WrAsleep s t) → ∃ t, HoldsRd s t ∨ HoldsWr s t) ∧
    ((∃ t, RdAsleep s t) → ∃ t, HoldsWr s t) := by
  have hs := served_of_reach h
  have hinv : Inv I s := inv_of_reach (fun _ _ ha => ha.1.1) h
  -- Nobody sleeps on an unowned lock: whoever has the turn is awake.
  have hwr : s.mem.oid = RWLOCK_UNOWNED → ∀ t, ¬ WrAsleep s t := by
    intro ho t ht
    obtain ⟨u, hu⟩ := hs.wr ho ⟨t, ht.2⟩
    exact hquiet.not_wrTurn u hu
  have hrd : s.mem.oid = RWLOCK_UNOWNED → ∀ t, ¬ RdAsleep s t := by
    intro ho t ht
    obtain ⟨u, hu⟩ := hs.rd ho ⟨t, ht.2⟩
    exact hwr ho u (hquiet.wrAsleep_of_rdTurn hu)
  rcases hs.owner with ho | ho | ⟨u, ho⟩
  · refine ⟨fun ⟨t, ht⟩ => ?_, fun ⟨t, ht⟩ => absurd ht (hrd ho t)⟩
    exact (ht.elim (hrd ho t) (hwr ho t)).elim
  · refine ⟨fun _ => ?_, fun ⟨t, ht⟩ => ?_⟩
    · obtain ⟨u, hu⟩ := hs.left ho
      exact ⟨u, .inl (hquiet.reads_of_readerLeft hu)⟩
    · obtain ⟨u, hu⟩ := hs.ro ho ⟨t, ht.2⟩
      have hnot := hquiet u (by simp [hu])
      simp [RdAsleep, WrAsleep, hu] at hnot
  · have hholds : HoldsWr s u := (hinv.writer u).mpr ho
    exact ⟨fun _ => ⟨u, .inr hholds⟩, fun _ => ⟨u, hholds⟩⟩

/-- A run in which a reader and a writer queue behind a writer that holds the lock. -/
theorem rwlock_not_stranded_three : ∃ s : Global (Fin 3) (Mem (Fin 3)) Local,
    (machine Ids.three).ReachVia (fun s a => Few s ∧ NoTimedRd s a) s ∧ Quiet s ∧
    (RdAsleep s 1 ∧ WrAsleep s 2) ∧
    ((∃ t, RdAsleep s t ∨ WrAsleep s t) → ∃ t, HoldsRd s t ∨ HoldsWr s t) ∧
    ((∃ t, RdAsleep s t) → ∃ t, HoldsWr s t) := by
  obtain ⟨s, hs, hquiet, hp⟩ := (machine Ids.three).exists_reachVia
    (fun s a => Few s ∧ NoTimedRd s a)
    (s := ⟨⟨0, 0, 0, ∅, ∅⟩, fun _ => ⟨.idle, 0, false⟩⟩) ⟨rfl, fun _ => rfl⟩
    [(0, { call := .wr .wrlock }), (0, {}), (0, {}), (0, {}), (0, {}),
      (1, { call := .rd .rdlock }), (1, {}), (1, {}), (1, {}), (1, {}),
      (2, { call := .wr (.timedwrlock ⟨1, 0⟩) }), (2, {}), (2, {}), (2, {}), (2, {}), (2, {})]
    (fun s => (∀ t, (s.loc t).pc ≠ .idle → RdAsleep s t ∨ WrAsleep s t) ∧
      RdAsleep s 1 ∧ WrAsleep s 2) (by decide)
  exact ⟨s, hs, hquiet, hp, rwlock_not_stranded hs hquiet⟩

end Hlpt.Rwlock
