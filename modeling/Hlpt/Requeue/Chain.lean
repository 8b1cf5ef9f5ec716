import Hlpt.LowLevelLock.Invariant
import Hlpt.Requeue.Model

/-!
# `Hlpt.Requeue.Chain`: who wakes the threads that a broadcast moved to the mutex

A thread that a broadcast moved to the lock word never marked the word itself. It depends
on a chain: one waiter is woken instead of all, locks the mutex through
`__pthread_mutex_cond_lock`, and marks the word, so that its unlock wakes the next one.
`Obliged` says who carries the chain on while the word is not marked, and `Inv.chain` that
there is always such a thread.

The wait of the Hurd breaks the chain when it was cancelled. It leaves the mutex, and
nobody else may be left to mark the word. `NotLast` excludes that.

* `Inv.word_step`: the accesses to the lock word keep the invariant.
* `Inv.plain`, `Inv.out_step`, `Inv.wait_step`, `Inv.requeue_step`, `Inv.mark_step` and
  `Inv.testCancel_step`: the other accesses keep it.
-/

set_option autoImplicit false

namespace Hlpt.Requeue

open Hlpt.Lib

universe u

variable {T : Type u}

/-- The thread is not asleep. -/
def Out (m : Mem T) (u : T) : Prop := u ∉ m.queue ∧ u ∉ m.lock.sleepers

/-- A thread that will wake a sleeper or mark the lock word before it leaves its call, if
its wait is not cancelled. -/
def Obliged (m : Mem T) (u : T) : Pc T → Prop
  | .mutex p | .unlock _ p => LowLevelLock.Duty m.lock u ⟨p, false⟩
  | .asleep _ _ => Out m u
  | .cancelpointEnd .. | .uncount .. | .spinRelock _ | .clearHook _ | .testCancel _ => True
  | .leave _ cancelled => cancelled = false
  | .cleanLoad _ | .cleanCas .. | .cleanWake => True
  | .relock _ _ => u ∉ m.lock.sleepers
  | .mark _ => True
  | _ => False

/-- A cancelled wait of the Hurd that is about to leave is not the last link of the chain:
nobody sleeps on the lock word, or the word is marked, or another thread is obliged. -/
def NotLast (s : Global T (Mem T) (Local T)) (a : T × Choice T) : Prop :=
  ∀ k, (s.loc a.1).pc = .testCancel k → s.mem.cancel a.1 = true →
    s.mem.lock.sleepers = ∅ ∨ s.mem.lock.word = 2 ∨
      ∃ u, u ≠ a.1 ∧ Obliged s.mem u (s.loc u).pc

/-! ### The invariant -/

/-- The control point in `Hlpt.LowLevelLock`. -/
def Pc.lower : Pc T → LowLevelLock.Pc
  | mutex p | unlock _ p | relock _ p => p
  | _ => .idle

/-- The state of `Hlpt.LowLevelLock`. -/
def lower (s : Global T (Mem T) (Local T)) : Global T (LowLevelLock.Mem T) LowLevelLock.Local :=
  ⟨s.mem.lock, fun t => ⟨(s.loc t).pc.lower, (s.loc t).holds⟩⟩

/-- The control points of a thread that sleeps on the lock word. -/
def OnWord : Pc T → Prop
  | .asleep _ _ | .mutex (.asleep _) | .unlock _ (.asleep _) | .relock _ (.asleep _) => True
  | _ => False

/-- Inside `lll_lock`. -/
inductive Locking : LowLevelLock.Pc → Prop
  | test : Locking (.lockTest none)
  | cas : Locking (.lockCas none)
  | swap : Locking (.lockSwap none)
  | wait : Locking (.lockWait none)
  | asleep : Locking (.asleep none)

/-- A wait has the mutex until it unlocks it, and `__pthread_mutex_cond_lock` is in
`lll_lock`, or it has the mutex and marks the word. -/
def Entitled (l : Local T) : Prop :=
  match l.pc with
  | .spinLock _ | .testPending _ | .checkMutex _ | .storeMutex _ | .mark _ => l.holds = true
  | .relock _ p => Locking p
  | _ => True

/-- The lock is exclusive, sleepers are inside `gsync_wait` and in one queue only, and the
ones on the lock word are not forgotten. -/
structure Inv (s : Global T (Mem T) (Local T)) : Prop where
  excl : LowLevelLock.Excl (lower s)
  queue : ∀ u ∈ s.mem.queue, ∃ k sw, (s.loc u).pc = .asleep k sw
  word : ∀ u ∈ s.mem.lock.sleepers, OnWord (s.loc u).pc
  apart : ∀ u ∈ s.mem.queue, u ∉ s.mem.lock.sleepers
  entitled : ∀ u, Entitled (s.loc u)
  chain : s.mem.lock.sleepers.Nonempty →
    s.mem.lock.word = 2 ∨ ∃ u, Obliged s.mem u (s.loc u).pc

variable {m m' : Mem T} {t u : T} {pc : Pc T} {l l' : Local T}
  {s : Global T (Mem T) (Local T)}

/-- An obliged thread stays so when another one moves, even if that one requeues. -/
theorem Obliged.frame (h : Obliged m u pc) (hqueue : u ∈ m'.queue → u ∈ m.queue)
    (hword : u ∈ m'.lock.sleepers → u ∈ m.lock.sleepers ∨ u ∈ m.queue)
    (hpark : u ∈ m.queue → ∃ k sw, pc = .asleep k sw) : Obliged m' u pc := by
  -- Outside of a wait the thread is not in the queue that is moved.
  have hstay : (∀ k sw, pc ≠ .asleep k sw) → u ∉ m.lock.sleepers → u ∉ m'.lock.sleepers := by
    intro hpc hu hu'
    rcases hword hu' with h | h
    · exact hu h
    · obtain ⟨k, sw, rfl⟩ := hpark h
      exact hpc k sw rfl
  cases pc with
  | mutex p | unlock k p =>
      rcases h with h | ⟨d, h | ⟨h, hu⟩⟩
      · exact .inl h
      · exact .inr ⟨d, .inl h⟩
      · exact .inr ⟨d, .inr ⟨h, hstay nofun hu⟩⟩
  | asleep k sw =>
      refine ⟨fun hu => h.1 (hqueue hu), ?_⟩
      intro hu
      rcases hword hu with hu | hu
      · exact h.2 hu
      · exact h.1 hu
  | relock r p => exact hstay nofun h
  | _ => exact h

/-- Exclusion does not see what is outside of the lock. -/
theorem excl_lower {w : LowLevelLock.Mem T} {f : T → LowLevelLock.Local} {g : T → Local T}
    (h : LowLevelLock.Excl ⟨w, f⟩) (hword : m.lock.word = w.word)
    (hholds : ∀ u, (g u).holds = (f u).holds)
    (hunlock : ∀ u, (g u).pc.lower = .unlockSwap → (g u).holds = true) :
    LowLevelLock.Excl (lower ⟨m, g⟩) where
  free := by
    simp only [LowLevelLock.Holds, lower, hholds, hword]
    exact h.free
  unique := by
    simp only [LowLevelLock.Holds, lower, hholds]
    exact h.unique
  unlocking := hunlock

variable [DecidableEq T]

/-- The chain after a step that leaves the word and puts nobody to sleep on it. -/
theorem Inv.chain_keep (hs : Inv s) (hword : m.lock.word = s.mem.lock.word)
    (hsub : m.lock.sleepers ⊆ s.mem.lock.sleepers) (hqueue : m.queue ⊆ insert t s.mem.queue)
    (hob : Obliged s.mem t (s.loc t).pc → Obliged m t l.pc)
    (hne : m.lock.sleepers.Nonempty) :
    m.lock.word = 2 ∨ ∃ u, Obliged m u (Function.update s.loc t l u).pc := by
  rcases hs.chain (hne.mono hsub) with hw | ⟨u, hu⟩
  · exact .inl (hword.trans hw)
  · refine .inr ⟨u, ?_⟩
    by_cases hut : u = t
    · subst hut
      rw [Function.update_self]
      exact hob hu
    · rw [Function.update_of_ne hut]
      exact hu.frame (fun h => Finset.mem_of_mem_insert_of_ne (hqueue h) hut)
        (fun h => .inl (hsub h)) (hs.queue u)

/-- A step outside of the functions of the lock. -/
theorem Inv.away (hs : Inv s) (hword : m.lock.word = s.mem.lock.word)
    (hsub : m.lock.sleepers ⊆ s.mem.lock.sleepers) (hqueue : m.queue ⊆ insert t s.mem.queue)
    (hholds : l.holds = (s.loc t).holds) (hlower : l.pc.lower = .unlockSwap → l.holds = true)
    (hq : t ∈ m.queue → ∃ k sw, l.pc = .asleep k sw) (hw : t ∈ m.lock.sleepers → OnWord l.pc)
    (hapart : t ∈ m.queue → t ∉ m.lock.sleepers) (hent : Entitled l)
    (hchain : m.lock.sleepers.Nonempty →
      m.lock.word = 2 ∨ ∃ u, Obliged m u (Function.update s.loc t l u).pc) :
    Inv ⟨m, Function.update s.loc t l⟩ where
  excl := by
    refine excl_lower hs.excl hword ?_ ?_
    · exact (forall_loc_iff (P := fun u (l : Local T) => l.holds = (s.loc u).holds)).mpr
        ⟨hholds, fun _ _ => rfl⟩
    · exact (forall_loc_iff (P := fun _ (l : Local T) => l.pc.lower = .unlockSwap →
        l.holds = true)).mpr ⟨hlower, fun u _ => hs.excl.unlocking u⟩
  queue := (forall_loc_iff (P := fun u (l : Local T) => u ∈ m.queue →
    ∃ k sw, l.pc = .asleep k sw)).mpr
      ⟨hq, fun u hut hu => hs.queue u (Finset.mem_of_mem_insert_of_ne (hqueue hu) hut)⟩
  word := (forall_loc_iff (P := fun u (l : Local T) => u ∈ m.lock.sleepers →
    OnWord l.pc)).mpr ⟨hw, fun u _ hu => hs.word u (hsub hu)⟩
  apart u hu := by
    by_cases hut : u = t
    · exact hut ▸ hapart (hut ▸ hu)
    · exact fun h => hs.apart u (Finset.mem_of_mem_insert_of_ne (hqueue hu) hut) (hsub h)
  entitled := (forall_loc_iff (P := fun _ (l : Local T) => Entitled l)).mpr
    ⟨hent, fun u _ => hs.entitled u⟩
  chain := hchain

/-! ### The accesses to the lock word -/

omit [DecidableEq T] in
/-- A thread that a wake took out of the queue of the lock word is obliged. -/
theorem obliged_of_onWord (hpc : OnWord pc) (hu : Out m u) : Obliged m u pc := by
  cases pc with
  | asleep k sw => exact hu
  | mutex p | unlock k p =>
      cases p with
      | asleep d => exact .inr ⟨d, .inr ⟨rfl, hu.2⟩⟩
      | _ => exact absurd hpc id
  | relock r p => exact hu.2
  | _ => exact absurd hpc id

/-- The thread is inside a function of the lock, and the caller goes on with `next`. -/
inductive Inside : Pc T → LowLevelLock.Pc → (LowLevelLock.Pc → Pc T) → Prop
  | mutex (p : LowLevelLock.Pc) : Inside (.mutex p) p afterMutex
  | unlock (k : WaitCall) (p : LowLevelLock.Pc) : Inside (.unlock k p) p (afterUnlock k)
  | relock (r : Option Cond.Ret) (p : LowLevelLock.Pc) : Inside (.relock r p) p (afterRelock r)

namespace Inside

variable {p q : LowLevelLock.Pc} {next : LowLevelLock.Pc → Pc T} {w : LowLevelLock.Mem T}
  {b : Bool}

omit [DecidableEq T] in
/-- The control point in the lock. -/
theorem lower_eq (h : Inside pc p next) : pc.lower = p := by
  cases h <;> rfl

omit [DecidableEq T] in
/-- The caller does not start an unlock. -/
theorem next_lower (h : Inside pc p next) (hq : (next q).lower = .unlockSwap) :
    q = .unlockSwap := by
  cases h <;> cases q <;> first | rfl | cases hq

omit [DecidableEq T] in
/-- The thread does not wait on the sequence. -/
theorem ne_asleep (h : Inside pc p next) (k : WaitCall) (sw : BitVec 32) :
    pc ≠ .asleep k sw := by
  cases h <;> exact nofun

omit [DecidableEq T] in
/-- A thread asleep on the word is in the sleep of the lock. -/
theorem of_onWord (h : Inside pc p next) (hpc : OnWord pc) : ∃ d, p = .asleep d := by
  cases h <;> cases p <;> first | exact ⟨_, rfl⟩ | exact absurd hpc id

omit [DecidableEq T] in
/-- The sleep of the lock is one on the word. -/
theorem next_onWord (h : Inside pc p next) (d : LowLevelLock.Deadline) :
    OnWord (next (.asleep d)) := by
  cases h <;> trivial

omit [DecidableEq T] in
/-- A duty in the lock is an obligation. -/
theorem obliged_of_duty (h : Inside pc p next) (hd : LowLevelLock.Duty w t ⟨q, b⟩)
    (hq : t ∈ w.sleepers → ∃ d, q = .asleep d) : Obliged { m with lock := w } t (next q) := by
  have hout : t ∉ w.sleepers := by
    intro ht
    obtain ⟨d, rfl⟩ := hq ht
    rcases hd with hd | ⟨d, hd | ⟨-, hd⟩⟩
    · cases hd
    · cases hd
    · exact hd ht
  cases h with
  | mutex | unlock =>
      rcases hd with rfl | ⟨d, rfl | ⟨rfl, -⟩⟩
      · exact .inl rfl
      · exact .inr ⟨d, .inl rfl⟩
      · exact .inr ⟨d, .inr ⟨rfl, hout⟩⟩
  | relock =>
      rcases hd with rfl | ⟨d, rfl | ⟨rfl, -⟩⟩ <;> exact hout

omit [DecidableEq T] in
/-- An obligation without a duty in the lock is the one to mark the word, and the step
keeps it. -/
theorem obliged_next (h : Inside pc p next) (ho : Obliged m t pc)
    (hd : ¬ LowLevelLock.Duty m.lock t ⟨p, b⟩) (hsub : w.sleepers ⊆ m.lock.sleepers) :
    Obliged { m with lock := w } t (next q) := by
  cases h with
  | mutex | unlock => exact absurd ho hd
  | relock r p =>
      have hout : t ∉ w.sleepers := fun ht => ho (hsub ht)
      cases q <;> first | exact hout | trivial

end Inside

/-- `lll_lock` goes on, or it has the lock. -/
theorem exec_locking {c : LowLevelLock.Choice T} {w w' : LowLevelLock.Mem T}
    {k k' : LowLevelLock.Local} (h : LowLevelLock.exec t c w k = some (w', k'))
    (hk : Locking k.pc) : Locking k'.pc ∨ k'.pc = .ret .ok ∧ k'.holds = true := by
  cases LowLevelLock.step_of_exec h with
  | free => exact .inl (by cases hk; exact .cas)
  | taken | lockLost | changed | interrupted | woken => exact .inl (by cases hk; exact .swap)
  | lockCas | swapFree => exact .inr ⟨rfl, rfl⟩
  | swapTaken => exact .inl (by cases hk; exact .wait)
  | sleep => exact .inl (by cases hk; exact .asleep)
  -- Without a deadline it does not time out.
  | _ => cases hk

omit [DecidableEq T] in
/-- What the caller does with it. -/
theorem Inside.entitled {p q : LowLevelLock.Pc} {next : LowLevelLock.Pc → Pc T} {b : Bool}
    (h : Inside pc p next)
    (hq : ∀ r, pc = .relock r p → Locking q ∨ q = .ret .ok ∧ b = true) :
    Entitled ⟨next q, b⟩ := by
  cases h with
  | mutex | unlock => cases q <;> trivial
  | relock r p =>
      rcases hq r rfl with hq | ⟨rfl, hb⟩
      · cases hq
        · exact .test
        · exact .cas
        · exact .swap
        · exact .wait
        · exact .asleep
      · exact hb

section Word

variable {p q : LowLevelLock.Pc} {next : LowLevelLock.Pc → Pc T} {w : LowLevelLock.Mem T}
  {b : Bool} {c : Choice T}

omit [DecidableEq T] in
/-- A thread that sleeps on the word while it is inside the lock is in the sleep of the
lock. -/
theorem Inv.parked (hs : Inv s) (hin : Inside (s.loc t).pc p next)
    (ht : t ∈ s.mem.lock.sleepers) : ∃ d, p = .asleep d :=
  hin.of_onWord (hs.word t ht)

/-- The chain after an access to the lock word. -/
theorem Inv.chain_word (hs : Inv s) (hin : Inside (s.loc t).pc p next)
    (h : LowLevelLock.exec t c.word s.mem.lock ⟨p, (s.loc t).holds⟩ = some (w, ⟨q, b⟩))
    (hne : w.sleepers.Nonempty) :
    w.word = 2 ∨ ∃ u, Obliged { s.mem with lock := w } u
      (Function.update s.loc t ⟨next q, b⟩ u).pc := by
  rcases LowLevelLock.exec_duty h with hw | hd | ⟨hw, hsub, hd⟩ | ⟨hp, hwake⟩
  · exact .inl hw
  · refine .inr ⟨t, ?_⟩
    rw [Function.update_self]
    exact hin.obliged_of_duty hd (LowLevelLock.exec_parked h (hs.parked hin)).1
  · obtain ⟨u, hu⟩ := (hs.chain (hne.mono hsub)).resolve_left hw
    refine .inr ⟨u, ?_⟩
    by_cases hut : u = t
    · subst hut
      rw [Function.update_self]
      exact hin.obliged_next hu hd hsub
    · rw [Function.update_of_ne hut]
      exact hu.frame id (fun h => .inl (hsub h)) (hs.queue u)
  · -- The wake of an unlock that left a sleeper behind took another one out.
    obtain ⟨u, hu, hu'⟩ := exists_woken hwake hne
    have hut : u ≠ t := by
      rintro rfl
      obtain ⟨d, hd⟩ := hs.parked hin hu
      cases hp.symm.trans hd
    refine .inr ⟨u, ?_⟩
    rw [Function.update_of_ne hut]
    exact obliged_of_onWord (hs.word u hu) ⟨fun hq => hs.apart u hq hu, hu'⟩

/-- An access to the lock word. -/
theorem Inv.word_step (hs : Inv s) (hin : Inside (s.loc t).pc p next)
    (h : onWord t c s.mem (s.loc t) p next = some (m, l)) :
    Inv ⟨m, Function.update s.loc t l⟩ := by
  obtain ⟨⟨w, q, b⟩, hexec, heq⟩ := Option.map_eq_some_iff.mp h
  cases heq
  have hlow : LowLevelLock.exec t c.word (lower s).mem ((lower s).loc t) =
      some (w, ⟨q, b⟩) := by
    show LowLevelLock.exec t c.word s.mem.lock ⟨(s.loc t).pc.lower, (s.loc t).holds⟩ = _
    rw [hin.lower_eq]
    exact hexec
  have hqueue : t ∉ s.mem.queue := by
    intro ht
    obtain ⟨k, sw, hpc⟩ := hs.queue t ht
    exact hin.ne_asleep k sw hpc
  obtain ⟨hpark, hsub⟩ := LowLevelLock.exec_parked hexec (hs.parked hin)
  constructor
  · refine excl_lower (hs.excl.step hlow) rfl ?_ ?_
    · refine (forall_loc_iff (P := fun u (l : Local T) => l.holds =
        (Function.update (lower s).loc t ⟨q, b⟩ u).holds)).mpr ⟨?_, fun u hut => ?_⟩
      · rw [Function.update_self]
      · rw [Function.update_of_ne hut]
        rfl
    · refine (forall_loc_iff (P := fun _ (l : Local T) => l.pc.lower = .unlockSwap →
        l.holds = true)).mpr ⟨fun hpc => ?_, fun u _ => hs.excl.unlocking u⟩
      exact LowLevelLock.exec_unlocking hexec (hin.next_lower hpc)
  · exact (forall_loc_iff (P := fun u (l : Local T) => u ∈ s.mem.queue →
      ∃ k sw, l.pc = .asleep k sw)).mpr ⟨fun ht => absurd ht hqueue, fun u _ => hs.queue u⟩
  · refine (forall_loc_iff (P := fun u (l : Local T) => u ∈ w.sleepers →
      OnWord l.pc)).mpr ⟨fun ht => ?_, fun u hut hu => ?_⟩
    · obtain ⟨d, rfl⟩ := hpark ht
      exact hin.next_onWord d
    · exact hs.word u (Finset.mem_of_mem_insert_of_ne (hsub hu) hut)
  · intro u hu hw
    have hut : u ≠ t := fun he => hqueue (he ▸ hu)
    exact hs.apart u hu (Finset.mem_of_mem_insert_of_ne (hsub hw) hut)
  · refine (forall_loc_iff (P := fun _ (l : Local T) => Entitled l)).mpr
      ⟨hin.entitled fun r hpc => ?_, fun u _ => hs.entitled u⟩
    have hc := hs.entitled t
    rw [Entitled, hpc] at hc
    exact exec_locking hexec hc
  · exact hs.chain_word hin hexec

end Word

/-! ### The other accesses -/

/-- A step outside of the lock and of the sleeps, which leaves the word and the sleepers on
it alone. -/
structure Plain (t : T) (m m' : Mem T) (l l' : Local T) : Prop where
  lock : m'.lock = m.lock
  queue : m'.queue ⊆ m.queue
  holds : l'.holds = l.holds
  awake : ¬ OnWord l.pc
  unlocking : Entitled l → l'.pc.lower = .unlockSwap → l.holds = true
  entitled : Entitled l → Entitled l'
  obliged : Out m t → Obliged m t l.pc → Obliged m' t l'.pc

omit [DecidableEq T] in
/-- A thread outside of the sleeps is not asleep. -/
theorem Inv.out (hs : Inv s) (hpc : ¬ OnWord (s.loc t).pc) : Out s.mem t := by
  refine ⟨fun ht => ?_, fun ht => hpc (hs.word t ht)⟩
  obtain ⟨k, sw, hk⟩ := hs.queue t ht
  exact hpc (hk ▸ trivial)

/-- Such a step keeps the invariant. -/
theorem Inv.plain (hs : Inv s) (h : Plain t s.mem m (s.loc t) l) :
    Inv ⟨m, Function.update s.loc t l⟩ := by
  have hout := hs.out h.awake
  have hsub : m.lock.sleepers ⊆ s.mem.lock.sleepers := by rw [h.lock]
  have hqueue : m.queue ⊆ insert t s.mem.queue := h.queue.trans (Finset.subset_insert _ _)
  have hword : m.lock.word = s.mem.lock.word := by rw [h.lock]
  refine hs.away hword hsub hqueue h.holds (fun hl => ?_) (fun ht => ?_) (fun ht => ?_)
    (fun ht => ?_) (h.entitled (hs.entitled t)) (hs.chain_keep hword hsub hqueue (h.obliged hout))
  · rw [h.holds]
    exact h.unlocking (hs.entitled t) hl
  · exact absurd (h.queue ht) hout.1
  · exact absurd (hsub ht) hout.2
  · exact absurd (h.queue ht) hout.1

/-- The thread leaves the kernel's queues, whether woken or not, and is obliged. -/
theorem Inv.out_step (hs : Inv s) (hholds : l.holds = (s.loc t).holds)
    (hlower : l.pc.lower ≠ .unlockSwap) (hent : Entitled l) (hob : Obliged (s.mem.out t) t l.pc) :
    Inv ⟨s.mem.out t, Function.update s.loc t l⟩ := by
  have hsub : (s.mem.out t).lock.sleepers ⊆ s.mem.lock.sleepers := Finset.erase_subset _ _
  have hqueue : (s.mem.out t).queue ⊆ insert t s.mem.queue :=
    (Finset.erase_subset _ _).trans (Finset.subset_insert _ _)
  refine hs.away rfl hsub hqueue hholds (fun hl => ?_) (fun ht => ?_) (fun ht => ?_)
    (fun ht => ?_) hent (hs.chain_keep rfl hsub hqueue fun _ => hob)
  · exact absurd hl hlower
  · exact absurd ht (Finset.notMem_erase t _)
  · exact absurd ht (Finset.notMem_erase t _)
  · exact absurd ht (Finset.notMem_erase t _)

/-- A wait goes to sleep on the sequence. -/
theorem Inv.wait_step {k : WaitCall} {sw : BitVec 32} (hs : Inv s)
    (hpc : (s.loc t).pc = .wait k sw) :
    Inv ⟨{ s.mem with queue := insert t s.mem.queue },
      Function.update s.loc t { s.loc t with pc := .asleep k sw }⟩ := by
  have hout : Out s.mem t := hs.out (by rw [hpc]; exact id)
  refine hs.away rfl (Finset.Subset.refl _) (Finset.Subset.refl _) rfl nofun (fun _ => ⟨k, sw, rfl⟩)
    (fun ht => absurd ht hout.2) (fun _ => hout.2) trivial
    (hs.chain_keep rfl (Finset.Subset.refl _) (Finset.Subset.refl _) fun hob => ?_)
  rw [hpc] at hob
  exact hob.elim

/-- The chain after a broadcast that moved the waiters to the lock word. The one that it
woke is obliged. -/
theorem Inv.chain_requeue {q : Finset T} {pick : Option T} (hs : Inv s)
    (hpc : (s.loc t).pc = .bcRequeue) (hwake : wakeOne s.mem.queue pick = some q)
    (hword : m.lock.word = s.mem.lock.word) (hqueue : m.queue = ∅)
    (hsleepers : m.lock.sleepers = s.mem.lock.sleepers ∪ q) (hne : m.lock.sleepers.Nonempty) :
    m.lock.word = 2 ∨ ∃ u, Obliged m u (Function.update s.loc t l u).pc := by
  have hgone : ∀ u, u ∉ m.queue := by
    intro u
    rw [hqueue]
    exact Finset.notMem_empty u
  by_cases hrest : q.Nonempty
  · -- Somebody is left to move, so one waiter was woken.
    obtain ⟨u, hu, hu'⟩ := exists_woken hwake hrest
    obtain ⟨k, sw, hk⟩ := hs.queue u hu
    have hut : u ≠ t := by
      rintro rfl
      cases hk.symm.trans hpc
    refine .inr ⟨u, ?_⟩
    rw [Function.update_of_ne hut, hk]
    refine ⟨hgone u, ?_⟩
    intro hw
    rw [hsleepers] at hw
    rcases Finset.mem_union.mp hw with hw | hw
    · exact hs.apart u hu hw
    · exact hu' hw
  · have hsame : m.lock.sleepers = s.mem.lock.sleepers := by
      rw [hsleepers, Finset.not_nonempty_iff_eq_empty.mp hrest, Finset.union_empty]
    rcases hs.chain (hsame ▸ hne) with hw | ⟨u, hu⟩
    · exact .inl (hword.trans hw)
    · have hut : u ≠ t := by
        rintro rfl
        rw [hpc] at hu
        exact hu
      refine .inr ⟨u, ?_⟩
      rw [Function.update_of_ne hut]
      exact hu.frame (fun h => absurd h (hgone u)) (fun h => .inl (hsame ▸ h)) (hs.queue u)

/-- A broadcast moves the waiters to the lock word. -/
theorem Inv.requeue_step {pick : Option T} (hs : Inv s) (hpc : (s.loc t).pc = .bcRequeue)
    (h : s.mem.requeue pick = some m) :
    Inv ⟨m, Function.update s.loc t { s.loc t with pc := .ret (.code .ok) }⟩ := by
  obtain ⟨q, hwake, rfl⟩ := Option.map_eq_some_iff.mp h
  have hout : Out s.mem t := hs.out (by rw [hpc]; exact id)
  have hq := wakeOne_subset hwake
  constructor
  · refine excl_lower hs.excl rfl ?_ ?_
    · exact (forall_loc_iff (P := fun u (l : Local T) => l.holds = (s.loc u).holds)).mpr
        ⟨rfl, fun _ _ => rfl⟩
    · exact (forall_loc_iff (P := fun _ (l : Local T) => l.pc.lower = .unlockSwap →
        l.holds = true)).mpr ⟨nofun, fun u _ => hs.excl.unlocking u⟩
  · intro u hu
    exact absurd hu (Finset.notMem_empty u)
  · refine (forall_loc_iff (P := fun u (l : Local T) => u ∈ s.mem.lock.sleepers ∪ q →
      OnWord l.pc)).mpr ⟨fun ht => ?_, fun u _ hu => ?_⟩
    · rcases Finset.mem_union.mp ht with ht | ht
      · exact absurd ht hout.2
      · exact absurd (hq ht) hout.1
    · rcases Finset.mem_union.mp hu with hu | hu
      · exact hs.word u hu
      · obtain ⟨k, sw, hk⟩ := hs.queue u (hq hu)
        rw [hk]
        trivial
  · intro u hu
    exact absurd hu (Finset.notMem_empty u)
  · exact (forall_loc_iff (P := fun _ (l : Local T) => Entitled l)).mpr
      ⟨trivial, fun u _ => hs.entitled u⟩
  · exact hs.chain_requeue hpc hwake rfl rfl rfl

/-- The store of `__pthread_mutex_cond_lock` marks the word that its thread has. -/
theorem Inv.mark_step {r : Option Cond.Ret} (hs : Inv s) (hpc : (s.loc t).pc = .mark r)
    (hlower : pc.lower ≠ .unlockSwap) (hent : Entitled ⟨pc, (s.loc t).holds⟩) :
    Inv ⟨{ s.mem with lock := { s.mem.lock with word := 2 } },
      Function.update s.loc t { s.loc t with pc := pc }⟩ := by
  have hout : Out s.mem t := hs.out (by rw [hpc]; exact id)
  have hholds : (s.loc t).holds = true := by
    have := hs.entitled t
    rwa [Entitled, hpc] at this
  have hall : ∀ u, (Function.update s.loc t { s.loc t with pc := pc } u).holds =
      (s.loc u).holds :=
    (forall_loc_iff (P := fun u (l : Local T) => l.holds = (s.loc u).holds)).mpr
      ⟨rfl, fun _ _ => rfl⟩
  constructor
  · constructor
    · -- The word was not free and is not.
      constructor
      · exact fun h => absurd h (by decide : (2 : BitVec 32) ≠ 0)
      · exact fun h => absurd ((hall t).trans hholds) (h t)
    · intro u v hu hv
      exact hs.excl.unique u v ((hall u).symm.trans hu) ((hall v).symm.trans hv)
    · refine (forall_loc_iff (P := fun _ (l : Local T) => l.pc.lower = .unlockSwap →
        l.holds = true)).mpr ⟨fun hl => ?_, fun u _ => hs.excl.unlocking u⟩
      exact absurd hl hlower
  · exact (forall_loc_iff (P := fun u (l : Local T) => u ∈ s.mem.queue →
      ∃ k sw, l.pc = .asleep k sw)).mpr ⟨fun ht => absurd ht hout.1, fun u _ => hs.queue u⟩
  · exact (forall_loc_iff (P := fun u (l : Local T) => u ∈ s.mem.lock.sleepers →
      OnWord l.pc)).mpr ⟨fun ht => absurd ht hout.2, fun u _ => hs.word u⟩
  · exact hs.apart
  · exact (forall_loc_iff (P := fun _ (l : Local T) => Entitled l)).mpr
      ⟨hent, fun u _ => hs.entitled u⟩
  · exact fun _ => .inl rfl

/-- A wait of the Hurd looks at `stp->cancel`. When it was cancelled, it is no longer
obliged, but somebody else carries the chain on. -/
theorem Inv.testCancel_step {k : WaitCall} (hs : Inv s) (hpc : (s.loc t).pc = .testCancel k)
    (hlast : s.mem.cancel t = true → s.mem.lock.sleepers = ∅ ∨ s.mem.lock.word = 2 ∨
      ∃ u, u ≠ t ∧ Obliged s.mem u (s.loc u).pc) :
    Inv ⟨{ s.mem with cancel := Function.update s.mem.cancel t false },
      Function.update s.loc t { s.loc t with pc := .leave k (s.mem.cancel t) }⟩ := by
  have hout : Out s.mem t := hs.out (by rw [hpc]; exact id)
  refine hs.away rfl (Finset.Subset.refl _) (Finset.subset_insert _ _) rfl nofun
    (fun ht => absurd ht hout.1) (fun ht => absurd ht hout.2) (fun _ => hout.2) trivial
    fun hne => ?_
  cases hc : s.mem.cancel t with
  | false =>
      exact hs.chain_keep rfl (Finset.Subset.refl _) (Finset.subset_insert _ _)
        (fun _ => rfl) hne
  | true =>
      rcases hlast hc with hnone | hw | ⟨u, hut, hu⟩
      · exact absurd hnone hne.ne_empty
      · exact .inl hw
      · refine .inr ⟨u, ?_⟩
        rw [Function.update_of_ne hut]
        exact hu.frame id .inl (hs.queue u)

end Hlpt.Requeue
