import Hlpt.Cond.Model
import Hlpt.Lib.Counter

/-!
# `Hlpt.Cond.Notified`: no signal is lost

A signal increments the sequence, which closes the door for the waiters that are
registered: their value comparison fails from then on. Those of them that sleep stand at
the front of the queue, before every waiter that registered later. So the wake of the
signal, whenever it comes, takes one of them out, unless another wake did so before.

`Inv` says this with the number of increments that a waiter has seen (`since`): the queue
is sorted by it, and the waiters that the note `n` names are those with `since ≤ n`.

* `cond_no_signal_lost`: after its wake, a signal has got through to one of the threads
  that waited at its increment, and a broadcast to all of them.
-/

set_option autoImplicit false

namespace Hlpt.Cond

open Hlpt.Lib

universe u

/-! ### The control points -/

/-- A waiter that is registered: from the compare-and-swap of `atomic_addx_hi` until it is
uncounted, or leaves the loop without that. -/
def Registered : Pc → Bool
  | .cancelpointBegin .. | .clock .. | .wait .. | .asleep .. | .cancelpointEnd .. | .uncount ..
  | .cleanLoad _ | .cleanCas .. => true
  | _ => false

/-- Inside `gsync_wait`. -/
def Asleep : Pc → Bool
  | .asleep .. => true
  | _ => false

/-- The increment whose wake the thread has yet to issue. -/
def pending : Pc → Option ℕ
  | .sigWake n | .bcMutex n | .bcRequeue n | .bcWake n => some n
  | _ => none

/-- A waiter that is about to leave the loop with `KERN_INTERRUPTED`. -/
def Leaks : Pc → Bool
  | .cancelpointEnd _ _ .interrupted => true
  | _ => false

/-- A sleeper is registered. -/
theorem registered_of_asleep {pc : Pc} (h : Asleep pc = true) : Registered pc = true := by
  cases pc <;> simp_all [Asleep, Registered]

variable {T : Type u} [DecidableEq T] {pshared : Bool} {t : T} {c : Choice} {m m' : Mem T}
  {pc pc' : Pc}

/-! ### What one step does -/

/-- What one step does to the memory and to the control point of the thread that moved. -/
inductive Effect (t : T) (m : Mem T) (pc : Pc) : Mem T → Pc → Prop
  | quiet {mutex : Bool} {pc' : Pc} (hr : Registered pc' = Registered pc)
      (ha : Asleep pc' = Asleep pc) (hp : pending pc' = pending pc)
      (hsw : ∀ sw, cancelSw pc' = some sw → cancelSw pc = some sw)
      (hsig : ∀ n, pc' ≠ .sigWake n) : Effect t m pc { m with mutex := mutex } pc'
  | register {k : WaitCall} {lo hi : BitVec 32} (hpc : pc = .regCas k lo hi) :
      Effect t m pc { m.register t with hi := m.hi + 1 } (.cancelpointBegin k m.lo)
  | sleep {k : WaitCall} (hpc : pc = .wait k m.lo) :
      Effect t m pc { m with queue := m.queue ++ [t] } (.asleep k m.lo)
  | awake {requeued : Finset T} {pc' : Pc} (hr : Registered pc = true)
      (hr' : Registered pc' = true) (ha : Asleep pc' = false) (hp : pending pc = none)
      (hp' : pending pc' = none)
      (hsw : ∀ sw, cancelSw pc' = some sw → cancelSw pc = some sw) :
      Effect t m pc { m with queue := m.queue.erase t, requeued := requeued } pc'
  | leak {k : WaitCall} {ret : KernReturn} (hpc : Leaks pc = true) :
      Effect t m pc { m with waiting := m.waiting.erase t, leaked := m.leaked + 1 }
        (.relock k ret)
  | uncount {pc' : Pc} (hr : Registered pc = true) (ha : Asleep pc = false)
      (hp : pending pc = none) (hr' : Registered pc' = false) (hp' : pending pc' = none)
      (hsw : cancelSw pc' = none) :
      Effect t m pc { m with hi := m.hi - 1, waiting := m.waiting.erase t } pc'
  | note {bcast : Bool} {pc' : Pc} (hr : Registered pc = false) (hp : pending pc = none)
      (hr' : Registered pc' = false)
      (hp' : m.hi = 0 ∧ pending pc' = none ∨ pending pc' = some m.notes.length)
      (hsw : cancelSw pc' = none)
      (hsig : ∀ n, pc' = .sigWake n → n = m.notes.length ∧ bcast = false) :
      Effect t m pc { m.note bcast with lo := m.lo + 1 } pc'
  | wakeOne {n : ℕ} (hpc : pc = .sigWake n) :
      Effect t m pc { m with queue := m.queue.tail } (.ret (.code .ok))
  | wakeAll {requeued : Finset T} {pc' : Pc} (hr : Registered pc = false)
      (hr' : Registered pc' = false) (hp' : pending pc' = none) (hsw : cancelSw pc' = none) :
      Effect t m pc { m with queue := [], requeued := requeued } pc'

/-- A control point outside of the sleep, with no wake to issue. -/
def Outside : Pc → Bool
  | .idle | .checkMutex _ | .storeMutex _ | .unlock _ | .regLoad _ | .regCas .. | .relock ..
  | .cleanRelock | .sigLoad | .sigCas .. | .bcLoad | .bcCas .. | .ret _ | .gone => true
  | _ => false

/-- A call starts outside. -/
theorem outside_enter {call : Call} : Outside (enter pshared call) = true := by
  cases call with
  | wait k =>
      cases k with
      | wait =>
          rw [enter]
          split <;> rfl
      | timedwait tsp =>
          rw [enter]
          split
          · rfl
          · split <;> rfl
  | signal | broadcast => rfl

/-- A step that stays outside is quiet. -/
theorem Effect.outside {mutex : Bool} (h : Outside pc = true) (h' : Outside pc' = true) :
    Effect t m pc { m with mutex := mutex } pc' := by
  have hout : ∀ p : Pc, Outside p = true → Registered p = false ∧ Asleep p = false ∧
      pending p = none ∧ cancelSw p = none ∧ ∀ n, p ≠ .sigWake n := by
    intro p hp
    cases p <;> first | exact ⟨rfl, rfl, rfl, rfl, nofun⟩ | cases hp
  obtain ⟨hr, ha, hp, -, -⟩ := hout pc h
  obtain ⟨hr', ha', hp', hsw', hsig'⟩ := hout pc' h'
  refine .quiet (hr'.trans hr.symm) (ha'.trans ha.symm) (hp'.trans hp.symm) ?_ hsig'
  intro sw hsw
  cases hsw'.symm.trans hsw

/-- A cancellation takes the thread out of the queues. -/
theorem effect_of_cancel {sw : BitVec 32} {requeued : Finset T} (h : cancelSw pc = some sw) :
    Effect t m pc { m with queue := m.queue.erase t, requeued := requeued } (.cleanLoad sw) := by
  cases pc with
  | cancelpointBegin | clock | wait | asleep | cancelpointEnd =>
      exact .awake rfl rfl rfl rfl rfl nofun
  | _ => cases h

/-- The effects of the steps that are no cancellation. -/
theorem effect_of_act (h : act pshared t c m pc = some (m', pc')) : Effect t m pc m' pc' := by
  cases pc with
  | idle =>
      cases h
      exact .outside rfl outside_enter
  | checkMutex k =>
      cases h
      refine .outside rfl ?_
      split <;> rfl
  | unlock k =>
      cases h
      refine .outside rfl ?_
      split <;> rfl
  | regCas k lo hi =>
      simp only [act] at h
      split at h
      · next heq =>
        obtain ⟨rfl, rfl⟩ := heq
        cases h
        exact .register rfl
      · cases h
        exact .outside rfl rfl
  -- Between the registration and the end of the count the control point keeps its `sw`.
  | cancelpointBegin k sw =>
      cases h
      cases k with
      | wait => exact .quiet rfl rfl rfl (fun _ => id) nofun
      | timedwait tsp => exact .quiet rfl rfl rfl (fun _ => id) nofun
  | clock tsp sw =>
      cases h
      split <;> exact .quiet rfl rfl rfl (fun _ => id) nofun
  | wait k sw =>
      simp only [act] at h
      split at h
      · next heq =>
        subst heq
        cases h
        exact .sleep rfl
      · cases h
        exact .quiet rfl rfl rfl (fun _ => id) nofun
  | asleep k sw =>
      obtain ⟨ret, -, hr⟩ := Option.map_eq_some_iff.mp h
      cases hr
      exact .awake rfl rfl rfl rfl rfl fun _ => id
  | cancelpointEnd k sw ret =>
      simp only [act] at h
      split at h
      · next hret =>
        subst hret
        cases h
        exact .leak rfl
      · cases h
        exact .quiet rfl rfl rfl nofun nofun
  | uncount k ret =>
      cases h
      exact .uncount rfl rfl rfl rfl rfl rfl
  | cleanLoad sw =>
      cases h
      exact .quiet rfl rfl rfl nofun nofun
  | cleanCas sw lo hi =>
      simp only [act] at h
      split at h
      · next heq =>
        obtain ⟨rfl, rfl⟩ := heq
        cases h
        split <;> exact .uncount rfl rfl rfl rfl rfl rfl
      · cases h
        exact .quiet rfl rfl rfl nofun nofun
  -- An increment leaves a note, and a wake to issue if the word counts a waiter.
  | sigCas lo hi | bcCas lo hi =>
      simp only [act] at h
      split at h
      · next heq =>
        obtain ⟨rfl, rfl⟩ := heq
        cases h
        split
        · exact .note rfl rfl rfl (.inr rfl) rfl (by simp)
        · next hhi => exact .note rfl rfl rfl (.inl ⟨not_not.mp hhi, rfl⟩) rfl nofun
      · cases h
        exact .outside rfl rfl
  | bcMutex n =>
      cases h
      split <;> exact .quiet rfl rfl rfl nofun nofun
  | sigWake n =>
      cases h
      exact .wakeOne rfl
  | cleanWake | bcRequeue | bcWake =>
      cases h
      exact .wakeAll rfl rfl rfl rfl
  | gone => cases h
  | storeMutex | regLoad | relock | cleanRelock | sigLoad | bcLoad | ret =>
      cases h
      exact .outside rfl rfl

/-- Every step has one of these effects. -/
theorem exec_effect (h : exec pshared t c m pc = some (m', pc')) : Effect t m pc m' pc' := by
  rw [exec] at h
  split at h
  · obtain ⟨sw, hsw, hr⟩ := Option.map_eq_some_iff.mp h
    cases hr
    exact effect_of_cancel hsw
  · exact effect_of_act h

/-! ### The invariant -/

/-- The thread sleeps on the sequence, in its `n`-th wait. -/
def SleepsIn (m : Mem T) (t : T) (n : ℕ) : Prop := t ∈ m.queue ∧ m.waits t = n

instance (m : Mem T) (t : T) (n : ℕ) : Decidable (SleepsIn m t n) :=
  inferInstanceAs (Decidable (_ ∧ _))

/-- The note has got through: of the waits that were registered at the increment, one
sleeps no longer, and after a broadcast none does. -/
def Note.Through (note : Note T) (m : Mem T) : Prop :=
  if note.bcast then ∀ t ∈ note.waiting, ¬ SleepsIn m t (note.waits t)
  else note.waiting.Nonempty → ∃ t ∈ note.waiting, ¬ SleepsIn m t (note.waits t)

/-- A thread has yet to issue the wake of the increment `n`. -/
def Pending (s : Global T (Mem T) Pc) (n : ℕ) : Prop := ∃ t, pending (s.loc t) = some n

/-- What the control point of a thread says about the memory. -/
structure ThreadOk (m : Mem T) (t : T) (pc : Pc) : Prop where
  waiting : t ∈ m.waiting ↔ Registered pc = true
  since : m.since t ≤ m.notes.length
  sw : ∀ sw, cancelSw pc = some sw → sw = BitVec.ofNat 32 (m.since t)
  asleep : t ∈ m.queue → Asleep pc = true
  sig : ∀ n, pc = .sigWake n → ∃ note, m.notes[n]? = some note ∧ note.bcast = false

/-- The words, the queue and the notes agree with the threads. -/
structure Inv (s : Global T (Mem T) Pc) : Prop where
  lo : s.mem.lo = BitVec.ofNat 32 s.mem.notes.length
  hi : s.mem.hi = BitVec.ofNat 32 (s.mem.waiting.card + s.mem.leaked)
  threads : ∀ t, ThreadOk s.mem t (s.loc t)
  nodup : s.mem.queue.Nodup
  sorted : s.mem.queue.Pairwise fun t u => s.mem.since t ≤ s.mem.since u
  waits : ∀ note ∈ s.mem.notes, ∀ t, note.waits t ≤ s.mem.waits t
  old : ∀ n note, s.mem.notes[n]? = some note → ∀ t ∈ s.mem.waiting,
    (s.mem.since t ≤ n ↔ t ∈ note.waiting ∧ note.waits t = s.mem.waits t)
  through : ∀ n note, s.mem.notes[n]? = some note → Pending s n ∨ note.Through s.mem

/-- Fewer than `2 ^ 32` increments happened since each registered waiter registered. -/
def Fresh (s : Global T (Mem T) Pc) : Prop :=
  ∀ t ∈ s.mem.waiting, s.mem.notes.length < s.mem.since t + 2 ^ 32

instance (s : Global T (Mem T) Pc) : Decidable (Fresh s) :=
  inferInstanceAs (Decidable (∀ t ∈ s.mem.waiting, _))

/-- A wait leaves without being uncounted only while the waiters that did so, this one
and all threads are fewer than `2 ^ 32`. -/
def Few [Fintype T] (s : Global T (Mem T) Pc) (a : T × Choice) : Prop :=
  Leaks (s.loc a.1) = true → s.mem.leaked + 1 + Fintype.card T < 2 ^ 32

instance [Fintype T] (s : Global T (Mem T) Pc) (a : T × Choice) : Decidable (Few s a) :=
  inferInstanceAs (Decidable (_ → _))

variable {s : Global T (Mem T) Pc}

omit [DecidableEq T] in
/-- What got through stays through, when no thread goes to sleep in a wait of the
note. -/
theorem Note.Through.mono {note : Note T} (h : note.Through m)
    (hmono : ∀ t ∈ note.waiting, SleepsIn m' t (note.waits t) → SleepsIn m t (note.waits t)) :
    note.Through m' := by
  unfold Note.Through at h ⊢
  split
  · rename_i hb
    rw [if_pos hb] at h
    exact fun t ht hs => h t ht (hmono t ht hs)
  · rename_i hb
    rw [if_neg hb] at h
    intro hne
    obtain ⟨t, ht, hns⟩ := h hne
    exact ⟨t, ht, fun hs => hns (hmono t ht hs)⟩

omit [DecidableEq T] in
/-- When the queue is empty, every note has got through. -/
theorem Note.through_of_nil {note : Note T} (h : m.queue = []) : note.Through m := by
  have hns : ∀ t n, ¬ SleepsIn m t n := fun t n hs => by
    rw [SleepsIn, h] at hs
    exact absurd hs.1 List.not_mem_nil
  unfold Note.Through
  split
  · exact fun t _ => hns t _
  · rintro ⟨t, ht⟩
    exact ⟨t, ht, hns t _⟩

/-- A wake stays pending, unless the thread that has to issue it moved on. -/
theorem Pending.step {n : ℕ} (h : Pending s n)
    (hp : pending (s.loc t) = some n → pending pc = some n) :
    Pending ⟨m, Function.update s.loc t pc⟩ n := by
  obtain ⟨u, hu⟩ := h
  by_cases hut : u = t
  · subst hut
    exact ⟨u, by simpa using hp hu⟩
  · exact ⟨u, by simpa [Function.update_of_ne hut] using hu⟩

/-- The sleepers that a note names are the first in the queue. So the wake of a signal
takes one of them, if they all sleep. -/
theorem Inv.through_tail (hs : Inv s) {n : ℕ} {note : Note T}
    (hn : s.mem.notes[n]? = some note) (hb : note.bcast = false) :
    note.Through { s.mem with queue := s.mem.queue.tail } := by
  rw [Note.Through, hb, if_neg Bool.false_ne_true]
  intro hne
  by_contra hall
  push Not at hall
  obtain ⟨t, ht⟩ := hne
  obtain ⟨htail, hw⟩ := hall t ht
  cases hq : s.mem.queue with
  | nil => simp [hq] at htail
  | cons u rest =>
      simp only [hq, List.tail_cons] at htail hall
      have hmem : ∀ v ∈ s.mem.queue, v ∈ s.mem.waiting := fun v hv =>
        (hs.threads v).waiting.mpr (registered_of_asleep ((hs.threads v).asleep hv))
      have hold : s.mem.since t ≤ n :=
        (hs.old n note hn t (hmem t (hq ▸ List.mem_cons_of_mem u htail))).mpr ⟨ht, hw.symm⟩
      -- The first in the queue is older, so the note names it as well.
      have hsorted := hs.sorted
      have hnodup := hs.nodup
      rw [hq] at hsorted hnodup
      have hle := (List.pairwise_cons.mp hsorted).1 t htail
      have hu := (hs.old n note hn u (hmem u (hq ▸ List.mem_cons_self ..))).mp (by omega)
      exact (List.nodup_cons.mp hnodup).1 (hall u hu.1).1

/-! ### The invariant is kept -/

omit [DecidableEq T] in
/-- A thread that did not move, after a step that keeps its own ghosts and adds it to no
queue. -/
theorem ThreadOk.frame (h : ThreadOk m t pc) (hw : t ∈ m'.waiting ↔ t ∈ m.waiting)
    (hs : m'.since t = m.since t) (hn : m.notes <+: m'.notes)
    (hq : t ∈ m'.queue → t ∈ m.queue) : ThreadOk m' t pc where
  waiting := hw.trans h.waiting
  since := hs ▸ h.since.trans hn.length_le
  sw := hs ▸ h.sw
  asleep ht := h.asleep (hq ht)
  sig n hpc := by
    obtain ⟨note, hnote, hb⟩ := h.sig n hpc
    refine ⟨note, ?_, hb⟩
    obtain ⟨l, hl⟩ := hn
    rw [← hl, List.getElem?_append_left (List.getElem?_eq_some_iff.mp hnote).1, hnote]

/-- All threads, after a step of one of them. -/
theorem threads_step (h : ∀ u, ThreadOk m u (s.loc u)) (ht : ThreadOk m' t pc)
    (hother : ∀ u, u ≠ t → (u ∈ m'.waiting ↔ u ∈ m.waiting) ∧ m'.since u = m.since u ∧
      (u ∈ m'.queue → u ∈ m.queue))
    (hn : m.notes <+: m'.notes) (u : T) : ThreadOk m' u (Function.update s.loc t pc u) := by
  refine forall_loc_iff (P := fun u p => ThreadOk m' u p) |>.mpr ⟨ht, fun u hu => ?_⟩ u
  obtain ⟨hw, hs, hq⟩ := hother u hu
  exact (h u).frame hw hs hn hq

/-- A step that moves one thread from one quiet control point to the next. -/
theorem Inv.quiet (hs : Inv s) {mutex : Bool} (hr : Registered pc = Registered (s.loc t))
    (ha : Asleep pc = Asleep (s.loc t)) (hp : pending pc = pending (s.loc t))
    (hsw : ∀ sw, cancelSw pc = some sw → cancelSw (s.loc t) = some sw)
    (hsig : ∀ n, pc ≠ .sigWake n) :
    Inv ⟨{ s.mem with mutex := mutex }, Function.update s.loc t pc⟩ where
  lo := hs.lo
  hi := hs.hi
  threads := by
    have ht := hs.threads t
    exact threads_step hs.threads ⟨hr ▸ ht.waiting, ht.since, fun sw h => ht.sw sw (hsw sw h),
      ha ▸ ht.asleep, fun n h => absurd h (hsig n)⟩
      (fun u _ => ⟨Iff.rfl, rfl, id⟩) (List.prefix_refl _)
  nodup := hs.nodup
  sorted := hs.sorted
  waits := hs.waits
  old := hs.old
  through n note hn := (hs.through n note hn).imp (fun h => h.step fun h' => hp ▸ h') id

/-- A thread registers. -/
theorem Inv.register (hs : Inv s) {k k' : WaitCall} {lo hi : BitVec 32}
    (hpc : s.loc t = .regCas k lo hi) :
    Inv ⟨{ s.mem.register t with hi := s.mem.hi + 1 },
      Function.update s.loc t (.cancelpointBegin k' s.mem.lo)⟩ := by
  have ht := hs.threads t
  rw [hpc] at ht
  have hnw : t ∉ s.mem.waiting := fun h => absurd (ht.waiting.mp h) Bool.false_ne_true
  have hnq : t ∉ s.mem.queue := fun h => absurd (ht.asleep h) Bool.false_ne_true
  have hne : ∀ u ∈ s.mem.queue, u ≠ t := fun u hu h => hnq (h ▸ hu)
  constructor
  · exact hs.lo
  · refine word_step hs.hi (.inr (.inl ⟨rfl, ?_⟩))
    simp only [Mem.register, Finset.card_insert_of_notMem hnw]
    omega
  · refine threads_step hs.threads ⟨?_, ?_, ?_, ?_, ?_⟩ (fun u hu => ?_) (List.prefix_refl _)
    · simp [Mem.register, Registered]
    · simp [Mem.register]
    · simpa [Mem.register, cancelSw] using hs.lo
    · exact fun h => absurd h hnq
    · simp
    · simp [Mem.register, hu]
  · exact hs.nodup
  · apply hs.sorted.imp_of_mem
    intro u v hu hv h
    simpa [Mem.register, hne u hu, hne v hv] using h
  · intro note hnote u
    have hle := hs.waits note hnote u
    by_cases hut : u = t
    · subst hut
      simp only [Mem.register, Function.update_self]
      omega
    · simpa [Mem.register, hut] using hle
  · intro n note hnote u hu
    have hn := (List.getElem?_eq_some_iff.mp hnote).1
    have hn' : n < s.mem.notes.length := hn
    by_cases hut : u = t
    · -- The thread registered after the increment, and its wait is a new one.
      subst hut
      have hle := hs.waits note (List.mem_of_getElem? hnote) u
      simp only [Mem.register, Function.update_self]
      constructor
      · intro h
        omega
      · rintro ⟨-, h⟩
        omega
    · have hu' : u ∈ s.mem.waiting := by simpa [Mem.register, hut] using hu
      simpa [Mem.register, hut] using hs.old n note hnote u hu'
  · intro n note hnote
    rcases hs.through n note hnote with h | h
    · exact .inl (h.step fun h' => by rw [hpc] at h'; cases h')
    · refine .inr (h.mono fun u _ hu => ⟨hu.1, ?_⟩)
      simpa [Mem.register, hne u hu.1] using hu.2

/-- A waiter goes to sleep. It has seen every increment. -/
theorem Inv.sleep (hs : Inv s) (hfresh : Fresh s) {k : WaitCall}
    (hpc : s.loc t = .wait k s.mem.lo) :
    Inv ⟨{ s.mem with queue := s.mem.queue ++ [t] },
      Function.update s.loc t (.asleep k s.mem.lo)⟩ := by
  have ht := hs.threads t
  rw [hpc] at ht
  have hwaiting : t ∈ s.mem.waiting := ht.waiting.mpr rfl
  have hnq : t ∉ s.mem.queue := fun h => absurd (ht.asleep h) Bool.false_ne_true
  have hsince : s.mem.since t = s.mem.notes.length := by
    have hsw := ht.sw s.mem.lo rfl
    rw [hs.lo] at hsw
    have hlt := hfresh t hwaiting
    have hle := ht.since
    have hmod := congrArg BitVec.toNat hsw
    simp only [BitVec.toNat_ofNat] at hmod
    omega
  constructor
  · exact hs.lo
  · exact hs.hi
  · refine threads_step hs.threads ⟨?_, ht.since, ?_, fun _ => rfl, by simp⟩
      (fun u hu => ⟨Iff.rfl, rfl, fun h => ?_⟩) (List.prefix_refl _)
    · simpa [Registered] using hwaiting
    · exact ht.sw
    · simpa [hu] using h
  · exact List.nodup_append.mpr ⟨hs.nodup, List.nodup_singleton t, by
      rintro u hu v hv rfl
      exact hnq (List.mem_singleton.mp hv ▸ hu)⟩
  · refine List.pairwise_append.mpr ⟨hs.sorted, List.pairwise_singleton _ _, ?_⟩
    intro u hu v hv
    rw [List.mem_singleton.mp hv, hsince]
    exact (hs.threads u).since
  · exact hs.waits
  · exact hs.old
  · intro n note hnote
    rcases hs.through n note hnote with h | h
    · exact .inl (h.step fun h' => by rw [hpc] at h'; cases h')
    · refine .inr (h.mono fun u hu hsl => ⟨?_, hsl.2⟩)
      rcases List.mem_append.mp hsl.1 with hq | hq
      · exact hq
      · -- No note names this wait, as it has seen all increments.
        obtain rfl := List.mem_singleton.mp hq
        have hn : n < s.mem.notes.length := (List.getElem?_eq_some_iff.mp hnote).1
        have := (hs.old n note hnote u hwaiting).mpr ⟨hu, hsl.2.symm⟩
        omega

/-- A waiter leaves the kernel. -/
theorem Inv.awake (hs : Inv s) {requeued : Finset T} (hr : Registered (s.loc t) = true)
    (hr' : Registered pc = true) (hp : pending (s.loc t) = none) (hp' : pending pc = none)
    (hsw : ∀ sw, cancelSw pc = some sw → cancelSw (s.loc t) = some sw) :
    Inv ⟨{ s.mem with queue := s.mem.queue.erase t, requeued := requeued },
      Function.update s.loc t pc⟩ := by
  have ht := hs.threads t
  have hsub : ∀ u, u ∈ s.mem.queue.erase t → u ∈ s.mem.queue := fun u => List.mem_of_mem_erase
  constructor
  · exact hs.lo
  · exact hs.hi
  · refine threads_step hs.threads ⟨?_, ht.since, fun sw h => ht.sw sw (hsw sw h), ?_, ?_⟩
      (fun u hu => ⟨Iff.rfl, rfl, hsub u⟩) (List.prefix_refl _)
    · exact ht.waiting.trans (by rw [hr, hr'])
    · exact fun h => absurd h (hs.nodup.not_mem_erase)
    · rintro n rfl
      cases hp'
  · exact hs.nodup.erase t
  · exact hs.sorted.sublist List.erase_sublist
  · exact hs.waits
  · exact hs.old
  · intro n note hnote
    rcases hs.through n note hnote with h | h
    · exact .inl (h.step fun h' => by rw [hp] at h'; cases h')
    · exact .inr (h.mono fun u _ hsl => ⟨hsub u hsl.1, hsl.2⟩)

/-- The entries of a list with one more at its end. -/
theorem getElem?_concat {α : Type u} {l : List α} {a b : α} {n : ℕ}
    (h : (l ++ [b])[n]? = some a) : l[n]? = some a ∨ n = l.length ∧ a = b := by
  rcases Nat.lt_trichotomy n l.length with hlt | rfl | hgt
  · exact .inl (by rwa [List.getElem?_append_left hlt] at h)
  · exact .inr ⟨rfl, by simpa using h.symm⟩
  · rw [List.getElem?_eq_none (by simp; omega)] at h
    cases h

/-- A waiter is no longer registered, whether it was uncounted or not. -/
theorem Inv.leave (hs : Inv s) {hi : BitVec 32} {leaked : ℕ}
    (hhi : hi = BitVec.ofNat 32 ((s.mem.waiting.erase t).card + leaked))
    (ha : Asleep (s.loc t) = false) (hp : pending (s.loc t) = none)
    (hr' : Registered pc = false) (hp' : pending pc = none) (hsw : cancelSw pc = none) :
    Inv ⟨{ s.mem with hi := hi, waiting := s.mem.waiting.erase t, leaked := leaked },
      Function.update s.loc t pc⟩ := by
  have ht := hs.threads t
  constructor
  · exact hs.lo
  · exact hhi
  · refine threads_step hs.threads ⟨?_, ht.since, ?_, ?_, ?_⟩
      (fun u hu => ⟨by simp [hu], rfl, id⟩) (List.prefix_refl _)
    · simp [hr']
    · simp [hsw]
    · exact fun h => absurd (ht.asleep h) (by simp [ha])
    · rintro n rfl
      cases hp'
  · exact hs.nodup
  · exact hs.sorted
  · exact hs.waits
  · exact fun n note hnote u hu => hs.old n note hnote u (Finset.mem_of_mem_erase hu)
  · intro n note hnote
    rcases hs.through n note hnote with h | h
    · exact .inl (h.step fun h' => by rw [hp] at h'; cases h')
    · exact .inr (h.mono fun u _ hsl => hsl)

/-- A signal or a broadcast increments the sequence. When it finds no waiter, there is
none. -/
theorem Inv.note (hs : Inv s) (hsmall : s.mem.waiting.card + s.mem.leaked < 2 ^ 32)
    {bcast : Bool} (hr : Registered (s.loc t) = false) (hp : pending (s.loc t) = none)
    (hr' : Registered pc = false)
    (hp' : s.mem.hi = 0 ∧ pending pc = none ∨ pending pc = some s.mem.notes.length)
    (hsw : cancelSw pc = none)
    (hsig : ∀ n, pc = .sigWake n → n = s.mem.notes.length ∧ bcast = false) :
    Inv ⟨{ s.mem.note bcast with lo := s.mem.lo + 1 }, Function.update s.loc t pc⟩ := by
  have ht := hs.threads t
  constructor
  · refine word_step hs.lo (.inr (.inl ⟨rfl, ?_⟩))
    simp [Mem.note]
  · exact hs.hi
  · refine threads_step hs.threads ⟨?_, ?_, ?_, ?_, ?_⟩ (fun u hu => ⟨Iff.rfl, rfl, id⟩)
      (List.prefix_append _ _)
    · exact ht.waiting.trans (by rw [hr, hr'])
    · exact ht.since.trans (by simp [Mem.note])
    · simp [hsw]
    · intro h
      have hreg := registered_of_asleep (ht.asleep h)
      rw [hr] at hreg
      cases hreg
    · intro n hn
      obtain ⟨rfl, rfl⟩ := hsig n hn
      exact ⟨_, List.getElem?_concat_length, rfl⟩
  · exact hs.nodup
  · exact hs.sorted
  · intro note hnote u
    rcases List.mem_append.mp hnote with h | h
    · exact hs.waits note h u
    · rw [List.mem_singleton.mp h]
      exact le_rfl
  · intro n note hnote u hu
    rcases getElem?_concat hnote with h | ⟨rfl, rfl⟩
    · exact hs.old n note h u hu
    · exact ⟨fun _ => ⟨hu, rfl⟩, fun _ => (hs.threads u).since⟩
  · intro n note hnote
    rcases getElem?_concat hnote with h | ⟨rfl, rfl⟩
    · rcases hs.through n note h with h' | h'
      · exact .inl (h'.step fun h'' => by rw [hp] at h''; cases h'')
      · exact .inr (h'.mono fun u _ hsl => hsl)
    · rcases hp' with ⟨h0, -⟩ | hpend
      · -- The word was 0, so nobody was registered.
        right
        have hcard : s.mem.waiting = ∅ := by
          have h := hs.hi
          rw [h0] at h
          have := (ofNat_eq_iff (k := 0) hsmall (by decide)).mp h.symm
          exact Finset.card_eq_zero.mp (by omega)
        unfold Note.Through
        simp [hcard]
      · exact .inl ⟨t, by simpa using hpend⟩

/-- A signal wakes the first in the queue. -/
theorem Inv.wakeOne (hs : Inv s) {n : ℕ} (hpc : s.loc t = .sigWake n) {r : Ret} :
    Inv ⟨{ s.mem with queue := s.mem.queue.tail }, Function.update s.loc t (.ret r)⟩ := by
  have ht := hs.threads t
  rw [hpc] at ht
  constructor
  · exact hs.lo
  · exact hs.hi
  · refine threads_step hs.threads ⟨ht.waiting, ht.since, by simp [cancelSw], ?_, by simp⟩
      (fun u hu => ⟨Iff.rfl, rfl, List.mem_of_mem_tail⟩) (List.prefix_refl _)
    exact fun h => ht.asleep (List.mem_of_mem_tail h)
  · exact hs.nodup.sublist (List.tail_sublist _)
  · exact hs.sorted.sublist (List.tail_sublist _)
  · exact hs.waits
  · exact hs.old
  · intro n' note hnote
    by_cases hn : n' = n
    · subst hn
      obtain ⟨note', hnote', hb⟩ := ht.sig n' rfl
      obtain rfl : note' = note := by simpa [hnote] using hnote'.symm
      exact .inr (hs.through_tail hnote hb)
    · rcases hs.through n' note hnote with h | h
      · exact .inl (h.step fun h' => by
          rw [hpc] at h'
          exact absurd (Option.some.inj h').symm hn)
      · exact .inr (h.mono fun u _ hsl => ⟨List.mem_of_mem_tail hsl.1, hsl.2⟩)

/-- All waiters leave the queue. -/
theorem Inv.wakeAll (hs : Inv s) {requeued : Finset T} (hr : Registered (s.loc t) = false)
    (hr' : Registered pc = false) (hp' : pending pc = none) (hsw : cancelSw pc = none) :
    Inv ⟨{ s.mem with queue := [], requeued := requeued }, Function.update s.loc t pc⟩ := by
  have ht := hs.threads t
  constructor
  · exact hs.lo
  · exact hs.hi
  · refine threads_step hs.threads ⟨ht.waiting.trans (by rw [hr, hr']), ht.since, by simp [hsw],
      fun h => absurd h List.not_mem_nil, ?_⟩
      (fun u hu => ⟨Iff.rfl, rfl, fun h => absurd h List.not_mem_nil⟩) (List.prefix_refl _)
    rintro n rfl
    cases hp'
  · exact List.nodup_nil
  · exact List.Pairwise.nil
  · exact hs.waits
  · exact hs.old
  · exact fun n note _ => .inr (Note.through_of_nil rfl)

/-! ### Runs -/

variable [Fintype T]

omit [DecidableEq T] in
/-- There are fewer than `2 ^ 32` threads. -/
theorem Descriptors.card_lt (D : Descriptors T) : Fintype.card T < 2 ^ 32 := by
  have h := Fintype.card_lt_of_injective_of_notMem (fun t => (D.ptr t).toFin)
    (fun t u h => D.inj t u (BitVec.toFin_inj.mp h)) (b := 0)
    (by
      rintro ⟨t, ht⟩
      exact D.ne_null t (BitVec.toFin_inj.mp ht))
  simpa using h

/-- One step keeps the invariant, and keeps the waits that left without being uncounted
few. -/
theorem Inv.step (hs : Inv s) (hleaked : s.mem.leaked + Fintype.card T < 2 ^ 32)
    (hfresh : Fresh s) (hfew : Few s (t, c))
    (h : exec pshared t c s.mem (s.loc t) = some (m, pc)) :
    Inv ⟨m, Function.update s.loc t pc⟩ ∧ m.leaked + Fintype.card T < 2 ^ 32 := by
  have ht := hs.threads t
  have hcard : s.mem.waiting.card ≤ Fintype.card T := Finset.card_le_univ _
  cases exec_effect h with
  | quiet hr ha hp hsw hsig => exact ⟨hs.quiet hr ha hp hsw hsig, hleaked⟩
  | register hpc => exact ⟨hs.register hpc, hleaked⟩
  | sleep hpc => exact ⟨hs.sleep hfresh hpc, hleaked⟩
  | awake hr hr' ha hp hp' hsw => exact ⟨hs.awake hr hr' hp hp' hsw, hleaked⟩
  | leak hpc =>
      have hreg : Registered (s.loc t) = true := by
        revert hpc
        cases s.loc t <;> simp [Leaks, Registered]
      have hnone : Asleep (s.loc t) = false ∧ pending (s.loc t) = none := by
        revert hpc
        cases s.loc t <;> simp [Leaks, Asleep, pending]
      have hin := ht.waiting.mpr hreg
      refine ⟨hs.leave ?_ hnone.1 hnone.2 rfl rfl rfl, ?_⟩
      · refine word_step hs.hi (.inl ⟨rfl, ?_⟩)
        have := Finset.card_erase_add_one hin
        omega
      · have := hfew hpc
        omega
  | uncount hr ha hp hr' hp' hsw =>
      refine ⟨hs.leave ?_ ha hp hr' hp' hsw, hleaked⟩
      refine word_step hs.hi (.inr (.inr ⟨rfl, ?_⟩))
      have := Finset.card_erase_add_one (ht.waiting.mpr hr)
      omega
  | note hr hp hr' hp' hsw hsig =>
      exact ⟨hs.note (by omega) hr hp hr' hp' hsw hsig, hleaked⟩
  | wakeOne hpc => exact ⟨hs.wakeOne hpc, hleaked⟩
  | wakeAll hr hr' hp' hsw => exact ⟨hs.wakeAll hr hr' hp' hsw, hleaked⟩

/-- The invariant holds at the end of every run. -/
theorem inv_of_reach (D : Descriptors T)
    (h : (machine pshared).ReachVia (fun s a => Fresh s ∧ Few s a) s) : Inv s := by
  refine (Exec.invariant (P := fun s => Inv s ∧ s.mem.leaked + Fintype.card T < 2 ^ 32)
    (fun s hs => ?_) (fun s t c m p hp ha he => hp.1.step hp.2 ha.1 ha.2 he) h).1
  obtain ⟨hm, hl⟩ := hs
  refine ⟨?_, by simpa [hm] using D.card_lt⟩
  constructor <;> simp [hm]
  intro t
  constructor <;> simp [hl, Registered, cancelSw]

/-- No signal is lost. Every increment of the sequence leaves a note with the threads that
are registered then and the number of the wait of each. As soon as the wake of the
increment has been issued, or was left out as there was no waiter: after a signal, one of
these waits sleeps no longer, if there is one; after a broadcast, none does. So it is in
every state that is reached with fewer than `2 ^ 32` increments in one wait and, if
waits are interrupted, with fewer of these and of threads together. -/
theorem cond_no_signal_lost (D : Descriptors T)
    (h : (machine pshared).ReachVia (fun s a => Fresh s ∧ Few s a) s) :
    (∀ t, t ∈ s.mem.waiting ↔ Registered (s.loc t) = true) ∧
    ∀ n note, s.mem.notes[n]? = some note → ¬ Pending s n →
      (note.bcast = false → note.waiting.Nonempty →
        ∃ t ∈ note.waiting, ¬ SleepsIn s.mem t (note.waits t)) ∧
      (note.bcast = true → ∀ t ∈ note.waiting, ¬ SleepsIn s.mem t (note.waits t)) := by
  have hs := inv_of_reach D h
  refine ⟨fun t => (hs.threads t).waiting, ?_⟩
  intro n note hnote hp
  have hthrough := (hs.through n note hnote).resolve_left hp
  unfold Note.Through at hthrough
  constructor
  · intro hb
    rwa [if_neg (by simp [hb])] at hthrough
  · intro hb
    rwa [if_pos hb] at hthrough

/-- The descriptors of three threads. -/
def Descriptors.three : Descriptors (Fin 3) where
  ptr t := BitVec.ofNat 32 (t + 1)
  inj := ids_inj_three
  ne_null := ids_ne_three

/-- The thread 0 sleeps when the thread 2 signals, and the thread 1 goes to sleep before
the wake. The wake takes the thread 0. -/
theorem cond_no_signal_lost_three : ∃ s : Global (Fin 3) (Mem (Fin 3)) Pc,
    (machine false).ReachVia (fun s a => Fresh s ∧ Few s a) s ∧
    SleepsIn s.mem 1 1 ∧
    ∃ note, s.mem.notes[0]? = some note ∧ note.waiting = {0} ∧
      ∃ t ∈ note.waiting, ¬ SleepsIn s.mem t (note.waits t) := by
  obtain ⟨s, hs, hp⟩ := (machine (T := Fin 3) false).exists_reachVia
    (fun s a => Fresh s ∧ Few s a)
    (s := ⟨⟨0, 0, false, [], ∅, ∅, fun _ => 0, fun _ => 0, 0, []⟩, fun _ => .idle⟩)
    ⟨rfl, fun _ => rfl⟩
    [(0, { call := .wait .wait }), (0, {}), (0, {}), (0, {}), (0, {}), (0, {}), (0, {}), (0, {}),
      (2, { call := .signal }), (2, {}), (2, {}),
      (1, { call := .wait .wait }), (1, {}), (1, {}), (1, {}), (1, {}), (1, {}), (1, {}),
      (2, {})]
    (fun s => SleepsIn s.mem 1 1 ∧
      (s.mem.notes[0]?.any fun note => note.waiting = {0} ∧ note.bcast = false) ∧
      ∀ t, pending (s.loc t) = none) (by decide)
  obtain ⟨hsleep, hany, hnone⟩ := hp
  obtain ⟨note, hnote, hw⟩ := (Option.any_eq_true ..).mp hany
  obtain ⟨hwaiting, hb⟩ := of_decide_eq_true hw
  refine ⟨s, hs, hsleep, note, hnote, hwaiting, ?_⟩
  have hthrough := (cond_no_signal_lost Descriptors.three hs).2 0 note hnote
    fun ⟨t, ht⟩ => by simp [hnone t] at ht
  exact hthrough.1 hb (hwaiting ▸ Finset.singleton_nonempty 0)

end Hlpt.Cond
