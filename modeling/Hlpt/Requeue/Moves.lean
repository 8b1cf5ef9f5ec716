import Hlpt.Requeue.Chain
import Hlpt.Requeue.Steps

/-!
# `Hlpt.Requeue.Moves`: what a step does

Each step is an access to the lock word, a wait that goes to sleep or leaves the kernel, a
requeue, the mark of `__pthread_mutex_cond_lock`, a look at `stp->cancel`, or a `Plain` step
that leaves the lock word and its sleepers alone. `move_of_exec` says so; the proofs about
runs go by cases on `Move`.
-/

set_option autoImplicit false

namespace Hlpt.Requeue

open Hlpt.Lib

universe u

variable {T : Type u} {m m' : Mem T} {t : T} {pc : Pc T} {l l' : Local T} [DecidableEq T]

/-- A thread that the kernel let go is not asleep. -/
theorem Mem.out_out (m : Mem T) (t : T) : Out (m.out t) t :=
  ⟨Finset.notMem_erase t _, Finset.notMem_erase t _⟩

/-- What a step does. -/
inductive Move (t : T) (c : Choice T) (m : Mem T) (l : Local T) : Mem T → Local T → Prop
  | word {m' : Mem T} {l' : Local T} {p : LowLevelLock.Pc} {next : LowLevelLock.Pc → Pc T}
      (hin : Inside l.pc p next) (h : onWord t c m l p next = some (m', l')) : Move t c m l m' l'
  | wait {k : WaitCall} {sw : BitVec 32} (hpc : l.pc = .wait k sw) :
      Move t c m l { m with queue := insert t m.queue } { l with pc := .asleep k sw }
  | out {pc : Pc T} (hlower : pc.lower ≠ .unlockSwap) (hent : Entitled ⟨pc, l.holds⟩)
      (hob : Obliged (m.out t) t pc) : Move t c m l (m.out t) { l with pc := pc }
  | requeue {m' : Mem T} (hpc : l.pc = .bcRequeue) (h : m.requeue c.pick = some m') :
      Move t c m l m' { l with pc := .ret (.code .ok) }
  | mark {r : Option Cond.Ret} {pc : Pc T} (hpc : l.pc = .mark r) (hlower : pc.lower ≠ .unlockSwap)
      (hent : Entitled ⟨pc, l.holds⟩) :
      Move t c m l { m with lock := { m.lock with word := 2 } } { l with pc := pc }
  | testCancel {k : WaitCall} (hpc : l.pc = .testCancel k) :
      Move t c m l { m with cancel := Function.update m.cancel t false }
        { l with pc := .leave k (m.cancel t) }
  | plain {m' : Mem T} {l' : Local T} (h : Plain t m m' l l') : Move t c m l m' l'

omit [DecidableEq T] in
/-- A call does not start inside the lock without the right to. -/
theorem enter_spec {call : Call T} (h : enter l call = some pc) :
    (pc.lower = .unlockSwap → l.holds = true) ∧ Entitled ⟨pc, l.holds⟩ := by
  cases call with
  | unlock =>
      obtain ⟨hl, hp⟩ := Option.ite_none_right_eq_some.mp h
      cases hp
      exact ⟨fun _ => hl, trivial⟩
  | wait k =>
      obtain ⟨hl, hk⟩ := Option.ite_none_right_eq_some.mp h
      refine ⟨fun _ => hl, ?_⟩
      split at hk
      · cases hk
        trivial
      · split at hk <;> obtain rfl := Option.some.inj hk <;> exact hl
  | _ =>
      cases h
      exact ⟨nofun, trivial⟩

/-- A thread that went on in its wait: it does not start an unlock, and it is obliged. -/
structure Resumed (m : Mem T) (t : T) (pc : Pc T) : Prop where
  lower : pc.lower ≠ .unlockSwap
  entitled : ∀ b, Entitled ⟨pc, b⟩
  obliged : Out m t → Obliged m t pc

namespace WaitCall

variable {k : WaitCall} {sw : BitVec 32} {ret : KernReturn}

omit [DecidableEq T] in
/-- A wait that has registered. -/
theorem registered_spec (sw : BitVec 32) : (k.registered sw : Pc T).lower ≠ .unlockSwap ∧
    ∀ b, Entitled (⟨k.registered sw, b⟩ : Local T) := by
  rw [registered]
  split <;> exact ⟨nofun, fun _ => trivial⟩

omit [DecidableEq T] in
/-- A wait before it blocks. -/
theorem block_spec (sw : BitVec 32) : (k.block sw : Pc T).lower ≠ .unlockSwap ∧
    ∀ b, Entitled (⟨k.block sw, b⟩ : Local T) := by
  rw [block]
  split <;> exact ⟨nofun, fun _ => trivial⟩

omit [DecidableEq T] in
/-- A wait that is no longer counted. -/
theorem resumed_uncounted : Resumed m t (k.uncounted ret) := by
  by_cases hk : k.hurd
  · have hpc : k.uncounted ret = (.spinRelock k : Pc T) := if_pos hk
    rw [hpc]
    exact ⟨nofun, fun _ => trivial, fun _ => trivial⟩
  · obtain ⟨r, hpc⟩ : ∃ r, k.uncounted ret = (.relock r (.lockTest none) : Pc T) :=
      ⟨_, if_neg hk⟩
    rw [hpc]
    exact ⟨nofun, fun _ => .test, fun ht => ht.2⟩

omit [DecidableEq T] in
/-- A wait with the code of the kernel. -/
theorem resumed_ended : Resumed m t (k.ended ret) := by
  by_cases hret : ret = .interrupted
  · rw [ended, if_pos hret]
    exact resumed_uncounted
  · rw [ended, if_neg hret]
    exact ⟨nofun, fun _ => trivial, fun _ => trivial⟩

omit [DecidableEq T] in
/-- A wait that the kernel has ended. -/
theorem resumed_awake : Resumed m t (k.awake sw ret) := by
  by_cases hk : k.hurd
  · rw [awake, if_pos hk]
    exact resumed_ended
  · rw [awake, if_neg hk]
    exact ⟨nofun, fun _ => trivial, fun _ => trivial⟩

end WaitCall

omit [DecidableEq T] in
/-- A step to a control point where a wait goes on. -/
theorem Resumed.plain (h : Resumed m' t pc) (hlock : m'.lock = m.lock) (hqueue : m'.queue = m.queue)
    (hl : ¬ OnWord l.pc) : Plain t m m' l { l with pc := pc } where
  lock := hlock
  queue := hqueue.subset
  holds := rfl
  awake := hl
  unlocking _ hpc := absurd hpc h.lower
  entitled _ := h.entitled _
  obliged ht _ := h.obliged (by rwa [Out, hlock, hqueue])

omit [DecidableEq T] in
/-- A step that changes nothing leaves the lock alone. -/
theorem Reads.plain {pc' : Pc T} {b : Bool} (h : Reads m pc pc') :
    Plain t m m ⟨pc, b⟩ ⟨pc', b⟩ := by
  cases h with
  | checkMutex =>
    exact ⟨rfl, subset_rfl, rfl, id, fun h _ => h, fun _ => trivial, fun _ h => h.elim⟩
  | cancelpointBegin =>
    obtain ⟨hlower, hent⟩ := WaitCall.block_spec (T := T) _
    exact ⟨rfl, subset_rfl, rfl, id, fun _ hpc => absurd hpc hlower, fun _ => hent b,
      fun _ h => h.elim⟩
  | past | changed => exact WaitCall.resumed_awake.plain rfl rfl id
  | cancelpointEnd => exact WaitCall.resumed_ended.plain rfl rfl id
  | cleanLoad | cleanAgain => exact ⟨rfl, subset_rfl, rfl, id, nofun, id, fun _ => id⟩
  | _ => exact ⟨rfl, subset_rfl, rfl, id, nofun, id, fun _ h => h.elim⟩

/-- A step is one of these moves. -/
theorem move_of_exec {c : Choice T} (h : exec t c m l = some (m', l')) : Move t c m l m' l' := by
  cases step_of_exec h with
  | call hcall =>
    obtain ⟨hlower, hent⟩ := enter_spec hcall
    exact .plain ⟨rfl, subset_rfl, rfl, id, fun _ => hlower, fun _ => hent, fun _ h => h.elim⟩
  | read hr => exact .plain hr.plain
  | @mutex p _ _ _ hword => exact .word (.mutex p) hword
  | @unlock k p _ _ _ hword => exact .word (.unlock k p) hword
  | @relock r p _ _ _ hword => exact .word (.relock r p) hword
  | pending =>
    exact .plain ⟨rfl, subset_rfl, rfl, id, nofun, fun _ => trivial, fun _ h => h.elim⟩
  | storeMutex =>
    exact .plain ⟨rfl, subset_rfl, rfl, id, fun h _ => h, fun _ => trivial, fun _ h => h.elim⟩
  | @regCas k b =>
    obtain ⟨hlower, hent⟩ := k.registered_spec (T := T) m.lo
    exact .plain ⟨rfl, subset_rfl, rfl, id, fun _ hpc => absurd hpc hlower, fun _ => hent b,
      fun _ h => h.elim⟩
  | @spinUnlock k sw b =>
    obtain ⟨hlower, hent⟩ := k.block_spec (T := T) sw
    exact .plain ⟨rfl, subset_rfl, rfl, id, fun _ hpc => absurd hpc hlower, fun _ => hent b,
      fun _ h => h.elim⟩
  | wait => exact .wait rfl
  | @awake k sw ret b =>
    have hres : Resumed (m.out t) t (k.awake sw ret) := WaitCall.resumed_awake
    exact .out hres.lower (hres.entitled _) (hres.obliged (m.out_out t))
  | uncount => exact .plain (WaitCall.resumed_uncounted.plain rfl rfl id)
  | spinRelock | clearHook | cleanCas =>
    exact .plain ⟨rfl, subset_rfl, rfl, id, nofun, id, fun _ => id⟩
  | testCancel => exact .testCancel rfl
  | leaveCancelled => exact .plain ⟨rfl, subset_rfl, rfl, id, nofun, id, nofun⟩
  | leave | cleanSame =>
    exact .plain ⟨rfl, subset_rfl, rfl, id, nofun, fun _ => .test, fun ht _ => ht.2⟩
  | markClean => exact .mark rfl nofun trivial
  | mark => exact .mark rfl nofun trivial
  -- A cancellation takes the thread out of the queues.
  | cancelled => exact .out nofun trivial trivial
  | cleanWake =>
    exact .plain ⟨rfl, Finset.empty_subset _, rfl, id, nofun, fun _ => .test, fun ht _ => ht.2⟩
  | sigWake hwake =>
    exact .plain ⟨rfl, wakeOne_subset hwake, rfl, id, nofun, id, fun _ h => h.elim⟩
  | bcRequeue hreq => exact .requeue rfl hreq
  | bcWake | hookWake =>
    exact .plain ⟨rfl, Finset.empty_subset _, rfl, id, nofun, id, fun _ h => h.elim⟩
  | _ => exact .plain ⟨rfl, subset_rfl, rfl, id, nofun, id, fun _ h => h.elim⟩

/-- A broadcast that requeues cannot be cancelled. -/
theorem requeue_of_exec {c : Choice T} (h : exec t c m l = some (m', l'))
    (hpc : l.pc = .bcRequeue) :
    m.requeue c.pick = some m' ∧ l'.pc = .ret (.code .ok) := by
  rcases l with ⟨pc, b⟩
  obtain rfl : pc = .bcRequeue := hpc
  cases step_of_exec h with
  | read hr => cases hr
  | cancelled hsw => cases hsw
  | bcRequeue hreq => exact ⟨hreq, rfl⟩

/-- Neither can one that wakes all waiters. -/
theorem wakeAll_of_exec {c : Choice T} (h : exec t c m l = some (m', l')) (hpc : l.pc = .bcWake) :
    m' = { m with queue := ∅ } := by
  rcases l with ⟨pc, b⟩
  obtain rfl : pc = .bcWake := hpc
  cases step_of_exec h with
  | read hr => cases hr
  | cancelled hsw => cases hsw
  | bcWake => rfl

/-- A broadcast that returns after its increment found no waiter in the word. -/
theorem hi_eq_zero_of_exec {c : Choice T} {lo hi : BitVec 32} (h : exec t c m l = some (m', l'))
    (hpc : l.pc = .bcCas lo hi) (hret : l'.pc = .ret (.code .ok)) : m.hi = 0 := by
  rcases l with ⟨pc, b⟩
  obtain rfl : pc = .bcCas lo hi := hpc
  cases step_of_exec h with
  | read hr =>
    cases hr
    cases hret
  | cancelled hsw => cases hsw
  | bcCas => cases hret
  | bcNobody hhi => exact hhi

end Hlpt.Requeue
