import Hlpt.Lib.Bits
import Hlpt.Lib.Counter
import Hlpt.Robust.Steps

/-!
# `Hlpt.Robust.Exclusion`: one live holder of a robust mutex

The lock word decides who has the mutex: of the threads of live processes only the taker
of the word gets to the accesses to the other fields, and a word with the id of a live
process is not stolen. `Inv` ties the fields to the taker.

A lock call decides whether the mutex is its own before it comes to the word. It reads the
id of the owner first and the process id in the word later, and the two may come from
different owners. For a recursive mutex this mistake is a hold. It needs a thread of
another process with the same id, and a second thread of the own process
(`Distinguished`).

* `robust_exclusion`: exclusion in every reachable state, exactly when there are no such
  threads.
* `robust_two_holders`: three such threads.
-/

set_option autoImplicit false

namespace Hlpt.Robust

open Hlpt.Lib

universe u

variable {T : Type u}

/-- Among the threads of live processes, at most one holds the mutex. -/
def Exclusive (E : Env T) (s : Global T (Mem T) Local) : Prop :=
  ∀ t u, s.mem.dead (E.pid t) = false → s.mem.dead (E.pid u) = false →
    0 < (s.loc t).depth → 0 < (s.loc u).depth → t = u

/-- No thread of a recursive mutex can mistake the holder for itself: a thread that shares
its id with a thread of another process is alone in its own process. -/
def Distinguished (E : Env T) : Prop :=
  E.kind = .recursive → ∀ a b c, E.pid a ≠ E.pid b → E.id a = E.id b →
    E.pid c = E.pid b → c = b

/-- Where the process id in the word decides that a recursive mutex is the thread's own, it
is. -/
def Sure (E : Env T) (t : T) (m : Mem T) (l : Local) : Prop :=
  match l.pc with
  | .checkPid _ =>
      E.kind = .recursive → m.lock &&& LLL_OWNER_MASK = E.pid t → m.taker = some t
  | _ => True

/-! ### The invariant -/

/-- What a thread outside of the critical accesses has: with a hold, the three fields
say so; without one, the lock word is not its own, or the mutex is not recoverable. -/
def Rest (E : Env T) (t : T) (m : Mem T) (depth : ℕ) : Prop :=
  (0 < depth → m.taker = some t ∧ m.ownerId = E.id t ∧ m.cnt.toNat = depth) ∧
  (depth = 0 → m.taker = some t → m.ownerId = NOTRECOVERABLE_ID)

/-- What the control point of a thread of a live process says. -/
def PcOk (E : Env T) (t : T) (m : Mem T) (l : Local) : Prop :=
  match l.pc with
  | .idle | .checkUnrecoverable _ | .checkOwner _ | .spinLoad _ | .spinCas _ | .waitLoad _
  | .waitCas _ | .waitSleep .. | .asleep _ | .tryLoad | .tryCas => Rest E t m l.depth
  | .checkPid _ => Rest E t m l.depth ∧
      (0 < l.depth ∨ m.taker ≠ some t ∧ ∃ a, a ≠ t ∧ E.id a = E.id t)
  | .spinMark _ val | .waitValid _ val | .tryValid val => Rest E t m l.depth ∧ val ≠ 0
  | .waitSteal _ val | .trySteal val => Rest E t m l.depth ∧ val ≠ 0 ∧
      m.dead (val &&& LLL_OWNER_MASK) = true
  | .relockTest => Rest E t m l.depth ∧ 0 < l.depth
  | .relockLoad => Rest E t m l.depth ∧ 0 < l.depth ∧ m.cnt + 1 ≠ 0
  | .relockStore v => Rest E t m l.depth ∧ 0 < l.depth ∧ m.cnt + 1 ≠ 0 ∧ v = m.cnt
  | .lockRet r =>
      if r = .ok ∨ r = .eownerdead then
        m.taker = some t ∧ m.ownerId = E.id t ∧ m.cnt.toNat = l.depth + 1
      else Rest E t m l.depth
  | .taken _ | .setOwner _ => m.taker = some t ∧ l.depth = 0
  | .setCnt _ => m.taker = some t ∧ l.depth = 0 ∧ m.ownerId = E.id t
  | .deadLoad => m.taker = some t ∧ l.depth = 0 ∧ m.ownerId = E.id t ∧ m.cnt = 1
  | .deadStore v => m.taker = some t ∧ l.depth = 0 ∧ m.ownerId = E.id t ∧ m.cnt = 1 ∧
      v &&& LLL_OWNER_MASK = E.pid t
  | .unUnrecoverable | .unOwner | .unPid | .unLoad =>
      m.taker = some t ∧ m.ownerId = E.id t ∧ m.cnt.toNat = l.depth + 1
  | .unStore v => m.taker = some t ∧ m.ownerId = E.id t ∧ m.cnt.toNat = l.depth + 1 ∧
      v = m.cnt
  | .unDead => m.taker = some t ∧ l.depth = 0
  | .unSetOwner v => m.taker = some t ∧ l.depth = 0 ∧ (v = 0 ∨ v = NOTRECOVERABLE_ID)
  | .unWord | .unSetWake | .unCas _ => m.taker = some t ∧ l.depth = 0 ∧
      (m.ownerId = 0 ∨ m.ownerId = NOTRECOVERABLE_ID)
  | .unRet r => r = .ok ∧ Rest E t m l.depth

/-- The fields and the threads agree. -/
structure Inv (E : Env T) (s : Global T (Mem T) Local) : Prop where
  free : s.mem.taker = none ↔ s.mem.lock = 0
  word : ∀ t, s.mem.taker = some t → s.mem.lock &&& LLL_OWNER_MASK = E.pid t
  owner : ∀ t, s.mem.dead (E.pid t) = false → s.mem.ownerId = E.id t →
    s.mem.taker = some t ∨ ∃ a, a ≠ t ∧ E.id a = E.id t
  pc : ∀ t, s.mem.dead (E.pid t) = false → PcOk E t s.mem (s.loc t)

variable {E : Env T} {t : T} {c : Choice} {m m' : Mem T} {l l' : Local}

/-! ### The words -/

/-- An id is not the one of a mutex that is not recoverable. -/
theorem Env.id_ne_notrecoverable (E : Env T) (t : T) : E.id t ≠ NOTRECOVERABLE_ID := by
  intro h
  have hm := E.id_masked t
  rw [h] at hm
  exact absurd hm (by decide)

/-- A lock word with a process id is not 0. -/
theorem Env.ne_zero_of_masked (E : Env T) {v : BitVec 32} {t : T}
    (h : v &&& LLL_OWNER_MASK = E.pid t) : v ≠ 0 := by
  rintro rfl
  exact E.pid_ne t (h.symm.trans BitVec.zero_and)

variable [DecidableEq T]

/-! ### What one access does -/

/-- What an access of a thread of a live process does to the word and to the taker. -/
inductive TakeStep (E : Env T) (t : T) (m m' : Mem T) : Prop
  | keep (ht : m'.taker = m.taker) (ho : m'.ownerId = m.ownerId) (hc : m'.cnt = m.cnt)
      (hl : m'.lock = m.lock ∨ (m.lock ≠ 0 ∧ m'.lock = m.lock ||| LLL_WAITERS))
  | take (hm : m.lock = 0 ∨ m.lock ≠ 0 ∧ m.dead (m.lock &&& LLL_OWNER_MASK) = true)
      (ht : m'.taker = some t) (ho : m'.ownerId = m.ownerId)
      (hl : m'.lock = E.pid t ∨ m'.lock = E.pid t ||| LLL_WAITERS)
  | own (hm : m.taker = some t) (ht : m'.taker = some t)
      (ho : m'.ownerId = m.ownerId ∨ m'.ownerId = E.id t ∨ m'.ownerId = 0 ∨
        m'.ownerId = NOTRECOVERABLE_ID)
      (hl : m'.lock = m.lock ∨ m'.lock &&& LLL_OWNER_MASK = E.pid t)
  | release (hm : m.taker = some t) (ht : m'.taker = none) (hl : m'.lock = 0)
      (ho : m'.ownerId = 0 ∨ m'.ownerId = NOTRECOVERABLE_ID)

omit [DecidableEq T] in
/-- Every access is one of these. -/
theorem act_take (h : act E t c m l = some (m', l')) (hpc : PcOk E t m l) :
    TakeStep E t m m' ∧ m'.dead = m.dead := by
  cases step_of_act h with
  | spinTake hm | waitTake hm | tryTake hm => exact ⟨.take (.inl hm) rfl rfl (by simp), rfl⟩
  | spinMark => exact ⟨.keep rfl rfl rfl (.inr ⟨hpc.2, rfl⟩), rfl⟩
  | waitSteal | trySteal => exact ⟨.take (.inr hpc.2) rfl rfl (by simp), rfl⟩
  | relockStore =>
    obtain ⟨hrest, hd, -, -⟩ := hpc
    exact ⟨.own (hrest.1 hd).1 (hrest.1 hd).1 (.inl rfl) (.inl rfl), rfl⟩
  | setOwner | setCntDead | setCnt | unStoreLast | unStore =>
    exact ⟨.own hpc.1 hpc.1 (by simp) (.inl rfl), rfl⟩
  | deadStore =>
    obtain ⟨htaker, -, -, -, hv⟩ := hpc
    exact ⟨.own htaker htaker (.inl rfl) (.inr hv), rfl⟩
  | unSetOwner =>
    obtain ⟨htaker, -, hv⟩ := hpc
    exact ⟨.own htaker htaker (.inr (.inr hv)) (.inl rfl), rfl⟩
  | unSetWake | unCas => exact ⟨.release hpc.1 rfl rfl hpc.2.2, rfl⟩
  | _ => exact ⟨.keep rfl rfl rfl (.inl rfl), rfl⟩

omit [DecidableEq T] in
/-- A thread that may take the lock word holds nothing. -/
theorem Rest.depth_eq_zero {depth : ℕ} (h : Rest E t m depth)
    (hn : m.taker ≠ some t) : depth = 0 := by
  by_contra hd
  exact hn (h.1 (Nat.pos_of_ne_zero hd)).1

omit [DecidableEq T] in
/-- A thread that has nothing, and does not have the word either. -/
theorem Rest.of_zero (hn : m.taker = some t → m.ownerId = NOTRECOVERABLE_ID) : Rest E t m 0 :=
  ⟨nofun, fun _ ht => hn ht⟩

omit [DecidableEq T] in
/-- What an access that changes nothing makes of the thread that moves. -/
theorem Moves.pcOk {pc pc' : Pc} {depth : ℕ} (hm : Moves E t m pc pc')
    (hpc : PcOk E t m ⟨pc, depth⟩) (hsure : Sure E t m ⟨pc, depth⟩)
    (hword : ∀ u, m.taker = some u → m.lock &&& LLL_OWNER_MASK = E.pid u)
    (howner : m.ownerId = E.id t → m.taker = some t ∨ ∃ a, a ≠ t ∧ E.id a = E.id t) :
    PcOk E t m ⟨pc', depth⟩ := by
  have hid := E.id_ne_notrecoverable t
  cases hm with
  | checkOwner ho =>
    refine ⟨hpc, ?_⟩
    by_cases ht : m.taker = some t
    · -- The id in the mutex is not the special one, so the thread has a hold.
      refine .inl (Nat.pos_of_ne_zero fun hd => ?_)
      exact hid (ho.symm.trans (hpc.2 hd ht))
    · exact .inr ⟨ht, (howner ho).resolve_left ht⟩
  | relock hk hp =>
    obtain ⟨hrest, hd | ⟨hnt, -⟩⟩ := hpc
    · exact ⟨hrest, hd⟩
    · exact absurd (hsure hk hp) hnt
  | relockTest hne => exact ⟨hpc.1, hpc.2, hne⟩
  | relockLoad => exact ⟨hpc.1, hpc.2.1, hpc.2.2, rfl⟩
  | spinHeld h0 | waitHeld h0 | tryHeld h0 => exact ⟨hpc, h0⟩
  | waitDead hdead | tryDead hdead => exact ⟨hpc.1, hpc.2, hdead⟩
  | spinPid | tryPid | deadlk | relockFull | spinAgain | waitLive | stealLost | tryLive
  | tryStealLost => exact hpc.1
  | refused ho =>
    obtain ⟨-, hd⟩ := hpc
    obtain rfl : depth = 0 := hd
    exact Rest.of_zero fun _ => ho
  | deadLoad =>
    obtain ⟨h1, h2, h3, h4⟩ := hpc
    exact ⟨h1, h2, h3, h4, by rw [deadOwner_masked, hword t h1]⟩
  -- The holder finds the fields as it left them, so its unlock is not refused.
  | unRefused ho => exact absurd (hpc.2.1.symm.trans ho) hid
  | unNotOwner ho => exact absurd hpc.2.1 ho
  | unNotPid hp => exact absurd (hword t hpc.1) hp
  | unLoad => exact ⟨hpc.1, hpc.2.1, hpc.2.2, rfl⟩
  | unDead => exact ⟨hpc.1, hpc.2, .inr rfl⟩
  | unClean => exact ⟨hpc.1, hpc.2, .inl rfl⟩
  | _ => exact hpc

omit [DecidableEq T] in
/-- What a step makes of the thread that moves. -/
theorem act_pcOk (h : act E t c m l = some (m', l')) (hpc : PcOk E t m l)
    (hsure : Sure E t m l) (hlive : m.dead (E.pid t) = false)
    (hfree : m.taker = none ↔ m.lock = 0)
    (hword : ∀ u, m.taker = some u → m.lock &&& LLL_OWNER_MASK = E.pid u)
    (howner : m.ownerId = E.id t → m.taker = some t ∨ ∃ a, a ≠ t ∧ E.id a = E.id t) :
    PcOk E t m' l' := by
  cases step_of_act h with
  | move hm => exact hm.pcOk hpc hsure hword howner
  | @unlock depth hd =>
    obtain ⟨h1, h2, h3⟩ := hpc.1 hd
    exact ⟨h1, h2, by rw [h3]; exact (Nat.sub_add_cancel hd).symm⟩
  | relockStore =>
    obtain ⟨hrest, hd, hne, rfl⟩ := hpc
    obtain ⟨h1, h2, h3⟩ := hrest.1 hd
    exact ⟨h1, h2, by rw [toNat_add_one hne, h3]⟩
  | spinTake h0 | waitTake h0 | tryTake h0 =>
    -- The word is free, so the thread has no hold.
    have hnt : m.taker ≠ some t := by
      rw [hfree.mpr h0]
      exact nofun
    exact ⟨rfl, Rest.depth_eq_zero hpc hnt⟩
  | spinMark => exact hpc.1
  | waitSteal | trySteal =>
    -- The process in the word is dead, and the one of the thread is not.
    obtain ⟨hrest, -, hdead⟩ := hpc
    refine ⟨rfl, hrest.depth_eq_zero ?_⟩
    intro ht
    rw [hword t ht, hlive] at hdead
    cases hdead
  | setOwner => exact ⟨hpc.1, hpc.2, rfl⟩
  | setCntDead => exact ⟨hpc.1, hpc.2.1, hpc.2.2, rfl⟩
  | setCnt =>
    obtain ⟨h1, h2, h3⟩ := hpc
    obtain rfl : _ = 0 := h2
    exact ⟨h1, h3, rfl⟩
  | deadStore =>
    obtain ⟨h1, h2, h3, h4, -⟩ := hpc
    obtain rfl : _ = 0 := h2
    exact ⟨h1, h3, congrArg BitVec.toNat h4⟩
  | lockTaken hr =>
    simp only [PcOk, if_pos hr] at hpc
    exact ⟨fun _ => hpc, nofun⟩
  | lockFails hr => simpa only [PcOk, if_neg hr] using hpc
  | unStoreLast h0 =>
    obtain ⟨h1, h2, h3, rfl⟩ := hpc
    have hcnt := toNat_sub_one h3
    rw [h0] at hcnt
    exact ⟨h1, hcnt.symm⟩
  | unStore h0 =>
    obtain ⟨h1, h2, h3, rfl⟩ := hpc
    have hcnt := toNat_sub_one h3
    refine ⟨rfl, fun _ => ⟨h1, h2, hcnt⟩, ?_⟩
    intro hd
    simp only at hd
    exact absurd (BitVec.eq_of_toNat_eq (by rw [hcnt, hd]; rfl)) h0
  | unSetOwner => exact hpc
  | unSetWake | unCas =>
    obtain ⟨-, hd, -⟩ := hpc
    obtain rfl : _ = 0 := hd
    exact ⟨rfl, Rest.of_zero nofun⟩
  | unFails => cases hpc.1
  | unRet => exact hpc.2

/-! ### Whole runs -/

omit [DecidableEq T] in
/-- The words after an access. -/
theorem Inv.words_step {s : Global T (Mem T) Local} (hs : Inv E s)
    (hlive : s.mem.dead (E.pid t) = false) (h : act E t c s.mem (s.loc t) = some (m, l)) :
    (m.taker = none ↔ m.lock = 0) ∧
    (∀ u, m.taker = some u → m.lock &&& LLL_OWNER_MASK = E.pid u) ∧
    ∀ u, m.dead (E.pid u) = false → m.ownerId = E.id u →
      m.taker = some u ∨ ∃ a, a ≠ u ∧ E.id a = E.id u := by
  obtain ⟨htake, hdead⟩ := act_take h (hs.pc t hlive)
  rw [hdead]
  cases htake with
  | keep ht ho hc hl =>
      rw [ht, ho]
      rcases hl with hl | ⟨hne, hl⟩
      · rw [hl]
        exact ⟨hs.free, hs.word, hs.owner⟩
      · rw [hl, waiters_masked]
        refine ⟨?_, hs.word, hs.owner⟩
        exact iff_of_false (fun hn => hne (hs.free.mp hn)) (waiters_ne_zero _)
  | take hm ht ho hl =>
      have hpid : m.lock &&& LLL_OWNER_MASK = E.pid t := by
        rcases hl with hl | hl
        · rw [hl, E.pid_masked]
        · rw [hl, waiters_masked, E.pid_masked]
      rw [ht, ho]
      refine ⟨iff_of_false (Option.some_ne_none t) (E.ne_zero_of_masked hpid), ?_, ?_⟩
      · rintro u hu
        rw [← Option.some.inj hu]
        exact hpid
      · intro u hu hou
        rcases hs.owner u hu hou with hold | ha
        · -- The taker before was none or of a dead process.
          rcases hm with h0 | ⟨-, hd⟩
          · rw [hs.free.mpr h0] at hold
            cases hold
          · rw [hs.word u hold, hu] at hd
            cases hd
        · exact .inr ha
  | own hm ht ho hl =>
      have hpid : m.lock &&& LLL_OWNER_MASK = E.pid t := by
        rcases hl with hl | hl
        · rw [hl, hs.word t hm]
        · exact hl
      rw [ht]
      refine ⟨iff_of_false (Option.some_ne_none t) (E.ne_zero_of_masked hpid), ?_, ?_⟩
      · rintro u hu
        rw [← Option.some.inj hu]
        exact hpid
      · intro u hu hou
        by_cases hut : u = t
        · exact .inl (congrArg some hut.symm)
        · rcases ho with ho | ho | ho | ho
          · rw [ho] at hou
            rw [← hm]
            exact hs.owner u hu hou
          · exact .inr ⟨t, Ne.symm hut, ho.symm.trans hou⟩
          · exact absurd (hou.symm.trans ho) (E.id_ne u)
          · exact absurd (hou.symm.trans ho) (E.id_ne_notrecoverable u)
  | release hm ht hl ho =>
      rw [ht, hl]
      refine ⟨iff_of_true rfl rfl, fun _ hu => (nomatch hu), ?_⟩
      intro u hu hou
      rcases ho with ho | ho
      · exact absurd (hou.symm.trans ho) (E.id_ne u)
      · exact absurd (hou.symm.trans ho) (E.id_ne_notrecoverable u)

omit [DecidableEq T] in
/-- A thread keeps what its control point says, when the fields stay or when it is not
the taker. -/
theorem PcOk.frame {u : T} (hpc : PcOk E u m l)
    (hd : ∀ p, m.dead p = true → m'.dead p = true)
    (h : (m'.taker = m.taker ∧ m'.ownerId = m.ownerId ∧ m'.cnt = m.cnt) ∨
      (m.taker ≠ some u ∧ m'.taker ≠ some u)) : PcOk E u m' l := by
  have hrest : ∀ depth, Rest E u m depth → Rest E u m' depth := by
    intro depth hr
    rcases h with ⟨h1, h2, h3⟩ | ⟨h1, h2⟩
    · rw [Rest, h1, h2, h3]
      exact hr
    · refine ⟨fun hd => absurd (hr.depth_eq_zero h1) (Nat.ne_of_gt hd), fun _ ht => absurd ht h2⟩
  -- A thread with the word still finds its fields.
  have hsame : m.taker = some u →
      m'.taker = m.taker ∧ m'.ownerId = m.ownerId ∧ m'.cnt = m.cnt :=
    fun ht => h.resolve_right fun hn => hn.1 ht
  rcases l with ⟨pc, depth⟩
  cases pc with
  | checkPid k =>
    refine ⟨hrest _ hpc.1, hpc.2.imp_right fun ⟨hnt, ha⟩ => ⟨?_, ha⟩⟩
    rcases h with ⟨h1, -, -⟩ | ⟨-, h2⟩
    · rwa [h1]
    · exact h2
  | spinMark k val | waitValid k val | tryValid val => exact ⟨hrest _ hpc.1, hpc.2⟩
  | waitSteal k val | trySteal val => exact ⟨hrest _ hpc.1, hpc.2.1, hd _ hpc.2.2⟩
  | relockTest => exact ⟨hrest _ hpc.1, hpc.2⟩
  | relockLoad | relockStore v =>
    obtain ⟨-, -, h3⟩ := hsame (hpc.1.1 hpc.2.1).1
    refine ⟨hrest _ hpc.1, hpc.2.1, ?_⟩
    rw [h3]
    exact hpc.2.2
  | lockRet r =>
    by_cases hr : r = .ok ∨ r = .eownerdead
    · simp only [PcOk, if_pos hr] at hpc ⊢
      obtain ⟨h1, h2, h3⟩ := hsame hpc.1
      rwa [h1, h2, h3]
    · simp only [PcOk, if_neg hr] at hpc ⊢
      exact hrest _ hpc
  | taken b | setOwner b | setCnt b | deadLoad | deadStore v | unUnrecoverable | unOwner | unPid
  | unLoad | unStore v | unDead | unSetOwner v | unWord | unSetWake | unCas val =>
    obtain ⟨h1, h2, h3⟩ := hsame hpc.1
    simpa only [PcOk, h1, h2, h3] using hpc
  | unRet r => exact ⟨hpc.1, hrest _ hpc.2⟩
  | _ => exact hrest _ hpc

omit [DecidableEq T] in
/-- A thread with a hold is the owner in the word and in the field. -/
theorem PcOk.holder (hpc : PcOk E t m l) (hd : 0 < l.depth) :
    m.taker = some t ∧ m.ownerId = E.id t := by
  have hrest : Rest E t m l.depth → m.taker = some t ∧ m.ownerId = E.id t :=
    fun hr => ⟨(hr.1 hd).1, (hr.1 hd).2.1⟩
  rcases l with ⟨pc, depth⟩
  cases pc with
  | checkPid k | spinMark k val | waitValid k val | tryValid val | waitSteal k val | trySteal val
  | relockTest | relockLoad | relockStore v => exact hrest hpc.1
  | lockRet r =>
    by_cases hr : r = .ok ∨ r = .eownerdead
    · simp only [PcOk, if_pos hr] at hpc
      exact ⟨hpc.1, hpc.2.1⟩
    · simp only [PcOk, if_neg hr] at hpc
      exact hrest hpc
  -- From the acquisition to the count, and from the last count on, it has none.
  | taken b | setOwner b => exact absurd hpc.2 hd.ne'
  | setCnt b | deadLoad | deadStore v | unSetOwner v | unWord | unSetWake | unCas val =>
    exact absurd hpc.2.1 hd.ne'
  | unDead => exact absurd hpc.2 hd.ne'
  | unUnrecoverable | unOwner | unPid | unLoad | unStore v => exact ⟨hpc.1, hpc.2.1⟩
  | unRet r => exact hrest hpc.2
  | _ => exact hrest hpc

/-- A step keeps the invariant. -/
theorem Inv.step {s : Global T (Mem T) Local} (hs : Inv E s)
    (hsure : s.mem.dead (E.pid t) = false → c.dies = false → Sure E t s.mem (s.loc t))
    (h : exec E t c s.mem (s.loc t) = some (m, l)) :
    Inv E ⟨m, Function.update s.loc t l⟩ := by
  unfold exec at h
  split at h
  · cases h
  rename_i hlive
  rw [Bool.not_eq_true] at hlive
  split at h
  · -- The process of the thread dies.
    simp only [Option.some.injEq, Prod.mk.injEq] at h
    obtain ⟨rfl, rfl⟩ := h
    have hdead : ∀ p, s.mem.dead p = true → Function.update s.mem.dead (E.pid t) true p = true := by
      intro p hp
      rw [Function.update_apply]
      split
      · rfl
      · exact hp
    have hlive' : ∀ p, Function.update s.mem.dead (E.pid t) true p = false →
        s.mem.dead p = false := by
      intro p hp
      by_contra hn
      rw [hdead p (by simpa using hn)] at hp
      cases hp
    rw [Function.update_eq_self]
    refine ⟨hs.free, hs.word, fun u hu => hs.owner u (hlive' _ hu), ?_⟩
    intro u hu
    exact (hs.pc u (hlive' _ hu)).frame hdead (.inl ⟨rfl, rfl, rfl⟩)
  · rename_i hdies
    rw [Bool.not_eq_true] at hdies
    obtain ⟨hfree, hword, howner⟩ := hs.words_step hlive h
    obtain ⟨htake, hdead⟩ := act_take h (hs.pc t hlive)
    refine ⟨hfree, hword, howner, ?_⟩
    intro u hu
    simp only [hdead] at hu
    by_cases hut : u = t
    · subst hut
      simp only [Function.update_self]
      exact act_pcOk h (hs.pc u hlive) (hsure hlive hdies) hlive hs.free hs.word (hs.owner u hlive)
    · simp only [Function.update_of_ne hut]
      refine (hs.pc u hu).frame (fun p hp => by rw [hdead]; exact hp) ?_
      -- Another live thread is not the taker when the fields change.
      have hne : some t ≠ some u := fun he => hut (Option.some.inj he).symm
      cases htake with
      | keep ht ho hc hl => exact .inl ⟨ht, ho, hc⟩
      | take hm ht ho hl =>
          refine .inr ⟨fun hold => ?_, ht ▸ hne⟩
          rcases hm with h0 | ⟨-, hd⟩
          · rw [hs.free.mpr h0] at hold
            cases hold
          · rw [hs.word u hold, hu] at hd
            cases hd
      | own hm ht ho hl => exact .inr ⟨hm ▸ hne, ht ▸ hne⟩
      | release hm ht hl ho => exact .inr ⟨hm ▸ hne, by rw [ht]; exact (Option.some_ne_none u).symm⟩

omit [DecidableEq T] in
/-- The invariant holds initially. -/
theorem inv_of_init {s : Global T (Mem T) Local} (hs : IsInit s) : Inv E s := by
  obtain ⟨hm, hloc⟩ := hs
  constructor
  · simp [hm]
  · simp [hm]
  · intro t _ ho
    rw [hm] at ho
    exact absurd ho.symm (E.id_ne t)
  · intro t _
    simp [PcOk, Rest, hm, hloc]

omit [DecidableEq T] in
/-- A mutex that is not recursive is never taken for the thread's own. -/
theorem sure_of_kind (hk : E.kind ≠ .recursive) : Sure E t m l := by
  unfold Sure
  split
  · exact fun hrec => absurd hrec hk
  · trivial

omit [DecidableEq T] in
/-- Distinguished threads are sure. -/
theorem Inv.sure {s : Global T (Mem T) Local} (hs : Inv E s) (hdist : Distinguished E)
    (hlive : s.mem.dead (E.pid t) = false) : Sure E t s.mem (s.loc t) := by
  unfold Sure
  split
  · next k hk =>
    intro hkind hp
    have hpc := hs.pc t hlive
    simp only [PcOk, hk] at hpc
    obtain ⟨hrest, hd | ⟨-, a, hat, ha⟩⟩ := hpc
    · exact (hrest.1 hd).1
    · -- The word has this process' id, so its owner is a thread of it.
      have hne : s.mem.taker ≠ none := fun hn => E.ne_zero_of_masked hp (hs.free.mp hn)
      obtain ⟨u, hu⟩ := Option.ne_none_iff_exists'.mp hne
      have hut : E.pid u = E.pid t := (hs.word u hu).symm.trans hp
      have hpa : E.pid a ≠ E.pid t := fun hp' => hat (E.unique a t hp' ha)
      exact hu.trans (congrArg some (hdist hkind a t u hpa ha hut))
  · trivial

/-- The invariant holds in every reachable state. -/
theorem inv_of_reach {s : Global T (Mem T) Local} (hdist : Distinguished E)
    (h : (machine E).Reach s) : Inv E s :=
  Exec.invariant (fun _ hs => inv_of_init hs)
    (fun _ _ _ _ _ hs _ he => hs.step (fun hlive _ => hs.sure hdist hlive) he) h

omit [DecidableEq T] in
/-- In every reachable state a live holder is the taker of the lock word. -/
theorem Inv.taker {s : Global T (Mem T) Local} (hs : Inv E s)
    (hlive : s.mem.dead (E.pid t) = false) (hd : 0 < (s.loc t).depth) :
    s.mem.taker = some t :=
  ((hs.pc t hlive).holder hd).1

/-! ### The run with two holders -/

omit [DecidableEq T] in
/-- A process id has neither of the two flags. -/
theorem Env.pid_flags (E : Env T) (t : T) :
    E.pid t &&& LLL_WAITERS = 0 ∧ E.pid t &&& LLL_DEAD_OWNER = 0 := by
  have hm := E.pid_masked t
  rw [← hm, BitVec.and_assoc, BitVec.and_assoc]
  exact ⟨BitVec.and_zero, BitVec.and_zero⟩

omit [DecidableEq T] in
/-- A free mutex is locked. -/
theorem alone_lock (t : T) (cnt : BitVec 32) :
    (exec E).alone t (List.replicate 9 {}) (⟨0, 0, cnt, fun _ => false, none⟩, ⟨.idle, 0⟩) =
      some (⟨E.pid t, E.id t, 1, fun _ => false, some t⟩, ⟨.idle, 1⟩) := by
  have hid : 0#32 ≠ E.id t := (E.id_ne t).symm
  have hrec : 0#32 ≠ NOTRECOVERABLE_ID := by decide
  -- The checks of the mutex, the lock word, and the fields.
  have hchecks : (exec E).alone t (List.replicate 3 {})
      (⟨0, 0, cnt, fun _ => false, none⟩, ⟨.idle, 0⟩) =
      some (⟨0, 0, cnt, fun _ => false, none⟩, ⟨.spinLoad .lock, 0⟩) := by
    simp [List.replicate, Exec.alone, exec, act, LockCall.acquire, hid, hrec]
  have hword : (exec E).alone t (List.replicate 2 {})
      (⟨0, 0, cnt, fun _ => false, none⟩, ⟨.spinLoad .lock, 0⟩) =
      some (⟨E.pid t, 0, cnt, fun _ => false, some t⟩, ⟨.taken false, 0⟩) := by
    simp [List.replicate, Exec.alone, exec, act]
  have hfields : (exec E).alone t (List.replicate 4 {})
      (⟨E.pid t, 0, cnt, fun _ => false, some t⟩, ⟨.taken false, 0⟩) =
      some (⟨E.pid t, E.id t, 1, fun _ => false, some t⟩, ⟨.idle, 1⟩) := by
    simp [List.replicate, Exec.alone, exec, act, hrec]
  exact Exec.alone_append hchecks (Exec.alone_append hword hfields)

omit [DecidableEq T] in
/-- A thread with the id of the owner goes on to compare the process ids. -/
theorem alone_check {a b : T} (h : E.id a = E.id b) :
    (exec E).alone b (List.replicate 3 {})
      (⟨E.pid a, E.id a, 1, fun _ => false, some a⟩, ⟨.idle, 0⟩) =
      some (⟨E.pid a, E.id a, 1, fun _ => false, some a⟩, ⟨.checkPid .lock, 0⟩) := by
  have hrec := E.id_ne_notrecoverable b
  simp [List.replicate, Exec.alone, exec, act, h, hrec]

omit [DecidableEq T] in
/-- The holder unlocks. -/
theorem alone_unlock (t : T) :
    (exec E).alone t ({ call := .unlock } :: List.replicate 10 {})
      (⟨E.pid t, E.id t, 1, fun _ => false, some t⟩, ⟨.idle, 1⟩) =
      some (⟨0, 0, 0, fun _ => false, none⟩, ⟨.idle, 0⟩) := by
  have hrec := E.id_ne_notrecoverable t
  obtain ⟨hw, hd⟩ := E.pid_flags t
  have hm := E.pid_masked t
  have hchecks : (exec E).alone t ({ call := .unlock } :: List.replicate 3 {})
      (⟨E.pid t, E.id t, 1, fun _ => false, some t⟩, ⟨.idle, 1⟩) =
      some (⟨E.pid t, E.id t, 1, fun _ => false, some t⟩, ⟨.unLoad, 0⟩) := by
    simp [List.replicate, Exec.alone, exec, act, hrec, hm]
  have hfields : (exec E).alone t (List.replicate 4 {})
      (⟨E.pid t, E.id t, 1, fun _ => false, some t⟩, ⟨.unLoad, 0⟩) =
      some (⟨E.pid t, 0, 0, fun _ => false, some t⟩, ⟨.unWord, 0⟩) := by
    simp [List.replicate, Exec.alone, exec, act, hd]
  have hword : (exec E).alone t (List.replicate 3 {})
      (⟨E.pid t, 0, 0, fun _ => false, some t⟩, ⟨.unWord, 0⟩) =
      some (⟨0, 0, 0, fun _ => false, none⟩, ⟨.idle, 0⟩) := by
    simp [List.replicate, Exec.alone, exec, act, hw]
  exact Exec.alone_append hchecks (Exec.alone_append hfields hword)

omit [DecidableEq T] in
/-- The comparison with the process id of another thread of the process: the mutex looks
like the thread's own. -/
theorem alone_relock {b c : T} (hk : E.kind = .recursive) (h : E.pid c = E.pid b) :
    (exec E).alone b (List.replicate 5 {})
      (⟨E.pid c, E.id c, 1, fun _ => false, some c⟩, ⟨.checkPid .lock, 0⟩) =
      some (⟨E.pid c, E.id c, 2, fun _ => false, some c⟩, ⟨.idle, 1⟩) := by
  have hm := E.pid_masked b
  have htest : (exec E).alone b (List.replicate 2 {})
      (⟨E.pid c, E.id c, 1, fun _ => false, some c⟩, ⟨.checkPid .lock, 0⟩) =
      some (⟨E.pid c, E.id c, 1, fun _ => false, some c⟩, ⟨.relockLoad, 0⟩) := by
    simp [List.replicate, Exec.alone, exec, act, hk, h, hm]
  have hcount : (exec E).alone b (List.replicate 3 {})
      (⟨E.pid c, E.id c, 1, fun _ => false, some c⟩, ⟨.relockLoad, 0⟩) =
      some (⟨E.pid c, E.id c, 2, fun _ => false, some c⟩, ⟨.idle, 1⟩) := by
    simp [List.replicate, Exec.alone, exec, act]
  exact Exec.alone_append htest hcount

/-- Three threads that are not distinguished get to two holders. The thread `a` locks;
`b` reads the id of `a`, which is its own; `a` unlocks; `c` locks; `b` reads the process
id of `c`, which is its own, and takes the mutex for its own. -/
theorem not_exclusive {a b c : T} (hk : E.kind = .recursive) (hp : E.pid a ≠ E.pid b)
    (hid : E.id a = E.id b) (hpc : E.pid c = E.pid b) (hcb : c ≠ b) :
    ∃ s : Global T (Mem T) Local, (machine E).Reach s ∧ ¬ Exclusive E s := by
  have hab : a ≠ b := fun h => hp (congrArg E.pid h)
  have hac : a ≠ c := fun h => hp ((congrArg E.pid h).trans hpc)
  let s₀ : Global T (Mem T) Local := ⟨⟨0, 0, 0, fun _ => false, none⟩, fun _ => ⟨.idle, 0⟩⟩
  have h₀ : (machine E).Reach s₀ := .init ⟨rfl, fun _ => rfl⟩
  have h₁ := Exec.reach_alone h₀ rfl (alone_lock a 0)
  have h₂ := Exec.reach_alone h₁ (Function.update_of_ne hab.symm _ _) (alone_check hid)
  have h₃ := Exec.reach_alone h₂ ((Function.update_of_ne hab _ _).trans
    (Function.update_self _ _ _)) (alone_unlock a)
  have h₄ := Exec.reach_alone h₃ ((Function.update_of_ne hac.symm _ _).trans
    ((Function.update_of_ne hcb _ _).trans (Function.update_of_ne hac.symm _ _)))
    (alone_lock c 0)
  have h₅ := Exec.reach_alone h₄ ((Function.update_of_ne hcb.symm _ _).trans
    ((Function.update_of_ne hab.symm _ _).trans (Function.update_self _ _ _)))
    (alone_relock hk hpc)
  refine ⟨_, h₅, fun hex => hcb (hex c b rfl rfl ?_ ?_)⟩
  · simp [Function.update_of_ne hcb]
  · simp

/-- A recursive mutex and three threads: the thread 0 in the process 1, and the threads 1
and 2 in the process 2. The threads 0 and 1 have the id 1. -/
def Env.three : Env (Fin 3) where
  kind := .recursive
  pid t := if t = 0 then 1 else 2
  id t := if t = 2 then 2 else 1
  pid_ne := first_ne_three
  pid_masked := by decide
  id_ne := last_ne_three
  id_masked := by decide
  unique := by decide

/-- They get to a state with two live holders. -/
theorem robust_two_holders : ∃ s : Global (Fin 3) (Mem (Fin 3)) Local,
    (machine Env.three).Reach s ∧ ¬ Exclusive Env.three s :=
  not_exclusive (a := 0) (b := 1) (c := 2) rfl (by decide) rfl rfl (by decide)

/-- Mutual exclusion of a robust mutex. For every mutex type and any threads of any
processes, whichever of them die, no two live threads hold it in any reachable state, if
and only if the type is not the recursive one or its threads are distinguished. -/
theorem robust_exclusion (E : Env T) :
    (∀ s : Global T (Mem T) Local, (machine E).Reach s → Exclusive E s) ↔ Distinguished E := by
  constructor
  · intro h hk a b c hp hid hpc
    by_contra hcb
    obtain ⟨s, hs, hne⟩ := not_exclusive hk hp hid hpc hcb
    exact hne (h s hs)
  · intro hdist s h t u ht hu hdt hdu
    have hs := inv_of_reach hdist h
    exact Option.some.inj ((hs.taker ht hdt).symm.trans (hs.taker hu hdu))

end Hlpt.Robust
