import Hlpt.RobustLock.Steps

/-!
# `Hlpt.RobustLock.Takeover`: who takes the word from whom

The word has the process id of the thread that holds it. A thread that finds the id of a dead
process replaces the value as a whole, so it takes the word from that process or from nobody.
Ids are not reused, so the value of a dead process does not come back once it was replaced.

An unlock stores 0 without another look at the word, but its thread holds the word up to
there, and its process lives.

* `change_of_step`: what an access does to the word and to the holder.
* `Inv.step`: the word, the holder and the log agree.
* `robust_lock_takeover`: what follows for the callers.
-/

set_option autoImplicit false

namespace Hlpt.RobustLock

open Hlpt.Lib
open Hlpt.Robust (LLL_OWNER_MASK LLL_WAITERS waiters_masked waiters_ne_zero)

universe u

variable {T : Type u}

/-- The process of the holder is in the word. -/
abbrev owner (word : BitVec 32) : BitVec 32 := word &&& LLL_OWNER_MASK

/-- What a thread remembers of the word: a value of a holder, or one of a dead process. -/
def Remembers (m : Mem T) : Pc → Prop
  | .spinMark _ val | .waitValid _ val | .tryValid val => val ≠ 0
  | .waitSteal _ val | .trySteal val => val ≠ 0 ∧ m.dead (owner val) = true
  | _ => True

/-- A thread in `lll_robust_unlock` holds the word until it is released. -/
def InUnlock : Pc → Prop
  | .unLoad | .unSetWake | .unCas _ => True
  | _ => False

/-- The takes from dead processes: each of them once, and the word does not show one of
them. -/
structure Logged (m : Mem T) : Prop where
  dead : ∀ a ∈ m.log, a.old ≠ 0 → m.dead (owner a.old) = true
  gone : ∀ a ∈ m.log, a.old ≠ 0 → m.word ≠ 0 → owner m.word ≠ owner a.old
  once : ((m.log.filter fun a => a.old ≠ 0).map fun a => owner a.old).Nodup

/-- The word, the holder and the threads agree. -/
structure Inv (E : Env T) (s : Global T (Mem T) Local) : Prop where
  free : s.mem.holder = none ↔ s.mem.word = 0
  word : ∀ t, s.mem.holder = some t → owner s.mem.word = E.pid t
  holds : ∀ t, Alive E s.mem t → ((s.loc t).holds = true ↔ s.mem.holder = some t)
  latest : ∀ t, s.mem.holder = some t → ∃ old log, s.mem.log = ⟨t, old⟩ :: log
  unlock : ∀ t, InUnlock (s.loc t).pc → (s.loc t).holds = true
  remembers : ∀ t, Remembers s.mem (s.loc t).pc
  logged : Logged s.mem

variable {E : Env T} {t : T} {c : Choice T} {m m' : Mem T} {l l' : Local}

/-- A word with a process id is not 0. -/
theorem Env.ne_zero_of_owner (E : Env T) {v : BitVec 32} {t : T} (h : owner v = E.pid t) :
    v ≠ 0 := by
  rintro rfl
  exact E.pid_ne t (h.symm.trans BitVec.zero_and)

/-- What an access does to the word. -/
inductive Change (E : Env T) (t : T) (m m' : Mem T) (l l' : Local) : Prop
  | keep (hword : m'.word = m.word ∨ m.word ≠ 0 ∧ m'.word = m.word ||| LLL_WAITERS)
      (hholder : m'.holder = m.holder) (hlog : m'.log = m.log) (hholds : l'.holds = l.holds)
      (hpc : l'.pc ≠ .ret .eownerdead)
  | take (hfree : m.word = 0 ∧ l'.pc = .ret .ok ∨
        m.word ≠ 0 ∧ m.dead (owner m.word) = true ∧ l'.pc = .ret .eownerdead)
      (hword : owner m'.word = E.pid t) (hholder : m'.holder = some t)
      (hlog : m'.log = ⟨t, m.word⟩ :: m.log) (hholds : l'.holds = true)
  | release (hholds : l.holds = true) (hword : m'.word = 0) (hholder : m'.holder = none)
      (hlog : m'.log = m.log) (hholds' : l'.holds = false) (hpc : l'.pc = .ret .ok)

theorem owner_pid (E : Env T) (t : T) : owner (E.pid t ||| LLL_WAITERS) = E.pid t := by
  rw [owner, waiters_masked, E.pid_masked]

theorem beforeSleep_ne_ret (val : BitVec 32) (d : Deadline) (r : Code) :
    beforeSleep val d ≠ .ret r := by
  cases d <;> simp [beforeSleep]

theorem afterSleep_ne (timedout : Bool) (d : Deadline) :
    afterSleep timedout d ≠ .ret .eownerdead := by
  cases d <;> cases timedout <;> simp [afterSleep]

/-- An access that changes nothing does not return `EOWNERDEAD`. -/
theorem Moves.ne_eownerdead {pc pc' : Pc} (h : Moves m pc pc') : pc' ≠ .ret .eownerdead := by
  cases h with
  | waitLost | waitLive => exact beforeSleep_ne_ret _ _ _
  | _ => simp

theorem remembers_afterSleep (timedout : Bool) (d : Deadline) :
    Remembers m (afterSleep timedout d) ∧ ¬ InUnlock (afterSleep timedout d) := by
  cases d <;> cases timedout <;> exact ⟨trivial, nofun⟩

theorem remembers_beforeSleep (val : BitVec 32) (d : Deadline) :
    Remembers m (beforeSleep val d) ∧ ¬ InUnlock (beforeSleep val d) := by
  cases d <;> exact ⟨trivial, nofun⟩

variable [DecidableEq T]

/-- Every access is one of these. -/
theorem change_of_step (h : Step E t m l m' l') (hpc : Remembers m l.pc)
    (hun : InUnlock l.pc → l.holds = true) : Change E t m m' l l' ∧ m'.dead = m.dead := by
  cases h with
  | move hm => exact ⟨.keep (.inl rfl) rfl rfl rfl hm.ne_eownerdead, rfl⟩
  | unlock => exact ⟨.keep (.inl rfl) rfl rfl rfl (by simp), rfl⟩
  | spinTake hm | tryTake hm => exact ⟨.take (.inl ⟨hm, rfl⟩) (E.pid_masked t) rfl rfl rfl, rfl⟩
  | waitTake hm => exact ⟨.take (.inl ⟨hm, rfl⟩) (owner_pid E t) rfl rfl rfl, rfl⟩
  | waitSteal => exact ⟨.take (.inr ⟨hpc.1, hpc.2, rfl⟩) (owner_pid E t) rfl rfl rfl, rfl⟩
  | trySteal => exact ⟨.take (.inr ⟨hpc.1, hpc.2, rfl⟩) (E.pid_masked t) rfl rfl rfl, rfl⟩
  | spinMark => exact ⟨.keep (.inr ⟨hpc, rfl⟩) rfl rfl rfl (by simp), rfl⟩
  | sleep => exact ⟨.keep (.inl rfl) rfl rfl rfl (by simp), rfl⟩
  | awake => exact ⟨.keep (.inl rfl) rfl rfl rfl (afterSleep_ne _ _), rfl⟩
  | unSetWake hq => exact ⟨.release (hun trivial) rfl rfl rfl rfl rfl, rfl⟩
  | unCas => exact ⟨.release (hun trivial) rfl rfl rfl rfl rfl, rfl⟩

/-! ### The threads -/

/-- What a thread remembers after its access. -/
theorem remembers_of_step (h : Step E t m l m' l') (hpc : Remembers m l.pc) :
    Remembers m' l'.pc := by
  cases h with
  | move hm =>
      cases hm with
      | spinHeld hm | waitHeld hm | tryHeld hm => exact hm
      | waitDead hm | tryDead hm => exact ⟨hpc, hm⟩
      | waitLost | waitLive => exact (remembers_beforeSleep _ _).1
      | _ => trivial
  | awake => exact (remembers_afterSleep _ _).1
  | _ => trivial

/-- A thread comes into `lll_robust_unlock` with the word, and keeps it there. -/
theorem inUnlock_of_step (h : Step E t m l m' l') (hun : InUnlock l.pc → l.holds = true)
    (hin : InUnlock l'.pc) : l'.holds = true := by
  cases h with
  | move hm =>
      cases hm with
      | unWaited | unWord | unAgain => exact hun trivial
      | waitLost | waitLive => exact absurd hin (remembers_beforeSleep (m := m) _ _).2
      | _ => cases hin
  | unlock => rfl
  | awake => exact absurd hin (remembers_afterSleep (m := m) _ _).2
  | _ => cases hin

omit [DecidableEq T] in
/-- Processes do not come back, so what a thread remembers stays true. -/
theorem Remembers.mono {pc : Pc} (h : Remembers m pc)
    (hdead : ∀ p, m.dead p = true → m'.dead p = true) : Remembers m' pc := by
  cases pc with
  | waitSteal d val | trySteal val => exact ⟨h.1, hdead _ h.2⟩
  | _ => exact h

/-! ### The log -/

omit [DecidableEq T] in
theorem Logged.congr (h : Logged m) (hlog : m'.log = m.log)
    (hdead : ∀ p, m.dead p = true → m'.dead p = true)
    (hword : m'.word ≠ 0 → m.word ≠ 0 ∧ owner m'.word = owner m.word) : Logged m' := by
  constructor
  · intro a ha hne
    rw [hlog] at ha
    exact hdead _ (h.dead a ha hne)
  · intro a ha hne h0
    rw [hlog] at ha
    rw [(hword h0).2]
    exact h.gone a ha hne (hword h0).1
  · rw [hlog]
    exact h.once

omit [DecidableEq T] in
/-- A thread of a live process takes the word. -/
theorem Logged.take (h : Logged m) (hlive : Alive E m t)
    (hfree : m.word ≠ 0 → m.dead (owner m.word) = true) (hdead : m'.dead = m.dead)
    (hword : owner m'.word = E.pid t) (hlog : m'.log = ⟨t, m.word⟩ :: m.log) : Logged m' := by
  have hall : ∀ a ∈ m'.log, a.old ≠ 0 → m.dead (owner a.old) = true := by
    rw [hlog]
    intro a ha hne
    rcases List.mem_cons.mp ha with rfl | ha
    · exact hfree hne
    · exact h.dead a ha hne
  constructor
  · rw [hdead]
    exact hall
  · intro a ha hne _ heq
    -- The new word shows a live process.
    have hold := hall a ha hne
    rw [← heq, hword, hlive] at hold
    cases hold
  · rw [hlog]
    by_cases h0 : m.word = 0
    · simpa [h0] using h.once
    · have hnew : owner m.word ∉
          (m.log.filter fun a => a.old ≠ 0).map fun a => owner a.old := by
        intro hmem
        obtain ⟨a, ha, heq⟩ := List.mem_map.mp hmem
        obtain ⟨ha, hne⟩ := List.mem_filter.mp ha
        exact h.gone a ha (by simpa using hne) h0 heq.symm
      rw [List.filter_cons_of_pos (by simpa using h0), List.map_cons]
      exact List.nodup_cons.mpr ⟨hnew, h.once⟩

/-! ### Whole runs -/

omit [DecidableEq T] in
theorem inv_init {s : Global T (Mem T) Local} (h : IsInit s) : Inv E s := by
  obtain ⟨⟨dead, hmem⟩, hloc⟩ := h
  have hidle : ∀ t, s.loc t = ⟨.idle, false⟩ := hloc
  constructor
  · rw [hmem]
    exact iff_of_true rfl rfl
  · rw [hmem]
    nofun
  · intro t _
    rw [hmem, hidle t]
    exact iff_of_false Bool.false_ne_true nofun
  · rw [hmem]
    nofun
  · intro t hin
    rw [hidle t] at hin
    cases hin
  · intro t
    rw [hidle t]
    trivial
  · rw [hmem]
    exact ⟨nofun, nofun, List.nodup_nil⟩

omit [DecidableEq T] in
/-- No live thread holds a word that is free, or one of a dead process. -/
theorem Inv.not_holds {s : Global T (Mem T) Local} (hs : Inv E s)
    (hfree : s.mem.word = 0 ∨ s.mem.dead (owner s.mem.word) = true) (hlive : Alive E s.mem t) :
    (s.loc t).holds = false := by
  apply Bool.eq_false_iff.mpr
  intro hold
  have hholder := (hs.holds t hlive).mp hold
  rcases hfree with h0 | hgone
  · rw [hs.free.mpr h0] at hholder
    cases hholder
  · -- The word would show the process of the thread.
    rw [hs.word t hholder, hlive] at hgone
    cases hgone

omit [DecidableEq T] in
/-- The word after an access, and the holder. -/
theorem Inv.change {s : Global T (Mem T) Local} (hs : Inv E s) (hlive : Alive E s.mem t)
    (h : Change E t s.mem m (s.loc t) l) (hdead : m.dead = s.mem.dead) :
    (m.holder = none ↔ m.word = 0) ∧ (∀ u, m.holder = some u → owner m.word = E.pid u) ∧
      (∀ u, m.holder = some u → ∃ old log, m.log = ⟨u, old⟩ :: log) ∧ Logged m := by
  cases h with
  | keep hword hholder hlog hholds hpc =>
      rw [hholder, hlog]
      have hmono : ∀ p, s.mem.dead p = true → m.dead p = true := fun p hp => hdead ▸ hp
      rcases hword with hword | ⟨hne, hword⟩
      · rw [hword]
        refine ⟨hs.free, hs.word, hs.latest, hs.logged.congr hlog hmono ?_⟩
        intro h0
        rw [hword] at h0 ⊢
        exact ⟨h0, rfl⟩
      · have howner : owner m.word = owner s.mem.word := by
          rw [hword, owner, waiters_masked]
        rw [howner, hword]
        refine ⟨?_, hs.word, hs.latest, hs.logged.congr hlog hmono fun _ => ⟨hne, howner⟩⟩
        exact iff_of_false (fun hn => hne (hs.free.mp hn)) (waiters_ne_zero _)
  | take hfree hword hholder hlog hholds =>
      rw [hholder]
      refine ⟨iff_of_false (Option.some_ne_none t) (E.ne_zero_of_owner hword), ?_, ?_, ?_⟩
      · rintro u hu
        cases hu
        exact hword
      · rintro u hu
        cases hu
        exact ⟨_, _, hlog⟩
      · refine hs.logged.take hlive (fun hne => ?_) hdead hword hlog
        rcases hfree with ⟨h0, -⟩ | ⟨-, hgone, -⟩
        · exact absurd h0 hne
        · exact hgone
  | release hholds hword hholder hlog hholds' hpc =>
      rw [hholder]
      refine ⟨iff_of_true rfl hword, nofun, nofun, ?_⟩
      exact hs.logged.congr hlog (fun p hp => hdead ▸ hp) fun h0 => absurd hword h0

/-- Who holds the word after an access. -/
theorem Inv.holds_change {s : Global T (Mem T) Local} (hs : Inv E s)
    (hlive : Alive E s.mem t) (h : Change E t s.mem m (s.loc t) l) (u : T)
    (hu : Alive E s.mem u) :
    (Function.update s.loc t l u).holds = true ↔ m.holder = some u := by
  by_cases hut : u = t
  · subst hut
    rw [Function.update_self]
    cases h with
    | keep hword hholder hlog hholds hpc =>
        rw [hholds, hholder]
        exact hs.holds u hu
    | take hfree hword hholder hlog hholds => exact iff_of_true hholds hholder
    | release hholds hword hholder hlog hholds' hpc =>
        rw [hholds', hholder]
        exact iff_of_false Bool.false_ne_true nofun
  · rw [Function.update_of_ne hut, hs.holds u hu]
    cases h with
    | keep hword hholder hlog hholds hpc => rw [hholder]
    | take hfree hword hholder hlog hholds =>
        have hnot : (s.loc u).holds = false :=
          hs.not_holds (hfree.imp And.left fun hgone => hgone.2.1) hu
        rw [hholder, ← hs.holds u hu, hnot]
        exact iff_of_false Bool.false_ne_true fun heq => hut (Option.some.inj heq).symm
    | release hholds hword hholder hlog hholds' hpc =>
        rw [hholder, (hs.holds t hlive).mp hholds]
        exact iff_of_false (fun heq => hut (Option.some.inj heq).symm) nofun

/-- A step keeps the invariant. -/
theorem Inv.step {s : Global T (Mem T) Local} (hs : Inv E s)
    (h : exec E t c s.mem (s.loc t) = some (m, l)) :
    Inv E ⟨m, Function.update s.loc t l⟩ := by
  obtain ⟨hlive, ⟨-, rfl, rfl⟩ | ⟨-, hstep⟩⟩ := step_of_exec h
  · -- The process dies, and the word stays as it is.
    have hmono : ∀ p, s.mem.dead p = true → (s.mem.die E t).dead p = true := by
      intro p hp
      by_cases heq : p = E.pid t
      · simp [Mem.die, heq]
      · simpa [Mem.die, heq] using hp
    rw [Function.update_eq_self]
    refine ⟨hs.free, hs.word, fun u hu => hs.holds u ?_, hs.latest, hs.unlock, fun u => ?_, ?_⟩
    · exact Bool.eq_false_iff.mpr fun hdead => Bool.eq_false_iff.mp hu (hmono _ hdead)
    · exact (hs.remembers u).mono hmono
    · exact hs.logged.congr rfl hmono fun h0 => ⟨h0, rfl⟩
  · obtain ⟨hchange, hdead⟩ := change_of_step hstep (hs.remembers t) (hs.unlock t)
    obtain ⟨hfree, hword, hlatest, hlogged⟩ := hs.change hlive hchange hdead
    refine ⟨hfree, hword, fun u hu => ?_, hlatest, ?_, ?_, hlogged⟩
    · refine hs.holds_change hlive hchange u ?_
      unfold Alive at hu ⊢
      rwa [← hdead]
    · refine (forall_loc_iff (P := fun _ (l : Local) => InUnlock l.pc → l.holds = true)).mpr ?_
      exact ⟨inUnlock_of_step hstep (hs.unlock t), fun u _ => hs.unlock u⟩
    · refine (forall_loc_iff (P := fun _ (l : Local) => Remembers m l.pc)).mpr ?_
      refine ⟨remembers_of_step hstep (hs.remembers t), fun u _ => (hs.remembers u).mono ?_⟩
      rw [hdead]
      exact fun _ hp => hp

theorem inv_of_reach {s : Global T (Mem T) Local} (h : (machine E).Reach s) : Inv E s :=
  Exec.invariant (fun _ => inv_init) (fun _ _ _ _ _ hs _ hexec => hs.step hexec) h

/-- What an access of the thread `t` may do to the word, from the state `s`. -/
structure AccessOk (E : Env T) (t : T) (s : Global T (Mem T) Local) (m : Mem T) (l : Local) :
    Prop where
  /-- The process in the word changes only when the word is taken or released. -/
  changed : owner m.word ≠ owner s.mem.word → m.log = ⟨t, s.mem.word⟩ :: s.mem.log ∨ m.word = 0
  /-- No thread of a live process holds the word when it is taken. -/
  taken : m.log ≠ s.mem.log → m.log = ⟨t, s.mem.word⟩ :: s.mem.log ∧
    ∀ u, Alive E s.mem u → (s.loc u).holds = false
  /-- The call is about to return `EOWNERDEAD` exactly when it has replaced the value that a
  dead process left. -/
  ownerDead : l.pc = .ret .eownerdead ↔ m.log = ⟨t, s.mem.word⟩ :: s.mem.log ∧
    s.mem.word ≠ 0 ∧ s.mem.dead (owner s.mem.word) = true
  /-- The thread that releases the word holds it, and took it as the last one. -/
  released : m.word = 0 → s.mem.word ≠ 0 → (s.loc t).holds = true ∧
    owner s.mem.word = E.pid t ∧ ∃ old log, s.mem.log = ⟨t, old⟩ :: log

theorem Inv.accessOk {s : Global T (Mem T) Local} (hs : Inv E s)
    (h : exec E t c s.mem (s.loc t) = some (m, l)) (hdies : c.dies = false) :
    AccessOk E t s m l := by
  obtain ⟨hlive, ⟨hd, -, -⟩ | ⟨-, hstep⟩⟩ := step_of_exec h
  · rw [hdies] at hd
    cases hd
  obtain ⟨hchange, -⟩ := change_of_step hstep (hs.remembers t) (hs.unlock t)
  cases hchange with
  | keep hword hholder hlog hholds hpc =>
      have howner : owner m.word = owner s.mem.word := by
        rcases hword with hword | ⟨-, hword⟩
        · rw [hword]
        · rw [hword, owner, waiters_masked]
      refine ⟨fun hne => absurd howner hne, fun hne => absurd hlog hne, ?_, fun h0 hne => ?_⟩
      · apply iff_of_false hpc
        intro htake
        exact List.ne_cons_self (hlog.symm.trans htake.1)
      · rcases hword with hword | ⟨-, hword⟩
        · exact absurd (hword.symm.trans h0) hne
        · exact absurd (hword.symm.trans h0) (waiters_ne_zero _)
  | take hfree hword hholder hlog hholds =>
      refine ⟨fun _ => .inl hlog, fun _ => ⟨hlog, fun u hu => ?_⟩, ?_, fun h0 => ?_⟩
      · exact hs.not_holds (hfree.imp And.left fun hgone => hgone.2.1) hu
      · rcases hfree with ⟨h0, hpc⟩ | ⟨hne, hgone, hpc⟩
        · rw [hpc]
          exact iff_of_false (by simp) fun htake => htake.2.1 h0
        · exact iff_of_true hpc ⟨hlog, hne, hgone⟩
      · exact absurd h0 (E.ne_zero_of_owner hword)
  | release hholds hword hholder hlog hholds' hpc =>
      have hself := (hs.holds t hlive).mp hholds
      refine ⟨fun _ => .inr hword, fun hne => absurd hlog hne, ?_, fun _ _ => ?_⟩
      · rw [hpc, hlog]
        exact iff_of_false (by simp) fun htake => List.ne_cons_self htake.1
      · exact ⟨hholds, hs.word t hself, hs.latest t hself⟩

/-- In every reachable state at most one thread of a live process holds the word, each dead
process was replaced once, and every access keeps to the rules of `AccessOk`. -/
theorem robust_lock_takeover {s : Global T (Mem T) Local} (h : (machine E).Reach s) :
    (∀ t u, Alive E s.mem t → Alive E s.mem u → (s.loc t).holds = true →
      (s.loc u).holds = true → t = u) ∧
      (∀ a ∈ s.mem.log, a.old ≠ 0 → s.mem.dead (owner a.old) = true) ∧
      ((s.mem.log.filter fun a => a.old ≠ 0).map fun a => owner a.old).Nodup ∧
      ∀ t c m l, exec E t c s.mem (s.loc t) = some (m, l) → c.dies = false →
        AccessOk E t s m l := by
  have hs := inv_of_reach h
  refine ⟨fun t u ht hu htholds huholds => ?_, hs.logged.dead, hs.logged.once, ?_⟩
  · have heq := ((hs.holds t ht).mp htholds).symm.trans ((hs.holds u hu).mp huholds)
    exact Option.some.inj heq
  · intro t c m l hexec hdies
    exact hs.accessOk hexec hdies

/-! ### A death -/

/-- The threads of two processes. -/
def pair : Env Bool where
  pid t := if t then 9 else 7
  pid_ne := by decide
  pid_masked := by decide

/-- The word is free, and no thread is in a call. -/
def start : Global Bool (Mem Bool) Local :=
  ⟨⟨0, ∅, fun _ => false, none, []⟩, fun _ => ⟨.idle, false⟩⟩

theorem start_isInit : IsInit start :=
  ⟨⟨_, rfl⟩, fun _ => rfl⟩

/-- One thread takes the word and dies, and the other one finds it with `lll_robust_trylock`. -/
theorem robust_lock_takeover_dies :
    ∃ s : Global Bool (Mem Bool) Local, (machine pair).Reach s ∧
      (s.loc true).pc = .ret .eownerdead ∧ s.mem.log = [⟨true, 7⟩, ⟨false, 0⟩] ∧
      ((s.mem.log.filter fun a => a.old ≠ 0).map fun a => owner a.old).Nodup := by
  have hrun : ∃ s, (machine pair).Reach s ∧
      ((s.loc true).pc = .ret .eownerdead ∧ s.mem.log = [⟨true, 7⟩, ⟨false, 0⟩]) :=
    (machine pair).exists_reach start_isInit
      ([(false, {}), (false, {}), (false, {}), (false, { dies := true }),
        (true, { call := .lllRobustTrylock }), (true, {}), (true, {}), (true, {})]) _ (by decide)
  obtain ⟨s, hs, hpc, hlog⟩ := hrun
  exact ⟨s, hs, hpc, hlog, (robust_lock_takeover hs).2.2.1⟩

end Hlpt.RobustLock
