import Hlpt.LowLevelLock.Linear
import Hlpt.Mutex.Private

/-!
# `Hlpt.Mutex.Linear`: a mutex that knows its owner is an atomic one

The recursive and the errorcheck mutex, with their owner and their level. A first lock takes
effect with the low-level lock, before the fields of the owner are set, and the last unlock
when the low-level lock is released, after they were cleared. A lock or an unlock of a
recursive mutex in between takes effect at its store of the counter. The accesses to the word
are those of `Hlpt.LowLevelLock`, so that they simulate the atomic lock of
`Hlpt.LowLevelLock.Linear`; `moves_word` makes steps of the atomic mutex out of these.

* `mutex_linearizable`: every history of a mutex is a history of `atomicMutex`, for a mutex
  of one process, and for one of several processes whose ids tell the threads apart.
-/

set_option autoImplicit false

namespace Hlpt.Mutex

open Hlpt.Lib

universe u

variable {T : Type u} [DecidableEq T]

/-- Whether the thread is the owner. -/
def owns (t : T) : Option (T × ℕ) → Bool
  | some (u, _) => u = t
  | none => false

/-- The mutex after `t` locked it once more, or for the first time. -/
def Attr.relock (K : Attr) (t : T) : Option (T × ℕ) → Option (Option (T × ℕ))
  | none => some (some (t, 1))
  | some (u, n) =>
      if u = t ∧ K.kind = .recursive ∧ n + 1 < 2 ^ 32 then some (some (t, n + 1)) else none

/-- The codes with which a lock call may fail. -/
def Attr.gives (K : Attr) (k : LockCall) (t : T) (a : Option (T × ℕ)) : Code → Bool
  | .eagain => match a with
      | some (u, n) => u = t && K.kind == .recursive && n + 1 == 2 ^ 32
      | none => false
  | .edeadlk => owns t a && K.kind == .errorcheck
  | .ebusy => match k with
      | .trylock => a.isSome
      | _ => false
  | .einval => match k with
      | .timedlock tsp => tsp.badNsec && a.isSome
      | _ => false
  | .etimedout => match k with
      | .timedlock tsp => !tsp.badNsec
      | _ => false
  | _ => false

/-- The mutex after the owner unlocked it. -/
def unlocked (t : T) : Option (T × ℕ) → Option (Option (T × ℕ))
  | some (u, n) => if u = t then some (if n = 1 then none else some (u, n - 1)) else none
  | none => none

/-- The mutex after the owner `t` gave it to `u`. -/
def given (t u : T) : Option (T × ℕ) → Option (Option (T × ℕ))
  | some (v, n) => if v = t then some (some (u, n)) else none
  | none => none

/-- The atomic mutex. Its state is the owner with the number of its levels. -/
def atomicMutex (K : Attr) : Object T (Option (T × ℕ)) (Call T) Code where
  init a := a = none
  apply t o r a :=
    match o, r with
    | .lock _, .ok => K.relock t a
    | .lock k, r => if K.gives k t a r then some a else none
    | .unlock, .ok => unlocked t a
    | .unlock, .eperm => if owns t a then none else some a
    | .transfer none, .esrch => some a
    | .transfer (some u), .ok => if u = t then some a else given t u a
    | .transfer (some u), .eperm => if u = t ∨ owns t a then none else some a
    | _, _ => none

/-! ### Phases -/

/-- The call of an operation that tests the owner first. -/
def Op.call : Op T → Call T
  | lock k => .lock k
  | unlock => .unlock
  | transfer u => .transfer (some u)

/-- The call of a function of the low-level lock. -/
def wordCall : LowLevelLock.Call → Call T
  | .lllLock => .lock .lock
  | .lllAbstimedLock tsp => .lock (.timedlock tsp)
  | .lllTrylock => .lock .trylock
  | .lllUnlock => .unlock

/-- The phase of a thread inside the low-level lock. -/
def wordPhase : Phase LowLevelLock.Call Code → Phase (Call T) Code
  | .idle => .idle
  | .called o => .called (wordCall o)
  | .done r => .done r

/-- How far a thread is with its call. The relock of a recursive mutex has forgotten which
lock call it is. -/
def PhaseOf (q : Phase (Call T) Code) : Pc T → Prop
  | .idle => q = .idle
  | .testOwner k | .testPid k => q = .called k.call
  | .cntTest | .incLoad | .incStore _ => ∃ k, q = .called (.lock k)
  | .lockWord p | .unlockWord p => q = wordPhase (LowLevelLock.phase p)
  | .setOwner | .setPid | .setCnt | .givePid => q = .done .ok
  | .decLoad | .decStore _ | .clearPid | .clearOwner => q = .called .unlock
  | .giveOwner u => q = .called (.transfer (some u))
  | .ret r => q = .done r

/-- The event of a step: an idle thread makes a call, or its call returns. -/
def label (c : Choice T) : Pc T → Option (Event (Call T) Code)
  | .idle => some (.inv c.call)
  | .ret r => some (.res r)
  | _ => none

/-- The owner and the levels that the atomic mutex should have. A level that an unlock has
given back counts until the word is released. -/
def Records (m : Mem T) : Option (T × ℕ) → Prop
  | none => m.owners = ∅
  | some (u, n) => m.owners = {u} ∧ n = max 1 m.levels

variable {I : Threads T} {K : Attr} {t : T} {c : Choice T} {s : Global T (Mem T) (Pc T)}
  {m m' : Mem T} {pc pc' : Pc T} {a : Option (T × ℕ)}

/-- The thread is the recorded owner. -/
theorem Records.owns_iff (h : Records m a) : owns t a = true ↔ t ∈ m.owners := by
  cases a with
  | none => simp [owns, show m.owners = ∅ from h]
  | some x => simp [owns, h.1, eq_comm]

omit [DecidableEq T] in
/-- The owner as the low-level lock knows it. -/
theorem Records.fst_iff (h : Records m a) : a.map Prod.fst = some t ↔ t ∈ m.owners := by
  cases a with
  | none => simp [show m.owners = ∅ from h]
  | some x => simp [h.1, eq_comm]

omit [DecidableEq T] in
/-- The state of the atomic mutex when `t` owns it. -/
theorem Records.of_mem (h : Records m a) (ht : t ∈ m.owners) : a = some (t, max 1 m.levels) := by
  cases a with
  | none => simp [show m.owners = ∅ from h] at ht
  | some x =>
      rw [h.1, Finset.mem_singleton] at ht
      rw [ht, ← h.2]

omit [DecidableEq T] in
/-- The record of a memory with the same owners. -/
theorem Records.congr (h : Records m a) (ho : m'.owners = m.owners)
    (hl : max 1 m'.levels = max 1 m.levels) : Records m' a := by
  cases a with
  | none => exact ho.trans h
  | some x => exact ⟨ho.trans h.1, h.2.trans hl.symm⟩

/-! ### Failures -/

/-- A lock call fails. -/
theorem moves_gives {k : LockCall} {r : Code} (h : K.gives k t a r = true) :
    (atomicMutex K).Moves t none (.called (.lock k)) a (.done r) a := by
  refine .eff ?_
  have happly : (atomicMutex K).apply t (.lock k) r a =
      if K.gives k t a r then some a else none := by
    cases r with
    | ok => cases h
    | _ => rfl
  rw [happly, if_pos h]

/-- The first step of an operation after its test succeeded. -/
theorem moves_owned (h : owns t a = true) (k : Op T) :
    ∃ q, (atomicMutex K).Moves t none (.called k.call) a q a ∧ PhaseOf q (K.owned k) := by
  obtain ⟨kind, shared⟩ := K
  cases k with
  | lock k =>
      cases kind with
      | recursive => exact ⟨_, .stutter, k, rfl⟩
      | errorcheck => exact ⟨_, moves_gives (by simp [Attr.gives, h]), rfl⟩
  | unlock => cases kind <;> exact ⟨_, .stutter, rfl⟩
  | transfer u => exact ⟨_, .stutter, rfl⟩

/-- The first step of an operation after its test failed. -/
theorem moves_unowned (h : owns t a = false) {k : Op T} (hop : OpOk I K t k) :
    ∃ q, (atomicMutex K).Moves t none (.called k.call) a q a ∧ PhaseOf q (unowned k) := by
  cases k with
  | lock k => cases k <;> exact ⟨_, .stutter, rfl⟩
  | unlock =>
      refine ⟨_, .eff ?_, rfl⟩
      show (if owns t a = true then none else some a) = some a
      simp [h]
  | transfer u =>
      refine ⟨_, .eff ?_, rfl⟩
      show (if u = t ∨ owns t a = true then none else some a) = some a
      simp [h, (hop.2 u rfl).1]

/-! ### The accesses to the word -/

/-- What the low-level lock does is a step of the mutex: nothing, the first level, or the
end of the last one. -/
theorem moves_word {q q' : Phase LowLevelLock.Call Code} {owner' : Option T}
    (h : LowLevelLock.ownedLock.Moves t none q (a.map Prod.fst) q' owner')
    (hone : q = .called .lllUnlock → ∀ n, a = some (t, n) → n = 1) :
    ∃ a', (atomicMutex K).Moves t none (wordPhase q) a (wordPhase q') a' ∧
      (owner' = a.map Prod.fst ∧ a' = a ∨ a = none ∧ owner' = some t ∧ a' = some (t, 1) ∨
        owns t a = true ∧ owner' = none ∧ a' = none) := by
  generalize howner : a.map Prod.fst = owner at h
  cases h with
  | stutter => exact ⟨a, .stutter, .inl ⟨howner.symm ▸ rfl, rfl⟩⟩
  | @eff _ _ o r hap =>
      subst howner
      have hfirst : ∀ k, (atomicMutex K).Moves t none (.called (.lock k)) none (.done .ok)
          (some (t, 1)) := fun k => .eff rfl
      cases o with
      | lllLock =>
          cases a <;> cases r <;> cases hap
          exact ⟨_, hfirst .lock, .inr (.inl ⟨rfl, rfl, rfl⟩)⟩
      | lllAbstimedLock tsp =>
          cases a with
          | none =>
              cases r with
              | ok =>
                  cases hap
                  exact ⟨_, hfirst (.timedlock tsp), .inr (.inl ⟨rfl, rfl, rfl⟩)⟩
              | etimedout =>
                  obtain ⟨hgood, heq⟩ := Option.ite_none_left_eq_some.mp hap
                  cases heq
                  exact ⟨none, moves_gives (by simpa [Attr.gives] using hgood), .inl ⟨rfl, rfl⟩⟩
              | _ => cases hap
          | some x =>
              cases r with
              | einval =>
                  obtain ⟨hbad, heq⟩ := Option.ite_none_right_eq_some.mp hap
                  cases heq
                  exact ⟨some x, moves_gives (by simpa [Attr.gives] using hbad), .inl ⟨rfl, rfl⟩⟩
              | etimedout =>
                  obtain ⟨hgood, heq⟩ := Option.ite_none_left_eq_some.mp hap
                  cases heq
                  exact ⟨some x, moves_gives (by simpa [Attr.gives] using hgood), .inl ⟨rfl, rfl⟩⟩
              | _ => cases hap
      | lllTrylock =>
          cases a with
          | none =>
              cases r <;> cases hap
              exact ⟨_, hfirst .trylock, .inr (.inl ⟨rfl, rfl, rfl⟩)⟩
          | some x =>
              cases r <;> cases hap
              exact ⟨some x, moves_gives rfl, .inl ⟨rfl, rfl⟩⟩
      | lllUnlock =>
          cases a with
          | none => cases r <;> cases hap
          | some x =>
              obtain ⟨u, n⟩ := x
              cases r with
              | ok =>
                  obtain ⟨hut, heq⟩ := Option.ite_none_right_eq_some.mp hap
                  cases heq
                  obtain rfl : u = t := hut
                  obtain rfl := hone rfl n rfl
                  have hlast : unlocked u (some (u, 1)) = some none := by simp [unlocked]
                  exact ⟨none, .eff hlast, .inr (.inr ⟨by simp [owns], rfl, rfl⟩)⟩
              | _ => cases hap

omit [DecidableEq T] in
/-- A step into the word goes on, or ends with the code of the low-level lock. -/
theorem phaseOf_afterLock (p : LowLevelLock.Pc) (hp : p ≠ .idle) :
    PhaseOf (T := T) (wordPhase (LowLevelLock.phase p)) (afterLock p) := by
  cases p with
  | idle => exact absurd rfl hp
  | ret r =>
      rw [afterLock]
      split
      · next hr =>
        rw [hr]
        rfl
      · rfl
  | _ => rfl

omit [DecidableEq T] in
/-- A step of the release goes on, or ends with the code of the low-level lock. -/
theorem phaseOf_afterUnlock (p : LowLevelLock.Pc) :
    PhaseOf (T := T) (wordPhase (LowLevelLock.phase p)) (afterUnlock p) := by
  cases p <;> rfl

omit [DecidableEq T] in
/-- A lock call that has recorded its owner is as good as over. -/
theorem phaseOf_counted : PhaseOf (T := T) (.done .ok) K.counted := by
  obtain ⟨kind, shared⟩ := K
  cases kind <;> rfl

/-- What a step of the low-level lock does to the record. -/
theorem Inv.moves_onWord (hs : Inv I K s) (ha : Records s.mem a) {p : LowLevelLock.Pc}
    {lk : LowLevelLock.Mem T} {l' : LowLevelLock.Local}
    (hp : LowLevelLock.InLock p ∨ p = .unlockSwap ∧ t ∈ s.mem.owners ∧ s.mem.levels = 0 ∨
      p = .unlockWake)
    (hchecked : LowLevelLock.Checked p)
    (h : LowLevelLock.exec t c.word s.mem.lock ⟨p, decide (t ∈ s.mem.owners)⟩ = some (lk, l')) :
    ∃ a', (atomicMutex K).Moves t none (wordPhase (LowLevelLock.phase p)) a
        (wordPhase (LowLevelLock.phase l'.pc)) a' ∧
      Records (s.mem.onWord t lk l'.holds) a' := by
  have hw : s.mem.lock.word = 0 ↔ a.map Prod.fst = none := by
    rw [hs.free]
    cases a with
    | none => exact iff_of_true ha rfl
    | some x => simp [ha.1]
  have hh : decide (t ∈ s.mem.owners) = true ↔ a.map Prod.fst = some t := by
    rw [ha.fst_iff, decide_eq_true_iff]
  have hun : p = .unlockSwap → decide (t ∈ s.mem.owners) = true := by
    rintro rfl
    rcases hp with hp | ⟨-, ht, -⟩ | hp
    · exact hp.elim
    · exact decide_eq_true ht
    · cases hp
  obtain ⟨owner', hmove, -, hh', -⟩ := LowLevelLock.moves_of_exec h hw hh hun hchecked
  have hlabel : LowLevelLock.label c.word ⟨p, decide (t ∈ s.mem.owners)⟩ = none := by
    rcases hp with hp | ⟨rfl, -⟩ | rfl
    · cases p <;> first | rfl | exact hp.elim
    · rfl
    · rfl
  rw [hlabel] at hmove
  have hone : LowLevelLock.phase p = .called .lllUnlock → ∀ n, a = some (t, n) → n = 1 := by
    rintro hcall n rfl
    rcases hp with hp | ⟨-, -, hlevels⟩ | rfl
    · exact absurd hcall (LowLevelLock.phase_ne_unlock hp)
    · rw [ha.2, hlevels]
      rfl
    · cases hcall
  obtain ⟨a', hmove', hcase⟩ := moves_word (K := K) hmove hone
  refine ⟨a', hmove', ?_⟩
  rcases hcase with ⟨rfl, rfl⟩ | ⟨rfl, rfl, rfl⟩ | ⟨how, rfl, rfl⟩
  · have hsame : l'.holds = decide (t ∈ s.mem.owners) := Bool.eq_iff_iff.mpr (hh'.trans hh.symm)
    rw [onWord_same hsame]
    exact ha.congr rfl rfl
  · -- The first level: nobody owned the mutex.
    have hnone : s.mem.owners = ∅ := ha
    rw [hh'.mpr rfl]
    refine ⟨by simp [Mem.onWord, hnone], ?_⟩
    simp [Mem.onWord, hnone, hs.unused hnone]
  · have hfalse : l'.holds = false := by simpa using hh'
    have ht := ha.owns_iff.mp how
    rw [hfalse]
    exact hs.erase_eq_empty ht

/-! ### Every step -/

/-- The deadline of a thread that may sleep on the word was checked. -/
def Checked : Pc T → Prop
  | .lockWord p | .unlockWord p => LowLevelLock.Checked p
  | _ => True

omit [DecidableEq T] in
/-- An owner does not wait for the word. -/
theorem checked_owned (k : Op T) : Checked (K.owned k) := by
  obtain ⟨kind, shared⟩ := K
  cases k <;> cases kind <;> trivial

omit [DecidableEq T] in
/-- A lock call starts with a test of the word. -/
theorem checked_unowned (k : Op T) : Checked (unowned k) := by
  rcases k with (_ | _ | _) | _ | _ <;> trivial

omit [DecidableEq T] in
/-- A lock call ends without the word. -/
theorem checked_counted : Checked (K.counted (T := T)) := by
  obtain ⟨kind, shared⟩ := K
  cases kind <;> trivial

/-- A thread goes to a checked deadline, or keeps the one it has. -/
theorem checked_of_exec (hc : Checked pc) (h : exec I K t c m pc = some (m', pc')) :
    Checked pc' := by
  cases pc with
  | idle =>
      obtain ⟨p, henter, hr⟩ := Option.map_eq_some_iff.mp h
      cases hr
      rcases hcall : c.call with k | _ | _ | u <;> rw [hcall] at henter
      · cases henter
        trivial
      · cases henter
        trivial
      · cases henter
        trivial
      · simp only [enter] at henter
        split at henter
        · cases henter
          trivial
        · split at henter
          · cases henter
            trivial
          · cases henter
  | testOwner k =>
      cases h
      split
      · split
        · trivial
        · exact checked_owned k
      · exact checked_unowned k
  | testPid k =>
      cases h
      split
      · exact checked_owned k
      · exact checked_unowned k
  | lockWord p =>
      obtain ⟨r, hword, hr⟩ := Option.map_eq_some_iff.mp h
      cases hr
      have hnext : LowLevelLock.Checked r.2.pc :=
        LowLevelLock.checked_of_exec (l := ⟨p, _⟩) hc hword
      generalize r.2.pc = p' at hnext
      cases p' with
      | ret r' =>
          rw [afterLock]
          split <;> trivial
      | _ => exact hnext
  | unlockWord p =>
      obtain ⟨r, hword, hr⟩ := Option.map_eq_some_iff.mp h
      cases hr
      have hnext : LowLevelLock.Checked r.2.pc :=
        LowLevelLock.checked_of_exec (l := ⟨p, _⟩) hc hword
      generalize r.2.pc = p' at hnext
      cases p' <;> exact hnext
  | cntTest =>
      cases h
      split <;> trivial
  | setOwner =>
      cases h
      split
      · trivial
      · exact checked_counted
  | setPid =>
      cases h
      exact checked_counted
  | decStore cnt =>
      cases h
      split <;> trivial
  | giveOwner u =>
      cases h
      split <;> trivial
  | _ =>
      cases h
      trivial

/-- The entry of a call. A transfer that needs no test of the owner is over at once. -/
theorem moves_enter {k : Call T} (h : enter I t k = some pc) :
    ∃ q, (atomicMutex K).Moves t (some (.inv k)) .idle a q a ∧ PhaseOf q pc := by
  cases k with
  | lock k =>
      cases h
      exact ⟨_, .inv _, rfl⟩
  | unlock =>
      cases h
      exact ⟨_, .inv _, rfl⟩
  | transfer th =>
      cases th with
      | none =>
          cases h
          exact ⟨_, .invEff rfl, rfl⟩
      | some u =>
          simp only [enter] at h
          split at h
          · next hut =>
            cases h
            have heff : (atomicMutex K).apply t (.transfer (some u)) .ok a = some a := if_pos hut
            exact ⟨_, .invEff heff, rfl⟩
          · split at h <;> cases h
            exact ⟨_, .inv _, rfl⟩

omit [DecidableEq T] in
/-- A test that leaves the process out finds the owner only. -/
theorem Inv.mem_of_test (hs : Inv I K s) (hproc : K.shared = false → ∀ t u, I.pid t = I.pid u)
    {k : Op T} (hop : OpOk I K t k) (hid : s.mem.ownerId = I.id t)
    (htest : K.testsPid k ≠ true) : t ∈ s.mem.owners := by
  have hshared : K.shared = false := by
    by_contra hyes
    have hyes' : K.shared = true := by simpa using hyes
    have hk := hop.1 hyes'
    rcases k with (_ | _ | _) | _ | _ <;> first | exact hk | exact htest hyes'
  rcases hs.owner_or_twin hid with ht | ⟨u, hne, -⟩
  · exact ht
  · exact absurd (hproc hshared u t) hne

/-- One access of a thread is nothing to the atomic mutex, or the effect of its call. -/
theorem Inv.moves (hs : Inv I K s) (hproc : K.shared = false → ∀ t u, I.pid t = I.pid u)
    (hI : K.shared = true → Distinguished I) (ha : Records s.mem a) {q : Phase (Call T) Code}
    (hq : PhaseOf q (s.loc t)) (hc : Checked (s.loc t))
    (h : exec I K t c s.mem (s.loc t) = some (m, pc)) :
    ∃ a' q', (atomicMutex K).Moves t (label c (s.loc t)) q a q' a' ∧ PhaseOf q' pc ∧
      Records m a' := by
  have hok := hs.pc t
  generalize s.loc t = pc₀ at h hok hq hc
  cases pc₀ with
  | idle =>
      obtain ⟨p, henter, hr⟩ := Option.map_eq_some_iff.mp h
      cases hr
      cases hq
      obtain ⟨q', hmove, hq'⟩ := moves_enter (K := K) (a := a) henter
      exact ⟨a, q', hmove, hq', ha⟩
  | testOwner k =>
      cases h
      cases hq
      by_cases hid : s.mem.ownerId = I.id t
      · rw [if_pos hid]
        by_cases htest : K.testsPid k = true
        · rw [if_pos htest]
          exact ⟨a, _, .stutter, rfl, ha⟩
        · -- The id alone decides, which is enough within one process.
          rw [if_neg htest]
          have ht := hs.mem_of_test hproc hok.2 hid htest
          obtain ⟨q', hmove, hq'⟩ := moves_owned (K := K) (ha.owns_iff.mpr ht) k
          exact ⟨a, q', hmove, hq', ha⟩
      · rw [if_neg hid]
        have ht : owns t a = false := by
          rw [← Bool.not_eq_true, ha.owns_iff]
          exact fun ht => hid (hok.1 ht).1
        obtain ⟨q', hmove, hq'⟩ := moves_unowned ht hok.2
        exact ⟨a, q', hmove, hq', ha⟩
  | testPid k =>
      obtain ⟨hrest, hshared, hop, htwin⟩ := hok
      cases h
      cases hq
      by_cases hpid : s.mem.shpid = I.pid t
      · rw [if_pos hpid]
        have ht := hs.owner_of_pid (hI hshared) htwin hpid
        obtain ⟨q', hmove, hq'⟩ := moves_owned (K := K) (ha.owns_iff.mpr ht) k
        exact ⟨a, q', hmove, hq', ha⟩
      · rw [if_neg hpid]
        have ht : owns t a = false := by
          rw [← Bool.not_eq_true, ha.owns_iff]
          exact fun ht => hpid ((hrest ht).2.1 hshared)
        obtain ⟨q', hmove, hq'⟩ := moves_unowned ht hop
        exact ⟨a, q', hmove, hq', ha⟩
  | cntTest =>
      obtain ⟨⟨ht, -, -, hsettled⟩, hkind⟩ := hok
      simp only [Settled, hkind] at hsettled
      obtain ⟨k, rfl⟩ := hq
      cases h
      split
      · next hcnt =>
        -- One more level does not fit into the count: the call fails.
        have hlimit : s.mem.levels + 1 = 2 ^ 32 := by
          rw [← hsettled.2]
          exact add_one_eq_zero_iff.mp hcnt
        refine ⟨a, _, moves_gives ?_, rfl, ha⟩
        rw [ha.of_mem ht, max_eq_right hsettled.1]
        simp [Attr.gives, hkind, hlimit]
      · exact ⟨a, _, .stutter, ⟨k, rfl⟩, ha⟩
  | incLoad =>
      cases h
      exact ⟨a, _, .stutter, hq, ha⟩
  | incStore cnt =>
      obtain ⟨⟨ht, -, -, hsettled⟩, hkind, rfl, hcnt⟩ := hok
      simp only [Settled, hkind] at hsettled
      obtain ⟨k, rfl⟩ := hq
      cases h
      have hlt : s.mem.levels + 1 < 2 ^ 32 := by
        rw [← hsettled.2, ← toNat_add_one hcnt]
        exact BitVec.isLt _
      have ha' := ha.of_mem ht
      rw [max_eq_right hsettled.1] at ha'
      -- The store to the count is one more level.
      refine ⟨some (t, s.mem.levels + 1), _, .eff ?_, rfl, ?_⟩
      · rw [ha']
        exact if_pos ⟨rfl, hkind, hlt⟩
      · rw [ha'] at ha
        exact ⟨ha.1, (max_eq_right (Nat.le_add_left 1 _)).symm⟩
  | lockWord p =>
      obtain ⟨r, hword, hr⟩ := Option.map_eq_some_iff.mp h
      cases hr
      cases hq
      -- The word decides, and the owner is recorded later.
      obtain ⟨a', hmove, ha'⟩ := hs.moves_onWord ha (.inl hok.2) hc hword
      have hne := LowLevelLock.exec_ne_idle (l := ⟨p, _⟩) hok.2 hword
      exact ⟨a', _, hmove, phaseOf_afterLock _ hne, ha'⟩
  | setOwner =>
      cases h
      cases hq
      refine ⟨a, _, .stutter, ?_, ha.congr rfl rfl⟩
      split
      · rfl
      · exact phaseOf_counted
  | setPid =>
      cases h
      cases hq
      exact ⟨a, _, .stutter, phaseOf_counted, ha.congr rfl rfl⟩
  | setCnt =>
      cases h
      cases hq
      exact ⟨a, _, .stutter, rfl, ha.congr rfl rfl⟩
  | decLoad =>
      cases h
      cases hq
      exact ⟨a, _, .stutter, rfl, ha⟩
  | decStore cnt =>
      obtain ⟨⟨ht, -, -, hsettled⟩, hkind, rfl⟩ := hok
      simp only [Settled, hkind] at hsettled
      cases h
      cases hq
      have ha' := ha.of_mem ht
      rw [max_eq_right hsettled.1] at ha'
      obtain ⟨n, hn⟩ : ∃ n, s.mem.cnt.toNat = n + 1 :=
        Nat.exists_eq_succ_of_ne_zero (by omega)
      have hlast := sub_one_eq_zero_iff hn
      split
      · next hzero =>
        -- The last level goes with the word, which is still taken.
        have hone : s.mem.levels = 1 := by
          rw [← hsettled.2, hn, hlast.mp hzero]
        exact ⟨a, _, .stutter, rfl, ha.congr rfl (by simp [hone])⟩
      · next hne =>
        -- Any other level goes with the store to the count.
        have hmany : s.mem.levels ≠ 1 := fun hone => hne (hlast.mpr (by omega))
        have heff : (atomicMutex K).apply t .unlock .ok a =
            some (some (t, s.mem.levels - 1)) := by
          show unlocked t a = _
          rw [ha']
          simp [unlocked, hmany]
        refine ⟨_, _, .eff heff, rfl, ?_⟩
        rw [ha'] at ha
        exact ⟨ha.1, (max_eq_right (by omega)).symm⟩
  | clearPid =>
      obtain ⟨ht, -, hlevels⟩ := hok
      cases h
      cases hq
      refine ⟨a, _, .stutter, rfl, ha.congr rfl ?_⟩
      cases hkind : K.kind <;> simp [hkind] at hlevels <;> simp [hlevels]
  | clearOwner =>
      cases h
      cases hq
      exact ⟨a, _, .stutter, rfl, ha.congr rfl rfl⟩
  | unlockWord p =>
      obtain ⟨r, hword, hr⟩ := Option.map_eq_some_iff.mp h
      cases hr
      cases hq
      have hp : LowLevelLock.InLock p ∨
          p = .unlockSwap ∧ t ∈ s.mem.owners ∧ s.mem.levels = 0 ∨ p = .unlockWake := by
        rcases hok with ⟨hp, ht, -, -, hlevels⟩ | ⟨hp, -⟩
        · exact .inr (.inl ⟨hp, ht, hlevels⟩)
        · exact .inr (.inr hp)
      obtain ⟨a', hmove, ha'⟩ := hs.moves_onWord ha hp hc hword
      refine ⟨a', _, ?_, phaseOf_afterUnlock _, ha'⟩
      exact hmove
  | giveOwner u =>
      obtain ⟨⟨ht, -⟩, hshared, hut, -⟩ := hok
      cases h
      cases hq
      have ha' := ha.of_mem ht
      -- The store to the owner field hands over the mutex with all its levels.
      have hgive : (atomicMutex K).apply t (.transfer (some u)) .ok a =
          some (some (u, max 1 s.mem.levels)) := by
        show (if u = t then some a else given t u a) = _
        rw [if_neg hut, ha']
        exact if_pos rfl
      refine ⟨_, _, .eff hgive, ?_, ?_⟩
      · simp only [hshared, Bool.false_eq_true, if_false]
        rfl
      · exact ⟨by simp [hs.erase_eq_empty ht], rfl⟩
  | givePid => exact hok.elim
  | ret r =>
      cases h
      cases hq
      exact ⟨a, _, .res r, rfl, ha⟩

/-- What is known of every reached state. -/
structure Known (I : Threads T) (K : Attr) (s : Global T (Mem T) (Pc T)) : Prop where
  inv : Inv I K s
  checked : ∀ t, Checked (s.loc t)

/-- The accesses simulate the atomic mutex. -/
theorem simulates (hproc : K.shared = false → ∀ t u, I.pid t = I.pid u)
    (hI : K.shared = true → Distinguished I) :
    (exec I K).Simulates IsInit (SharedUse K) label (atomicMutex K) (fun pc q => PhaseOf q pc)
      (Known I K) (fun s a => Records s.mem a) where
  init := by
    rintro s ⟨hmem, hloc⟩
    refine ⟨⟨none, rfl, ?_⟩, fun t => by rw [hloc t]; rfl⟩
    rw [hmem]
    rfl
  step := by
    intro s t c m pc a q hknown ha hq _ he
    obtain ⟨a', q', hmove, hq', ha'⟩ :=
      hknown.inv.moves hproc hI ha hq (hknown.checked t) he
    exact ⟨a', q', hmove, hq', ha'⟩

/-- Every history of a recursive or errorcheck mutex is a history of the atomic mutex with an
owner and levels. The ids must tell the threads apart: they are of one process, or
distinguished, and then the mutex is used with `lock`, `trylock` and `unlock` only. -/
theorem mutex_linearizable (hproc : K.shared = false → ∀ t u, I.pid t = I.pid u)
    (hI : K.shared = true → Distinguished I) {H : List (T × Event (Call T) Code)}
    (h : (exec I K).History IsInit (SharedUse K) label H s) :
    (atomicMutex K).Linearizable H := by
  refine h.linearizable (fun s hs => ⟨inv_of_reach (fun _ _ => id) hproc hI hs, ?_⟩)
    (simulates hproc hI)
  refine Exec.invariant_loc (fun s t hs => ?_) (fun t c m pc m' pc' => checked_of_exec) hs
  rw [hs.2 t]
  trivial

/-- The thread 0 locks a recursive mutex twice and transfers it to the thread 1, which
sleeps in its lock call. The deadline of the thread 1 passes while it is the owner. -/
theorem mutex_linearizable_transfer :
    (atomicMutex (T := Fin 3) ⟨.recursive, false⟩).Linearizable
      [(0, .inv (.lock .lock)), (0, .res .ok), (0, .inv (.lock .trylock)), (0, .res .ok),
        (1, .inv (.lock (.timedlock ⟨5, 0⟩))), (0, .inv (.transfer (some 1))), (0, .res .ok),
        (1, .res .etimedout), (1, .inv .unlock), (1, .res .ok)] := by
  have hrun : ∃ s, (exec Threads.three ⟨.recursive, false⟩).History IsInit
      (SharedUse ⟨.recursive, false⟩) label
      [(0, .inv (.lock .lock)), (0, .res .ok), (0, .inv (.lock .trylock)), (0, .res .ok),
        (1, .inv (.lock (.timedlock ⟨5, 0⟩))), (0, .inv (.transfer (some 1))), (0, .res .ok),
        (1, .res .etimedout), (1, .inv .unlock), (1, .res .ok)] s :=
    Exec.exists_history_run (s := ⟨⟨⟨0, ∅⟩, 0, 0, 0, ∅, 0⟩, fun _ => .idle⟩) ⟨rfl, fun _ => rfl⟩
      [(0, { call := .lock .lock }), (0, {}), (0, {}), (0, {}), (0, {}), (0, {}), (0, {}),
        (0, { call := .lock .trylock }), (0, {}), (0, {}), (0, {}), (0, {}), (0, {}),
        (1, { call := .lock (.timedlock ⟨5, 0⟩) }), (1, {}), (1, {}), (1, {}), (1, {}), (1, {}),
        (0, { call := .transfer (some 1) }), (0, {}), (0, {}), (0, {}),
        (1, { ends := some .timedout }), (1, {}),
        (1, { call := .unlock }), (1, {}), (1, {}), (1, {}), (1, {})] (by decide)
  obtain ⟨s, hs⟩ := hrun
  exact mutex_linearizable (fun _ _ _ => rfl) (fun h => by cases h) hs

end Hlpt.Mutex
