import Hlpt.Recovery.Model
import Hlpt.Robust.Exclusion

/-!
# `Hlpt.Recovery.Access`: where an inconsistent mutex is recorded

A process dies while one of its threads holds a robust mutex. From then on the mutex is
inconsistent, until `pthread_mutex_consistent` returns 0. The fact is written in one place
after the other, and `Recorded` says in which: the id of the dead process in the word, the
local variable of the thread that took the word over, `LLL_DEAD_OWNER` in the word, and
at last `NOTRECOVERABLE_ID` in `__owner_id`, which stays there (`act_unrecoverable`).

The mutex and the holds of the threads are a state of `Hlpt.Robust` (`lower`), whose
invariant is the first clause of `Inv`. The lemmas here are about one access of one thread;
`Hlpt.Recovery.Invariant` has the steps of the machine.
-/

set_option autoImplicit false

namespace Hlpt.Recovery

open Hlpt.Lib Hlpt.Robust

universe u

variable {T : Type u}

/-! ### The state below -/

/-- The control point in `Hlpt.Robust`. The holder's calls are outside of its functions. -/
def Pc.lower : Pc T → Robust.Pc
  | lib p => p
  | _ => .idle

/-- The state of `Hlpt.Robust`. -/
def lower (s : Global T (Mem T) (Local T)) : Global T (Robust.Mem T) Robust.Local :=
  ⟨s.mem.mutex, fun t => ⟨(s.loc t).pc.lower, s.mem.holds t⟩⟩

/-- The process of the thread goes on. -/
def Live (E : Env T) (m : Mem T) (t : T) : Prop := m.mutex.dead (E.pid t) = false

/-! ### The invariant -/

/-- The lock call that the control point belongs to, and the code that it may return. -/
def CallOk (E : Env T) (call : LockCall) : Robust.Pc → Prop
  | .checkUnrecoverable k | .checkOwner k | .checkPid k | .spinLoad k | .spinCas k
  | .spinMark k _ | .waitLoad k | .waitCas k | .waitValid k _ | .waitSteal k _
  | .waitSleep k _ | .asleep k => k = call
  | .tryLoad | .tryCas | .tryValid _ | .trySteal _ => call = .trylock
  | .relockTest | .relockLoad | .relockStore _ => E.kind = .recursive
  | .lockRet r =>
      match r with
      | .ok | .eownerdead | .enotrecoverable => True
      | .etimedout => ∃ tsp, call = .timedlock tsp
      | .ebusy => call = .trylock
      | .edeadlk => E.kind = .errorcheck
      | .eagain => E.kind = .recursive
      | _ => False
  | _ => True

/-- A call that began on a wrecked mutex is refused by its first test. -/
def LatePc : Pc T → Prop
  | .lib .idle | .lib (.checkUnrecoverable _) | .lib (.lockRet .enotrecoverable) => True
  | _ => False

/-- A lock call past its first test that did not get the mutex. -/
def Seeking : Robust.Pc → Prop
  | .checkOwner _ | .checkPid _ | .relockTest | .relockLoad | .relockStore _ | .spinLoad _
  | .spinCas _ | .spinMark .. | .waitLoad _ | .waitCas _ | .waitValid .. | .waitSteal ..
  | .waitSleep .. | .asleep _ | .tryLoad | .tryCas | .tryValid _ | .trySteal _ => True
  | .lockRet r => r ≠ .ok ∧ r ≠ .eownerdead ∧ r ≠ .enotrecoverable
  | _ => False

/-- A thread that shares its id with a thread of another process is alone in its own. -/
def Apart (E : Env T) : Prop :=
  E.kind = .errorcheck → ∀ a b c, E.pid a ≠ E.pid b → E.id a = E.id b → E.pid c = E.pid b → c = b

/-- What a control point of a thread of a live process says beside `Robust.PcOk`. -/
def LibOk (E : Env T) (t : T) (ownerId : BitVec 32) (depth : ℕ) : Robust.Pc → Prop
  | .setOwner _ => ownerId ≠ NOTRECOVERABLE_ID
  | .unDead | .unSetOwner _ => ownerId = E.id t
  | .lockRet .edeadlk => Apart E → 0 < depth
  | .lockRet .ok | .lockRet .eownerdead => depth = 0
  | _ => True

/-- The same for every control point. -/
def PcOk (E : Env T) (t : T) (m : Mem T) : Pc T → Prop
  | .lib p => LibOk E t m.mutex.ownerId (m.holds t) p
  | .giveTestOwner u | .giveTestPid u | .giveOwner u =>
      0 < m.holds t ∧ u ≠ t ∧ E.pid u = E.pid t
  | .giveRet _ => True
  | .conLoad | .conCas _ | .conOwner | .conCnt | .conRet _ => 0 < m.holds t

/-- The thread that has the word knows that the mutex is inconsistent, or will find it in
the word. -/
def Marked (m : Robust.Mem T) : Pc T → Prop
  | .lib (.taken d) | .lib (.setOwner d) | .lib (.setCnt d) => d = true
  | .lib .deadLoad => True
  | .lib (.deadStore v) => v &&& LLL_DEAD_OWNER ≠ 0
  | .lib (.lockRet .ok) => False
  | .lib (.unSetOwner v) => v = NOTRECOVERABLE_ID
  | .lib .unWord | .lib .unSetWake | .lib (.unCas _) => False
  | .conOwner | .conCnt | .conRet .ok => True
  | _ => m.lock &&& LLL_DEAD_OWNER ≠ 0

/-- The mutex remembers that it is inconsistent. -/
def Recorded (E : Env T) (s : Global T (Mem T) (Local T)) : Prop :=
  s.mem.mutex.ownerId = NOTRECOVERABLE_ID ∨
  ∃ u, s.mem.mutex.taker = some u ∧ (Live E s.mem u → Marked s.mem.mutex (s.loc u).pc)

/-- The fields, the ghosts and the threads agree. -/
structure Inv (E : Env T) (s : Global T (Mem T) (Local T)) : Prop where
  base : Robust.Inv E (lower s)
  one : ∀ t, s.mem.holds t ≤ 1
  pc : ∀ t, Live E s.mem t → PcOk E t s.mem (s.loc t).pc
  call : ∀ t, CallOk E (s.loc t).call (s.loc t).pc.lower
  seek : ∀ t, Live E s.mem t → s.mem.mutex.taker = some t → s.mem.holds t = 0 →
    ¬ Seeking (s.loc t).pc.lower
  late : ∀ t, Live E s.mem t → (s.loc t).late = true → s.mem.wrecked = true ∧ LatePc (s.loc t).pc
  lost : s.mem.lost = true → Recorded E s
  wrecked : s.mem.wrecked = true → s.mem.mutex.ownerId = NOTRECOVERABLE_ID

variable {E : Env T} {t u : T} {c : Robust.Choice} {m m' : Robust.Mem T} {p p' : Robust.Pc}
  {d d' : ℕ}

/-! ### One access to the mutex -/

/-- An access stays in its call, and decides for a code of that call. -/
theorem callOk_next {call : LockCall}
    (h : Robust.act E t c m ⟨p, d⟩ = some (m', ⟨p', d'⟩)) (hp : CallOk E call p)
    (hbegins : begins p' = none) : CallOk E call p' := by
  cases Robust.step_of_act h with
  | move hm =>
    cases hm with
    | call => cases hbegins
    | tryOwner | tryPid => exact hp.symm
    | relock hk | deadlk hk => exact hk
    | expired | timedout => exact ⟨_, hp.symm⟩
    | _ => first | exact hp | trivial
  | spinMark => exact hp
  | _ => trivial

/-- No thread of a mutex that is not recursive counts more than one hold. -/
theorem depth_le_one (h : Robust.act E t c m ⟨p, d⟩ = some (m', ⟨p', d'⟩))
    (hbase : Robust.PcOk E t m ⟨p, d⟩) (hlib : LibOk E t m.ownerId d p) (hd : d ≤ 1) :
    d' ≤ 1 := by
  cases Robust.step_of_act h with
  | unlock => exact Nat.le_trans (Nat.sub_le d 1) hd
  | lockTaken hr =>
    have hzero : d = 0 := by rcases hr with rfl | rfl <;> exact hlib
    exact (congrArg (· + 1) hzero).le
  | unFails => cases hbase.1
  | _ => exact hd

/-- Only the thread that took the word and the one that gives it back store to
`__owner_id`. -/
theorem ownerId_next (h : Robust.act E t c m ⟨p, d⟩ = some (m', ⟨p', d'⟩)) :
    m'.ownerId = m.ownerId ∨ (∃ b, p = .setOwner b) ∨ ∃ v, p = .unSetOwner v := by
  cases Robust.step_of_act h with
  | setOwner => exact .inr (.inl ⟨_, rfl⟩)
  | unSetOwner => exact .inr (.inr ⟨_, rfl⟩)
  | _ => exact .inl rfl

/-- A mutex that is not recoverable stays so. -/
theorem act_unrecoverable (h : Robust.act E t c m ⟨p, d⟩ = some (m', ⟨p', d'⟩))
    (hlib : LibOk E t m.ownerId d p) (hm : m.ownerId = NOTRECOVERABLE_ID) :
    m'.ownerId = NOTRECOVERABLE_ID := by
  rcases ownerId_next h with heq | ⟨b, rfl⟩ | ⟨v, rfl⟩
  · rw [heq, hm]
  · exact absurd hm hlib
  · have hid : m.ownerId = E.id t := hlib
    exact absurd (hid.symm.trans hm) (E.id_ne_notrecoverable t)

/-- A thread that finds its id and its process is the holder, if the threads are apart. -/
theorem holds_of_checkPid {k : LockCall} (hapart : Apart E) (hkind : E.kind = .errorcheck)
    (hbase : Robust.PcOk E t m ⟨.checkPid k, d⟩) (hfree : m.taker = none ↔ m.lock = 0)
    (hword : ∀ u, m.taker = some u → m.lock &&& LLL_OWNER_MASK = E.pid u)
    (hp : m.lock &&& LLL_OWNER_MASK = E.pid t) : 0 < d := by
  rcases hbase.2 with hd | ⟨hnt, a, hat, ha⟩
  · exact hd
  · have hne : m.taker ≠ none := fun hn => E.ne_zero_of_masked hp (hfree.mp hn)
    obtain ⟨u, hu⟩ := Option.ne_none_iff_exists'.mp hne
    have hut : E.pid u = E.pid t := (hword u hu).symm.trans hp
    have hpa : E.pid a ≠ E.pid t := fun hp' => hat (E.unique a t hp' ha)
    exact absurd (hu.trans (congrArg some (hapart hkind a t u hpa ha hut))) hnt

/-- What a step makes of the thread that moves. -/
theorem libOk_next {call : LockCall} (h : Robust.act E t c m ⟨p, d⟩ = some (m', ⟨p', d'⟩))
    (hbase : Robust.PcOk E t m ⟨p, d⟩) (hlib : LibOk E t m.ownerId d p) (hcall : CallOk E call p)
    (hk : E.kind ≠ .recursive) (hfree : m.taker = none ↔ m.lock = 0)
    (hword : ∀ u, m.taker = some u → m.lock &&& LLL_OWNER_MASK = E.pid u) :
    LibOk E t m'.ownerId d' p' := by
  cases Robust.step_of_act h with
  | move hm =>
    cases hm with
    | deadlk hkind hp =>
      exact fun hapart => holds_of_checkPid hapart hkind hbase hfree hword hp
    | taken hm => exact hm
    | unDead | unClean => exact hlib
    | _ => trivial
  | relockStore => exact absurd hcall hk
  | setCnt | deadStore | unStoreLast => exact hbase.2.1
  | _ => trivial

/-- A call that began on a wrecked mutex goes no further than its first test. -/
theorem latePc_next (h : Robust.act E t c m ⟨p, d⟩ = some (m', ⟨p', d'⟩))
    (hbase : Robust.PcOk E t m ⟨p, d⟩) (hlate : LatePc (.lib p : Pc T))
    (hm : m.ownerId = NOTRECOVERABLE_ID) : LatePc (.lib p' : Pc T) := by
  cases Robust.step_of_act h with
  | move hmv =>
    cases hmv with
    | call | unrecoverable => trivial
    | checkUnrecoverable hne => exact absurd hm hne
    | _ => exact hlate.elim
  | unlock hd =>
    -- Who has nothing cannot unlock.
    exact absurd ((hbase.1 hd).2.1.symm.trans hm) (E.id_ne_notrecoverable t)
  | lockTaken | lockFails => trivial
  | _ => exact hlate.elim

/-- A lock call that goes on looking for the mutex did so before, and did not take the
word. -/
theorem seeking_next (h : Robust.act E t c m ⟨p, d⟩ = some (m', ⟨p', 0⟩))
    (hbase : Robust.PcOk E t m ⟨p, d⟩) (ht : m'.taker = some t) (hp : Seeking p') :
    Seeking p ∧ m.taker = some t ∧ d = 0 := by
  generalize hz : (0 : ℕ) = z at h
  cases Robust.step_of_act h with
  | move hm =>
    cases hm with
    | checkUnrecoverable hne =>
      -- Who has the word without the mutex is refused here.
      exact absurd (hbase.2 hz.symm ht) hne
    | unrecoverable | refused => exact absurd rfl hp.2.2
    | _ => first | exact hp.elim | exact ⟨trivial, ht, rfl⟩
  | relockStore | setCnt => exact absurd rfl hp.1
  | spinMark => exact ⟨trivial, ht, rfl⟩
  | deadStore => exact absurd rfl hp.2.1
  | _ => exact hp.elim

/-- The thread that has the word keeps the mark, or stores it in `__owner_id`. -/
theorem marked_next {call : LockCall}
    (h : Robust.act E t c m ⟨p, d⟩ = some (m', ⟨p', d'⟩)) (hbase : Robust.PcOk E t m ⟨p, d⟩)
    (hcall : CallOk E call p) (hk : E.kind ≠ .recursive) (hlive : m.dead (E.pid t) = false)
    (hfree : m.taker = none ↔ m.lock = 0)
    (hword : ∀ u, m.taker = some u → m.lock &&& LLL_OWNER_MASK = E.pid u)
    (ht : m.taker = some t) (hmark : Marked m (.lib p : Pc T)) :
    m'.ownerId = NOTRECOVERABLE_ID ∨
      m'.taker = some t ∧ Marked m' (.lib p' : Pc T) := by
  have hlock : m.lock ≠ 0 := fun h0 => by
    rw [hfree.mpr h0] at ht
    cases ht
  cases Robust.step_of_act h with
  | move hm =>
    cases hm with
    | relock hkind => exact absurd hkind hk
    | relockFull | relockTest | relockLoad => exact absurd hcall hk
    | refused howner => exact .inl howner
    | deadLoad =>
      refine .inr ⟨ht, ?_⟩
      show (m.lock ||| LLL_DEAD_OWNER) &&& LLL_DEAD_OWNER ≠ 0
      rw [or_and_self]
      decide
    | unDead => exact .inr ⟨ht, rfl⟩
    | unClean h0 => exact absurd h0 hmark
    | unWaited | unWord | unAgain => exact hmark.elim
    | _ => exact .inr ⟨ht, hmark⟩
  | relockStore => exact absurd hcall hk
  | spinTake h0 | waitTake h0 | tryTake h0 => exact absurd h0 hlock
  | spinMark => exact .inr ⟨ht, or_and_ne_zero hmark⟩
  | waitSteal | trySteal =>
    -- The process in the word is the thread's own, and lives.
    obtain ⟨-, -, hdead⟩ := hbase
    rw [hword t ht, hlive] at hdead
    cases hdead
  | setCntDead => exact .inr ⟨ht, trivial⟩
  | setCnt => cases hmark
  | lockTaken hr =>
    rcases hr with rfl | rfl
    · exact hmark.elim
    · exact .inr ⟨ht, hmark⟩
  | @lockFails r hr =>
    refine .inr ⟨ht, ?_⟩
    cases r <;> first | exact hmark | exact hmark.elim
  | unSetOwner => exact .inl hmark
  | unSetWake | unCas => exact hmark.elim
  | _ => exact .inr ⟨ht, hmark⟩

/-- The word of a dead process stays, or is taken over by a thread that knows. -/
theorem steal_next (h : Robust.act E t c m ⟨p, d⟩ = some (m', ⟨p', d'⟩))
    (hbase : Robust.PcOk E t m ⟨p, d⟩) (hfree : m.taker = none ↔ m.lock = 0)
    (hu : m.taker = some u) (hut : u ≠ t) :
    m'.taker = some u ∨ m'.taker = some t ∧ p' = .taken true := by
  have hlock : m.lock ≠ 0 := fun h0 => by
    rw [hfree.mpr h0] at hu
    cases hu
  have hne : m.taker ≠ some t := fun ht => hut (Option.some.inj (hu.symm.trans ht))
  cases Robust.step_of_act h with
  | spinTake h0 | waitTake h0 | tryTake h0 => exact absurd h0 hlock
  | waitSteal | trySteal => exact .inr ⟨rfl, rfl⟩
  | unSetWake | unCas => exact absurd hbase.1 hne
  | _ => exact .inl hu

/-- The mark is in the word or in a local variable, so another thread leaves it. -/
theorem Marked.frame {pc : Pc T} (h : Marked m pc)
    (hbit : m.lock &&& LLL_DEAD_OWNER ≠ 0 → m'.lock &&& LLL_DEAD_OWNER ≠ 0) : Marked m' pc := by
  cases pc with
  | lib p =>
      cases p with
      | taken b | setOwner b | setCnt b | deadLoad | deadStore v | unSetOwner v | unWord
      | unSetWake | unCas val => exact h
      | lockRet r =>
          cases r with
          | ok => exact h
          | _ => exact hbit h
      | _ => exact hbit h
  | conOwner | conCnt => exact h
  | conRet r =>
      cases r with
      | ok => exact h
      | _ => exact hbit h
  | _ => exact hbit h

/-- A control point that needs the fields as they are is one of the taker. -/
theorem LibOk.frame {ownerId : BitVec 32} (h : LibOk E u m.ownerId d p)
    (hbase : Robust.PcOk E u m ⟨p, d⟩) (hid : ownerId = m.ownerId ∨ m.taker ≠ some u)
    (hd : d' = d ∨ m.taker ≠ some u ∧ 0 < d') : LibOk E u ownerId d' p := by
  cases p with
  | setOwner b | unDead | unSetOwner v =>
      obtain rfl := hid.resolve_right (not_not.mpr hbase.1)
      exact h
  | lockRet r =>
      cases r with
      | ok | eownerdead =>
          simp only [Robust.PcOk, reduceCtorEq, or_false, false_or, if_true] at hbase
          obtain rfl := hd.resolve_right fun hn => hn.1 hbase.1
          exact h
      | edeadlk =>
          intro hapart
          rcases hd with rfl | ⟨-, hd'⟩
          · exact h hapart
          · exact hd'
      | _ => trivial
  | _ => trivial

/-- What the control point of a thread says stays when another thread moves. -/
theorem PcOk.frame {m m' : Mem T} {pc : Pc T} (h : PcOk E u m pc)
    (hbase : Robust.PcOk E u m.mutex ⟨pc.lower, m.holds u⟩)
    (hid : m'.mutex.ownerId = m.mutex.ownerId ∨ m.mutex.taker ≠ some u)
    (hholds : m'.holds u = m.holds u ∨ m.mutex.taker ≠ some u ∧ 0 < m'.holds u) :
    PcOk E u m' pc := by
  have hpos : 0 < m.holds u → 0 < m'.holds u := fun hd => by
    rcases hholds with heq | ⟨-, hd'⟩
    · rwa [heq]
    · exact hd'
  cases pc with
  | lib p => exact LibOk.frame h hbase hid hholds
  | giveTestOwner v | giveTestPid v | giveOwner v => exact ⟨hpos h.1, h.2⟩
  | giveRet r => trivial
  | conLoad | conCas val | conOwner | conCnt | conRet r => exact hpos h

/-- A thread that does not have the word is given the mutex, wherever it is. -/
theorem pcOk_given (hpc : Robust.PcOk E u m ⟨p, d⟩) (hnt : m.taker ≠ some u)
    (hm : m'.taker = some u ∧ m'.ownerId = E.id u ∧ m'.cnt.toNat = d') (hd : 0 < d')
    (hdead : m'.dead = m.dead) : Robust.PcOk E u m' ⟨p, d'⟩ := by
  have hrest : Rest E u m' d' := ⟨fun _ => hm, fun h0 => absurd h0 hd.ne'⟩
  cases p with
  | checkPid k => exact ⟨hrest, .inl hd⟩
  | spinMark k val | waitValid k val | tryValid val => exact ⟨hrest, hpc.2⟩
  | waitSteal k val | trySteal val => exact ⟨hrest, hpc.2.1, hdead ▸ hpc.2.2⟩
  | relockTest => exact absurd hpc.2 (hpc.1.depth_eq_zero hnt ▸ Nat.lt_irrefl 0)
  | relockLoad | relockStore v => exact absurd hpc.2.1 (hpc.1.depth_eq_zero hnt ▸ Nat.lt_irrefl 0)
  | lockRet r =>
      unfold Robust.PcOk at hpc ⊢
      simp only at hpc ⊢
      split
      · rename_i hr
        rw [if_pos hr] at hpc
        exact absurd hpc.1 hnt
      · exact hrest
  | taken b | setOwner b | setCnt b | deadLoad | deadStore v | unUnrecoverable | unOwner | unPid
  | unLoad | unStore v | unDead | unSetOwner v | unWord | unSetWake | unCas val =>
      exact absurd hpc.1 hnt
  | unRet r => exact ⟨hpc.1, hrest⟩
  | _ => exact hrest

/-- The mark in the word serves a thread that does not have the word yet. -/
theorem marked_of_word {pc : Pc T} (hpc : Robust.PcOk E u m ⟨pc.lower, d⟩)
    (hnt : m.taker ≠ some u) (hcon : pc ≠ .conOwner ∧ pc ≠ .conCnt ∧ pc ≠ .conRet .ok)
    (hbit : m.lock &&& LLL_DEAD_OWNER ≠ 0) : Marked m pc := by
  cases pc with
  | lib p =>
      cases p with
      | taken b | setOwner b | setCnt b | deadLoad | deadStore v | unSetOwner v | unWord
      | unSetWake | unCas val => exact absurd hpc.1 hnt
      | lockRet r =>
          cases r with
          | ok =>
              simp only [Pc.lower, Robust.PcOk, true_or, if_true] at hpc
              exact absurd hpc.1 hnt
          | _ => exact hbit
      | _ => exact hbit
  | conOwner => exact absurd rfl hcon.1
  | conCnt => exact absurd rfl hcon.2.1
  | conRet r =>
      cases r with
      | ok => exact absurd rfl hcon.2.2
      | _ => exact hbit
  | _ => exact hbit

end Hlpt.Recovery
