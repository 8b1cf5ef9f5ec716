import Hlpt.LowLevelLock.Linear
import Hlpt.Requeue.Moves

/-!
# `Hlpt.Requeue.Linear`: a mutex and its condition variable are an atomic monitor

A wait takes effect twice, when it gives the mutex back and when it has it again, so its
callers see two calls: `wait k`, which ends `parked`, and `resume`. Everything between the
two, the registration, the sleep on the sequence, the requeue to the lock word and the sleep
there, is no step of the atomic monitor.

The monitor does not say which signal ends which wait. A wait may end at any time, and
`pthread_cond_signal` and `pthread_cond_broadcast` are nothing to it: a waiter registers
only after it has given the mutex back, and a signal between the two does not reach it.

* `monitor_linearizable`: every history of the mutex functions, of the four waits and of
  `cleanup`, `pthread_cond_signal` and `pthread_cond_broadcast` is a history of `monitor`,
  also the histories in which a broadcast strands a waiter.
-/

set_option autoImplicit false

namespace Hlpt.Requeue

open Hlpt.Lib
open Hlpt.LowLevelLock (ownedLock)

universe u

/-! ### The atomic monitor -/

/-- What a thread asks of the monitor: a call, or the mutex at the end of its wait. -/
inductive MonitorCall (T : Type u) where
  | call (o : Call T)
  | resume
  deriving DecidableEq, Repr

/-- What it gets: the result of the call, a wait that has begun, or the mutex for the
handlers of a thread that was cancelled. -/
inductive MonitorRet where
  | ret (r : Cond.Ret)
  | parked
  | cancelled
  deriving DecidableEq, Repr

/-- The owner of the mutex, and the waits that the threads are in. -/
structure Monitor (T : Type u) where
  owner : Option T
  waits : T → Option WaitCall

/-- The results of a wait that has the mutex again. `none` is a wait that was cancelled, and
only a `pthread` wait has the mutex then. The waits of the Hurd do not report a timeout, and
only `pthread_cond_timedwait` returns a code of the kernel. -/
def WaitCall.returns (k : WaitCall) : Option Cond.Ret → Bool
  | none => !k.hurd
  | some (.code .ok) => true
  | some (.code .etimedout) | some (.kern .invalidArgument) | some (.kern .interrupted) =>
      !k.hurd && k.tsp.isSome
  | _ => false

variable {T : Type u} [DecidableEq T]

/-- A wait that has the mutex again returns `r`, or its thread is in its handlers. -/
def resumed : Option Cond.Ret → MonitorRet
  | none => .cancelled
  | some r => .ret r

/-- The monitor after a wait of `t` got the mutex back, to return `r`. -/
def Monitor.resume (a : Monitor T) (t : T) (r : Option Cond.Ret) : Option (Monitor T) :=
  if a.owner = none ∧ (a.waits t).any (·.returns r) then
    some ⟨some t, Function.update a.waits t none⟩
  else none

/-- The atomic monitor. The mutex is the one of `Hlpt.LowLevelLock`. Only its owner may wait,
and a wait that it refuses leaves it the mutex. A wait that was cancelled on the Hurd ends
with `EINTR` and without the mutex. -/
def monitor : Object T (Monitor T) (MonitorCall T) MonitorRet where
  init a := a = ⟨none, fun _ => none⟩
  apply t o r a :=
    match o, r with
    | .call .lock, .ret (.code r) =>
        (ownedLock.apply t .lllLock r a.owner).map fun owner => { a with owner := owner }
    | .call .trylock, .ret (.code r) =>
        (ownedLock.apply t .lllTrylock r a.owner).map fun owner => { a with owner := owner }
    | .call (.timedlock tsp), .ret (.code r) =>
        (ownedLock.apply t (.lllAbstimedLock tsp) r a.owner).map
          fun owner => { a with owner := owner }
    | .call .unlock, .ret (.code r) =>
        (ownedLock.apply t .lllUnlock r a.owner).map fun owner => { a with owner := owner }
    | .call (.wait k), .parked =>
        if a.owner = some t ∧ k.tsp.any Timespec.badNsec = false then
          some ⟨none, Function.update a.waits t (some k)⟩
        else none
    | .call (.wait k), .ret (.code .einval) =>
        if a.owner = some t ∧ k.tsp.any Timespec.badNsec = true then some a else none
    | .call (.wait k), .ret (.code .eintr) =>
        if a.owner = some t ∧ k.tsp.any Timespec.badNsec = false ∧ k.hurd = true then some a
        else none
    | .call .signal, .ret (.code .ok) | .call .broadcast, .ret (.code .ok)
    | .call (.cancelHurd _), .ret (.code .ok) => some a
    | .resume, .ret (.code .eintr) =>
        if (a.waits t).any WaitCall.hurd then
          some { a with waits := Function.update a.waits t none }
        else none
    | .resume, .ret r => a.resume t (some r)
    | .resume, .cancelled => a.resume t none
    | _, _ => none

/-- A call on the lock word as one on the mutex. -/
def mutexCall : LowLevelLock.Call → MonitorCall T
  | .lllLock => .call .lock
  | .lllTrylock => .call .trylock
  | .lllAbstimedLock tsp => .call (.timedlock tsp)
  | .lllUnlock => .call .unlock

/-- How far a mutex function is. -/
def mutexPhase : Phase LowLevelLock.Call Code → Phase (MonitorCall T) MonitorRet
  | .idle => .idle
  | .called o => .called (mutexCall o)
  | .done r => .done (.ret (.code r))

/-- How far a thread is with its call. Between the two calls of a wait it is idle. -/
def phase : Pc T → Phase (MonitorCall T) MonitorRet
  | .mutex p => mutexPhase (LowLevelLock.phase p)
  | .spinLock k | .testPending k | .checkMutex k | .storeMutex k | .unlock k .unlockSwap =>
      .called (.call (.wait k))
  | .refuse => .done (.ret (.code .eintr))
  | .unlock _ _ | .regLoad _ | .regCas .. | .setHook .. | .cancelpointBegin .. => .done .parked
  | .relock _ (.lockTest none) => .idle
  | .relock _ _ => .called .resume
  | .mark r => .done (resumed r)
  | .sigLoad | .sigCas .. => .called (.call .signal)
  | .bcLoad | .bcCas .. => .called (.call .broadcast)
  | .cancelSet u => .called (.call (.cancelHurd u))
  | .sigWake | .bcMutex | .bcRequeue | .bcWake | .hookAdd | .hookWake => .done (.ret (.code .ok))
  | .ret r => .done (.ret r)
  | _ => .idle

/-- The wait that a thread is in, at its place: it gave the mutex back for it, and does not
have it again. -/
def AtWait : Pc T → Option WaitCall → Prop
  | .unlock _ .unlockSwap, w => w = none
  | .unlock k _, w | .regLoad k, w | .regCas k .., w | .clock k .., w | .wait k _, w
  | .asleep k _, w | .uncount k _, w => w = some k
  | .setHook k _, w | .spinUnlock k _, w | .spinRelock k, w | .clearHook k, w
  | .testCancel k, w | .leave k _, w => w = some k ∧ k.hurd = true
  | .cancelpointBegin k _, w | .cancelpointEnd k .., w => w = some k ∧ k.hurd = false
  | .cleanLoad _, w | .cleanCas .., w | .cleanWake, w => ∃ k, w = some k ∧ k.returns none = true
  | .relock r _, w => ∃ k, w = some k ∧ k.returns r = true
  | _, w => w = none

/-- The event of a step. A wait is parked when its unlock and its registration are over, and
resumes when it calls `lll_lock`, or when it leaves without it. -/
def label (c : Choice T) (l : Local T) : Option (Event (MonitorCall T) MonitorRet) :=
  match l.pc with
  | .idle => some (.inv (.call c.call))
  | .setHook .. | .cancelpointBegin .. => some (.res .parked)
  | .relock _ (.lockTest none) | .leave _ true => some (.inv .resume)
  | .mark none => some (.res .cancelled)
  | .ret r => some (.res (.ret r))
  | _ => none

/-! ### What a thread knows of itself -/

/-- Between the entry of a function of the lock and its return. -/
def Busy : LowLevelLock.Pc → Prop
  | .idle | .ret _ => False
  | _ => True

/-- A wait whose deadline was checked. -/
def WaitCall.Good (k : WaitCall) : Prop := k.tsp.any Timespec.badNsec = false

/-- The place of a thread fits what it has checked. -/
def Fits : Pc T → Prop
  | .mutex p => Busy p
  | .spinLock k | .testPending k => k.Good ∧ k.hurd = true
  | .checkMutex k | .storeMutex k => k.Good
  | .unlock k p => k.Good ∧ (p = .unlockSwap ∨ p = .unlockWake)
  | _ => True

/-- What a thread knows of itself: it holds the mutex that it unlocks, and its place fits. -/
structure Sound (l : Local T) : Prop where
  unlocking : l.pc.lower = .unlockSwap → l.holds = true
  entitled : Entitled l
  checked : LowLevelLock.Checked l.pc.lower
  fits : Fits l.pc

variable {t : T} {c : Choice T} {m m' : Mem T} {l l' : Local T} {pc pc' : Pc T}
  {k : WaitCall} {sw : BitVec 32} {ret : KernReturn} {a : Monitor T}

/-- A place outside of the lock, where the thread needs no mutex. -/
structure Loose (pc : Pc T) : Prop where
  lower : pc.lower = .idle ∨ pc.lower = .lockTest none
  entitled : ∀ b, Entitled ⟨pc, b⟩
  fits : Fits pc

omit [DecidableEq T] in
theorem Loose.sound (h : Loose pc) (b : Bool) : Sound ⟨pc, b⟩ where
  unlocking hl := by
    rcases h.lower with hpc | hpc <;> rw [hpc] at hl <;> cases hl
  entitled := h.entitled b
  checked := by
    show LowLevelLock.Checked pc.lower
    rcases h.lower with hpc | hpc <;> rw [hpc] <;> trivial
  fits := h.fits

namespace WaitCall

omit [DecidableEq T] in
theorem loose_registered : Loose (k.registered sw : Pc T) := by
  rw [registered]
  split <;> exact ⟨.inl rfl, fun _ => trivial, trivial⟩

omit [DecidableEq T] in
theorem loose_block : Loose (k.block sw : Pc T) := by
  rw [block]
  split <;> exact ⟨.inl rfl, fun _ => trivial, trivial⟩

omit [DecidableEq T] in
theorem loose_uncounted : Loose (k.uncounted ret : Pc T) := by
  rcases k with ⟨hurd, tsp⟩
  cases hurd with
  | true => exact ⟨.inl rfl, fun _ => trivial, trivial⟩
  | false => exact ⟨.inr rfl, fun _ => .test, trivial⟩

omit [DecidableEq T] in
theorem loose_ended : Loose (k.ended ret : Pc T) := by
  rw [ended]
  split
  · exact loose_uncounted
  · exact ⟨.inl rfl, fun _ => trivial, trivial⟩

omit [DecidableEq T] in
theorem loose_awake : Loose (k.awake sw ret : Pc T) := by
  rw [awake]
  split
  · exact loose_ended
  · exact ⟨.inl rfl, fun _ => trivial, trivial⟩

end WaitCall

/-- A function of the lock goes on, or it returns. -/
def GoesOn (p : LowLevelLock.Pc) : Prop := (Busy p ∨ ∃ r, p = .ret r) ∧ p ≠ .unlockSwap

/-- After a swap that found the word taken. -/
theorem goesOn_afterSwap (d : LowLevelLock.Deadline) : GoesOn (LowLevelLock.afterSwap d) := by
  cases d with
  | none =>
      refine ⟨.inl trivial, ?_⟩
      intro h
      cases h
  | some tsp =>
      rw [LowLevelLock.afterSwap]
      split
      · refine ⟨.inr ⟨_, rfl⟩, ?_⟩
        intro h
        cases h
      · refine ⟨.inl trivial, ?_⟩
        intro h
        cases h

/-- A function of the lock goes on with its next access. -/
theorem goesOn_of_exec {c : LowLevelLock.Choice T} {w w' : LowLevelLock.Mem T}
    {p q : LowLevelLock.Local} (h : LowLevelLock.exec t c w p = some (w', q)) (hp : Busy p.pc) :
    GoesOn q.pc := by
  cases LowLevelLock.step_of_exec h with
  | lock | trylock | unlock | ret => exact hp.elim
  | swapTaken => exact goesOn_afterSwap _
  | lockCas | swapFree | late | timedout | tryTaken | tryCas | tryLost | unlockAlone | unlockWake =>
      exact ⟨.inr ⟨_, rfl⟩, nofun⟩
  | _ => exact ⟨.inl trivial, nofun⟩

/-- An unlock goes on to its wake, or it returns. -/
theorem exec_unlocking {c : LowLevelLock.Choice T} {w w' : LowLevelLock.Mem T}
    {p q : LowLevelLock.Local} (h : LowLevelLock.exec t c w p = some (w', q))
    (hp : p.pc = .unlockSwap ∨ p.pc = .unlockWake) : q.pc = .unlockWake ∨ q.pc = .ret .ok := by
  cases LowLevelLock.step_of_exec h with
  | unlockSwap => exact .inl rfl
  | unlockAlone | unlockWake => exact .inr rfl
  | _ => simp at hp

omit [DecidableEq T] in
/-- Inside the lock the caller waits for it. -/
theorem afterMutex_busy {p : LowLevelLock.Pc} (hp : Busy p) :
    (afterMutex p : Pc T) = .mutex p := by
  cases p <;> first | rfl | exact hp.elim

omit [DecidableEq T] in
theorem afterRelock_busy {r : Option Cond.Ret} {p : LowLevelLock.Pc} (hp : Busy p) :
    (afterRelock r p : Pc T) = .relock r p := by
  cases p <;> first | rfl | exact hp.elim

theorem Locking.busy {p : LowLevelLock.Pc} (hp : Locking p) : Busy p := by
  cases hp <;> trivial

theorem Locking.ne_unlock {p : LowLevelLock.Pc} (hp : Locking p) : p ≠ .unlockSwap := by
  rintro rfl
  cases hp

omit [DecidableEq T] in
/-- A thread at the entry of a call. -/
theorem sound_of_enter {o : Call T} (h : enter l o = some pc) :
    Sound { l with pc := pc } := by
  obtain ⟨hlower, hent⟩ := enter_spec h
  refine ⟨hlower, hent, ?_, ?_⟩
  · cases o with
    | wait k =>
        obtain ⟨-, hk⟩ := Option.ite_none_right_eq_some.mp h
        split at hk
        · cases hk
          trivial
        · split at hk <;> cases hk <;> trivial
    | unlock =>
        obtain ⟨-, hp⟩ := Option.ite_none_right_eq_some.mp h
        cases hp
        trivial
    | _ =>
        cases h
        trivial
  · cases o with
    | wait k =>
        obtain ⟨-, hk⟩ := Option.ite_none_right_eq_some.mp h
        split at hk
        · cases hk
          trivial
        · next hgood =>
          rw [Bool.not_eq_true] at hgood
          split at hk
          · next hhurd =>
            cases hk
            exact ⟨hgood, hhurd⟩
          · cases hk
            exact hgood
    | unlock =>
        obtain ⟨-, hp⟩ := Option.ite_none_right_eq_some.mp h
        cases hp
        trivial
    | _ =>
        cases h
        trivial

omit [DecidableEq T] in
/-- A step that writes nothing. -/
theorem Reads.sound {b : Bool} (h : Reads m pc pc') (hl : Sound ⟨pc, b⟩) : Sound ⟨pc', b⟩ := by
  cases h with
  | testPending => exact ⟨nofun, hl.entitled, trivial, hl.fits.1⟩
  | checkMutex => exact ⟨fun _ => hl.entitled, trivial, trivial, hl.fits, .inl rfl⟩
  | noMutex => exact ⟨nofun, hl.entitled, trivial, hl.fits⟩
  | cancelpointBegin => exact WaitCall.loose_block.sound b
  | past | changed => exact WaitCall.loose_awake.sound b
  | cancelpointEnd => exact WaitCall.loose_ended.sound b
  | _ => exact ⟨nofun, trivial, trivial, trivial⟩

/-- Every step keeps what a thread knows of itself. -/
theorem sound_of_exec (hl : Sound l) (h : exec t c m l = some (m', l')) : Sound l' := by
  cases step_of_exec h with
  | call hcall => exact sound_of_enter hcall
  | read hr => exact hr.sound hl
  | mutex hword =>
      obtain ⟨⟨w, q⟩, he, heq⟩ := Option.map_eq_some_iff.mp hword
      cases heq
      obtain ⟨hq, hne⟩ := goesOn_of_exec he hl.fits
      have hchecked := LowLevelLock.checked_of_exec hl.checked he
      rcases hq with hq | ⟨r, hq⟩
      · rw [afterMutex_busy hq]
        exact ⟨fun h => absurd h hne, trivial, hchecked, hq⟩
      · rw [hq]
        exact ⟨nofun, trivial, trivial, trivial⟩
  | unlock hword =>
      obtain ⟨⟨w, q⟩, he, heq⟩ := Option.map_eq_some_iff.mp hword
      cases heq
      obtain ⟨hgood, hp⟩ := hl.fits
      rcases exec_unlocking he hp with hq | hq
      · rw [hq]
        exact ⟨nofun, trivial, trivial, hgood, .inr rfl⟩
      · rw [hq]
        exact ⟨nofun, trivial, trivial, trivial⟩
  | relock hword =>
      obtain ⟨⟨w, q⟩, he, heq⟩ := Option.map_eq_some_iff.mp hword
      cases heq
      have hchecked := LowLevelLock.checked_of_exec hl.checked he
      rcases exec_locking he hl.entitled with hq | ⟨hq, hholds⟩
      · rw [afterRelock_busy hq.busy]
        exact ⟨fun h => absurd h hq.ne_unlock, hq, hchecked, trivial⟩
      · rw [hq]
        exact ⟨nofun, hholds, trivial, trivial⟩
  | pending => exact ⟨nofun, trivial, trivial, trivial⟩
  | storeMutex => exact ⟨fun _ => hl.entitled, trivial, trivial, hl.fits, .inl rfl⟩
  | regCas => exact WaitCall.loose_registered.sound _
  | spinUnlock => exact WaitCall.loose_block.sound _
  | awake => exact WaitCall.loose_awake.sound _
  | uncount => exact WaitCall.loose_uncounted.sound _
  | spinLock => exact ⟨nofun, hl.entitled, trivial, hl.fits⟩
  | leave | cleanSame | cleanWake => exact ⟨nofun, .test, trivial, trivial⟩
  | _ => exact ⟨nofun, trivial, trivial, trivial⟩

/-! ### The accesses, as moves of the monitor -/

/-- The monitor, as one thread sees it. -/
structure Shows (m : Mem T) (t : T) (l : Local T) (a : Monitor T) : Prop where
  word : m.lock.word = 0 ↔ a.owner = none
  holds : l.holds = true ↔ a.owner = some t
  waits : AtWait l.pc (a.waits t)

/-- A wait that is not refused its mutex ends with it. -/
theorem apply_resume {r : Option Cond.Ret} (hr : k.returns r = true)
    (howner : a.owner = none) (hwait : a.waits t = some k) :
    monitor.apply t .resume (resumed r) a = some ⟨some t, Function.update a.waits t none⟩ := by
  have hresume : a.resume t r = some ⟨some t, Function.update a.waits t none⟩ :=
    if_pos ⟨howner, by rw [hwait]; exact hr⟩
  rcases r with _ | ⟨r⟩ | ⟨r⟩
  · exact hresume
  · cases r <;> first | exact hresume | cases hr
  · exact hresume

/-- What `t` did to the monitor is nothing to the other threads. -/
def Others (t : T) (a a' : Monitor T) : Prop :=
  ∀ u, u ≠ t → (a'.owner = some u ↔ a.owner = some u) ∧ a'.waits u = a.waits u

omit [DecidableEq T] in
theorem others_self (t : T) (a : Monitor T) : Others t a a := fun _ _ => ⟨.rfl, rfl⟩

/-- A function of the mutex does to the monitor what it does to the lock. -/
theorem moves_mutex {q q' : Phase LowLevelLock.Call Code} {owner owner' : Option T}
    {ws : T → Option WaitCall} (h : ownedLock.Moves t none q owner q' owner') :
    monitor.Moves t none (mutexPhase q) ⟨owner, ws⟩ (mutexPhase q') ⟨owner', ws⟩ := by
  cases h with
  | stutter => exact .stutter
  | @eff _ _ o r h =>
      refine .eff ?_
      have hmap : (ownedLock.apply t o r owner).map (fun owner => (⟨owner, ws⟩ : Monitor T)) =
          some ⟨owner', ws⟩ := by rw [h]; rfl
      cases o <;> exact hmap

/-! In the sleep, and on its way to `lll_lock`, a thread is between the calls of its wait. -/

namespace WaitCall

variable {w : Option WaitCall}

omit [DecidableEq T] in
theorem phase_block : phase (k.block sw : Pc T) = .idle := by
  rw [block]
  split <;> rfl

omit [DecidableEq T] in
theorem atWait_block (hw : w = some k) : AtWait (k.block sw : Pc T) w := by
  rw [block]
  split <;> exact hw

omit [DecidableEq T] in
theorem phase_uncounted : phase (k.uncounted ret : Pc T) = .idle := by
  rcases k with ⟨hurd, tsp⟩
  cases hurd <;> rfl

omit [DecidableEq T] in
/-- A wait that is not of the Hurd has its result before it has the mutex. -/
theorem atWait_uncounted (hw : w = some k) : AtWait (k.uncounted ret : Pc T) w := by
  rcases k with ⟨hurd, tsp⟩
  cases hurd with
  | true => exact ⟨hw, rfl⟩
  | false =>
      refine ⟨_, hw, ?_⟩
      cases tsp <;> cases ret <;> rfl

omit [DecidableEq T] in
theorem phase_ended : phase (k.ended ret : Pc T) = .idle := by
  rw [ended]
  split
  · exact phase_uncounted
  · rfl

omit [DecidableEq T] in
theorem atWait_ended (hw : w = some k) : AtWait (k.ended ret : Pc T) w := by
  rw [ended]
  split
  · exact atWait_uncounted hw
  · exact hw

omit [DecidableEq T] in
theorem phase_awake : phase (k.awake sw ret : Pc T) = .idle := by
  rw [awake]
  split
  · exact phase_ended
  · rfl

omit [DecidableEq T] in
theorem atWait_awake (hw : w = some k) : AtWait (k.awake sw ret : Pc T) w := by
  rw [awake]
  split
  · exact atWait_ended hw
  · next hk => exact ⟨hw, by simpa using hk⟩

omit [DecidableEq T] in
/-- A wait that has registered is parked. -/
theorem phase_registered : phase (k.registered sw : Pc T) = .done .parked := by
  rw [registered]
  split <;> rfl

omit [DecidableEq T] in
theorem atWait_registered (hw : w = some k) : AtWait (k.registered sw : Pc T) w := by
  rw [registered]
  split
  · next hk => exact ⟨hw, hk⟩
  · next hk => exact ⟨hw, by simpa using hk⟩

end WaitCall

/-- What a step of `t` to the local state `l'` is to the monitor. -/
def Moved (t : T) (c : Choice T) (l : Local T) (a : Monitor T) (m' : Mem T) (l' : Local T) :
    Prop :=
  ∃ a', monitor.Moves t (label c l) (phase l.pc) a (phase l'.pc) a' ∧ Shows m' t l' a' ∧
    Others t a a'

/-- A step that the monitor does not see, but for the calls and results of `t`. -/
theorem Shows.keep (h : Shows m t l a) (hword : m'.lock.word = 0 ↔ m.lock.word = 0)
    (hholds : l'.holds = l.holds) (hwaits : AtWait l.pc (a.waits t) → AtWait l'.pc (a.waits t))
    (hm : monitor.Moves t (label c l) (phase l.pc) a (phase l'.pc) a) : Moved t c l a m' l' :=
  ⟨a, hm, ⟨hword.trans h.word, by rw [hholds]; exact h.holds, hwaits h.waits⟩, others_self t a⟩

/-- A step between the two calls of a wait. -/
theorem Shows.between {b : Bool} (h : Shows m t ⟨pc, b⟩ a)
    (hword : m'.lock.word = 0 ↔ m.lock.word = 0) (hlabel : label c ⟨pc, b⟩ = none)
    (hpc : phase pc = .idle) (hpc' : phase pc' = .idle)
    (hwaits : AtWait pc (a.waits t) → AtWait pc' (a.waits t)) :
    Moved t c ⟨pc, b⟩ a m' ⟨pc', b⟩ := by
  refine h.keep hword rfl hwaits ?_
  rw [hlabel, hpc, hpc']
  exact .stutter

/-- The entry of a call. Only a wait with a bad deadline takes effect there. -/
theorem Shows.enter {b : Bool} (h : Shows m t ⟨.idle, b⟩ a)
    (hcall : enter ⟨.idle, b⟩ c.call = some pc) : Moved t c ⟨.idle, b⟩ a m ⟨pc, b⟩ := by
  have hlabel : label c ⟨.idle, b⟩ = some (.inv (.call c.call)) := rfl
  cases ho : c.call with
  | unlock =>
      rw [ho] at hcall hlabel
      obtain ⟨-, hp⟩ := Option.ite_none_right_eq_some.mp hcall
      cases hp
      exact h.keep .rfl rfl id (hlabel ▸ .inv _)
  | wait k =>
      rw [ho] at hcall hlabel
      obtain ⟨hb, hk⟩ := Option.ite_none_right_eq_some.mp hcall
      split at hk
      · next hbad =>
        cases hk
        refine h.keep .rfl rfl id ?_
        rw [hlabel]
        exact .invEff (if_pos ⟨h.holds.mp hb, hbad⟩)
      · split at hk <;> cases hk <;> exact h.keep .rfl rfl id (hlabel ▸ .inv _)
  | _ =>
      rw [ho] at hcall hlabel
      cases hcall
      exact h.keep .rfl rfl id (hlabel ▸ .inv _)

/-- A step that writes nothing. -/
theorem Shows.reads {b : Bool} (h : Shows m t ⟨pc, b⟩ a) (hr : Reads m pc pc') :
    Moved t c ⟨pc, b⟩ a m ⟨pc', b⟩ := by
  cases hr with
  | cancelpointBegin =>
      refine h.keep .rfl rfl (fun hw => WaitCall.atWait_block hw.1) ?_
      rw [WaitCall.phase_block]
      exact .res _
  | past => exact h.between .rfl rfl rfl WaitCall.phase_awake WaitCall.atWait_awake
  | changed => exact h.between .rfl rfl rfl WaitCall.phase_awake WaitCall.atWait_awake
  | cancelpointEnd =>
      exact h.between .rfl rfl rfl WaitCall.phase_ended fun hw => WaitCall.atWait_ended hw.1
  | ret => exact h.keep .rfl rfl id (.res _)
  | _ => exact h.keep .rfl rfl id .stutter

/-- An access of a function of the mutex. -/
theorem Shows.mutex {p : LowLevelLock.Pc} {b : Bool} (h : Shows m t ⟨.mutex p, b⟩ a)
    (hl : Sound (⟨.mutex p, b⟩ : Local T))
    (hword : onWord t c m ⟨.mutex p, b⟩ p afterMutex = some (m', l')) :
    Moved t c ⟨.mutex p, b⟩ a m' l' := by
  obtain ⟨⟨w, q⟩, he, heq⟩ := Option.map_eq_some_iff.mp hword
  cases heq
  obtain ⟨owner, hmove, hw, hholds, hothers⟩ :=
    LowLevelLock.moves_of_exec he h.word h.holds hl.unlocking hl.checked
  have hbusy : Busy p := hl.fits
  -- Inside a function of the lock there is no event.
  have hlabel : LowLevelLock.label c.word ⟨p, b⟩ = none := by
    cases p <;> first | rfl | exact hbusy.elim
  rw [hlabel] at hmove
  have hphase : phase (afterMutex q.pc : Pc T) = mutexPhase (LowLevelLock.phase q.pc) ∧
      ∀ w, AtWait (afterMutex q.pc : Pc T) w = (w = none) := by
    rcases (goesOn_of_exec he hbusy).1 with hq | ⟨r, hq⟩
    · rw [afterMutex_busy hq]
      exact ⟨rfl, fun _ => rfl⟩
    · rw [hq]
      exact ⟨rfl, fun _ => rfl⟩
  refine ⟨⟨owner, a.waits⟩, ?_, ⟨hw, hholds, (hphase.2 _).mpr h.waits⟩,
    fun u hu => ⟨hothers u hu, rfl⟩⟩
  rw [hphase.1]
  exact moves_mutex hmove

/-- An access of the unlock of a wait. The wait takes effect at its swap. -/
theorem Shows.unlock {p : LowLevelLock.Pc} {b : Bool} (h : Shows m t ⟨.unlock k p, b⟩ a)
    (hl : Sound (⟨.unlock k p, b⟩ : Local T))
    (hword : onWord t c m ⟨.unlock k p, b⟩ p (afterUnlock k) = some (m', l')) :
    Moved t c ⟨.unlock k p, b⟩ a m' l' := by
  obtain ⟨⟨w, q⟩, he, heq⟩ := Option.map_eq_some_iff.mp hword
  cases heq
  obtain ⟨hgood, rfl | rfl⟩ := hl.fits
  · -- The swap gives the mutex back, and the thread waits from here on.
    cases he
    have howner : a.owner = some t := h.holds.mp (hl.unlocking rfl)
    refine ⟨⟨none, Function.update a.waits t (some k)⟩, ?_, ⟨by simp, by simp, ?_⟩,
      fun u hu => ?_⟩
    · have heff : monitor.apply t (.call (.wait k)) .parked a =
          some ⟨none, Function.update a.waits t (some k)⟩ := if_pos ⟨howner, hgood⟩
      dsimp only
      split <;> exact .eff heff
    · dsimp only
      split <;> exact Function.update_self t (some k) a.waits
    · rw [howner]
      exact ⟨by simp [hu.symm], Function.update_of_ne hu (some k) a.waits⟩
  · obtain ⟨s, -, heq⟩ := Option.map_eq_some_iff.mp he
    cases heq
    exact h.keep .rfl rfl id .stutter

/-- An access of the lock at the end of a wait. -/
theorem Shows.relock {r : Option Cond.Ret} {p : LowLevelLock.Pc} {b : Bool}
    (h : Shows m t ⟨.relock r p, b⟩ a) (hl : Sound (⟨.relock r p, b⟩ : Local T))
    (hword : onWord t c m ⟨.relock r p, b⟩ p (afterRelock r) = some (m', l')) :
    Moved t c ⟨.relock r p, b⟩ a m' l' := by
  obtain ⟨⟨w, q⟩, he, heq⟩ := Option.map_eq_some_iff.mp hword
  cases heq
  have hlocking : Locking p := hl.entitled
  obtain ⟨k, hwait, hreturns⟩ : ∃ k, a.waits t = some k ∧ k.returns r = true := h.waits
  -- A free lock is taken, and the wait is over.
  have htake : ∀ {v : BitVec 32}, m.lock.word = 0 → v ≠ 0 →
      ∃ a', monitor.Moves t none (.called .resume) a (.done (resumed r)) a' ∧
        Shows { m with lock := { m.lock with word := v } } t ⟨.mark r, true⟩ a' ∧
        Others t a a' := by
    intro v hfree hv
    have hnone : a.owner = none := h.word.mp hfree
    refine ⟨⟨some t, Function.update a.waits t none⟩,
      .eff (apply_resume hreturns hnone hwait), ⟨by simpa using hv, by simp, ?_⟩, fun u hu => ?_⟩
    · exact Function.update_self t none a.waits
    · rw [hnone]
      exact ⟨by simp [hu.symm], Function.update_of_ne hu none a.waits⟩
  cases hlocking with
  -- `lll_lock` begins, and with it the second half of the wait.
  | test =>
      cases he
      refine h.keep .rfl rfl ?_ ?_
      · dsimp only
        split <;> exact id
      · dsimp only
        split <;> exact .inv _
  | cas =>
      simp only [LowLevelLock.exec] at he
      split at he
      · next hfree =>
        cases he
        exact htake hfree LowLevelLock.one_ne_free.1
      · cases he
        exact h.keep .rfl rfl id .stutter
  | swap =>
      simp only [LowLevelLock.exec] at he
      split at he
      · next hfree =>
        cases he
        exact htake hfree LowLevelLock.one_ne_free.2
      · next htaken =>
        cases he
        exact h.keep (iff_of_false LowLevelLock.one_ne_free.2 htaken) rfl id .stutter
  | wait =>
      simp only [LowLevelLock.exec] at he
      split at he <;> cases he <;> exact h.keep .rfl rfl id .stutter
  | asleep =>
      simp only [LowLevelLock.exec] at he
      split at he
      · split at he
        · cases he
          exact h.keep .rfl rfl id .stutter
        · next heq => cases heq
        · cases he
      · cases he
        exact h.keep .rfl rfl id .stutter

/-- The store that marks the lock word. -/
theorem Shows.mark {r : Option Cond.Ret} {b : Bool} (h : Shows m t ⟨.mark r, b⟩ a)
    (hl : Sound (⟨.mark r, b⟩ : Local T))
    (hpc : AtWait (.mark r : Pc T) (a.waits t) → AtWait pc (a.waits t))
    (hm : monitor.Moves t (label c ⟨.mark r, b⟩) (phase (.mark r : Pc T)) a (phase pc) a) :
    Moved t c ⟨.mark r, b⟩ a { m with lock := { m.lock with word := 2 } } ⟨pc, b⟩ := by
  have htaken : m.lock.word ≠ 0 := by
    intro hfree
    have howner : a.owner = some t := h.holds.mp hl.entitled
    rw [h.word.mp hfree] at howner
    cases howner
  exact h.keep (iff_of_false LowLevelLock.one_ne_free.2 htaken) rfl hpc hm

omit [DecidableEq T] in
/-- A thread that may be cancelled is in a `pthread` wait. -/
theorem atWait_of_cancelSw {w : Option WaitCall} (h : cancelSw pc = some sw) (hw : AtWait pc w) :
    AtWait (.cleanLoad sw : Pc T) w := by
  cases pc with
  | cancelpointBegin k sw | cancelpointEnd k sw =>
      obtain ⟨rfl, hk⟩ := hw
      exact ⟨k, rfl, by simp [WaitCall.returns, hk]⟩
  | clock k | wait k | asleep k =>
      obtain rfl : w = some k := hw
      refine ⟨k, rfl, ?_⟩
      cases hk : k.hurd with
      | true => simp [cancelSw, hk] at h
      | false => simp [WaitCall.returns, hk]
  | _ => cases h

omit [DecidableEq T] in
/-- It is before its sleep, with the wait parked, or between the two calls of its wait. -/
theorem phase_of_cancelSw {b : Bool} (h : cancelSw pc = some sw) :
    (∃ k, pc = .cancelpointBegin k sw) ∨ phase pc = .idle ∧ label c ⟨pc, b⟩ = none := by
  cases pc with
  | cancelpointBegin k sw =>
      cases h
      exact .inl ⟨k, rfl⟩
  | clock | wait | asleep | cancelpointEnd => exact .inr ⟨rfl, rfl⟩
  | _ => cases h

/-- Every step is nothing to the monitor, or one move of it. -/
theorem moved_of_exec (h : Shows m t l a) (hl : Sound l) (he : exec t c m l = some (m', l')) :
    Moved t c l a m' l' := by
  cases step_of_exec he with
  | call hcall => exact h.enter hcall
  | read hr => exact h.reads hr
  | mutex hword => exact h.mutex hl hword
  | unlock hword => exact h.unlock hl hword
  | relock hword => exact h.relock hl hword
  -- A cancellation that came before the wait ends it at once.
  | pending =>
      obtain ⟨hgood, hhurd⟩ := hl.fits
      refine h.keep .rfl rfl id (.eff (if_pos ⟨h.holds.mp hl.entitled, hgood, hhurd⟩))
  | regCas =>
      refine h.keep .rfl rfl WaitCall.atWait_registered ?_
      rw [WaitCall.phase_registered]
      exact .stutter
  | setHook => exact h.keep .rfl rfl id (.res _)
  | spinUnlock =>
      exact h.between .rfl rfl rfl WaitCall.phase_block fun hw => WaitCall.atWait_block hw.1
  | awake => exact h.between .rfl rfl rfl WaitCall.phase_awake WaitCall.atWait_awake
  | uncount => exact h.between .rfl rfl rfl WaitCall.phase_uncounted WaitCall.atWait_uncounted
  -- A cancelled wait ends without the mutex, so that nothing else has to happen.
  | @leaveCancelled k =>
      obtain ⟨hwait, hhurd⟩ : a.waits t = some k ∧ k.hurd = true := h.waits
      have heff : monitor.apply t .resume (.ret (.code .eintr)) a =
          some { a with waits := Function.update a.waits t none } :=
        if_pos (by rw [hwait]; exact hhurd)
      refine ⟨_, .invEff heff, ⟨h.word, h.holds, ?_⟩, fun u hu => ⟨.rfl, ?_⟩⟩
      · exact Function.update_self t none a.waits
      · exact Function.update_of_ne hu none a.waits
  | leave => exact h.between .rfl rfl rfl rfl fun hw => ⟨_, hw.1, rfl⟩
  | markClean => exact h.mark hl id (.res _)
  | mark => exact h.mark hl id .stutter
  | cancelled hsw =>
      rcases phase_of_cancelSw hsw with ⟨k, rfl⟩ | ⟨hpc, hlabel⟩
      · exact h.keep .rfl rfl (atWait_of_cancelSw hsw) (.res _)
      · exact h.between .rfl hlabel hpc rfl (atWait_of_cancelSw hsw)
  | cleanSame | cleanWake => exact h.between .rfl rfl rfl rfl id
  -- A call that only signals takes effect at its increment, or at its flag.
  | sigCas | sigNobody | bcCas | bcNobody | cancelSet | cancelOnly =>
      exact h.keep .rfl rfl id (.eff rfl)
  | bcRequeue hreq =>
      obtain ⟨q, -, rfl⟩ := Option.map_eq_some_iff.mp hreq
      exact h.keep .rfl rfl id .stutter
  | _ => exact h.keep .rfl rfl id .stutter

/-! ### The runs -/

/-- The monitor that a state shows. -/
def ShowsAll (s : Global T (Mem T) (Local T)) (a : Monitor T) : Prop :=
  ∀ t, Shows s.mem t (s.loc t) a

/-- The accesses simulate the atomic monitor. -/
theorem simulates : exec.Simulates (T := T) IsInit (fun _ _ => True) label monitor
    (fun l q => q = phase l.pc) (fun s => ∀ t, Sound (s.loc t)) ShowsAll where
  init := by
    rintro s ⟨hmem, hloc⟩
    refine ⟨⟨⟨none, fun _ => none⟩, rfl, fun t => ?_⟩, fun t => by rw [hloc t]; rfl⟩
    rw [hmem, hloc t]
    exact ⟨by simp, by simp, rfl⟩
  step := by
    rintro s t c m l a q hsound hs rfl - he
    obtain ⟨a', hmove, ht, hothers⟩ := moved_of_exec (hs t) (hsound t) he
    refine ⟨a', _, hmove, rfl, ?_⟩
    refine (forall_loc_iff (P := fun u (l : Local T) => Shows m u l a')).mpr ⟨ht, ?_⟩
    intro u hu
    obtain ⟨howner, hwaits⟩ := hothers u hu
    exact ⟨ht.word, (hs u).holds.trans howner.symm, hwaits ▸ (hs u).waits⟩

/-- Every history of a mutex and its condition variable is a history of the atomic monitor,
whatever the order of the accesses, wakes, requeues, timeouts and cancellations. -/
theorem monitor_linearizable {H : List (T × Event (MonitorCall T) MonitorRet)}
    {s : Global T (Mem T) (Local T)}
    (h : exec.History IsInit (fun _ _ => True) label H s) : monitor.Linearizable H := by
  refine h.linearizable (fun s hs => ?_) simulates
  intro t
  refine Exec.invariant_loc (fun s t hs => ?_) (fun t c m l m' l' => sound_of_exec) hs t
  rw [hs.2 t]
  exact ⟨nofun, trivial, trivial, trivial⟩

/-- A thread goes on for some steps. -/
def turns (t : Fin 2) (n : ℕ) : List (Fin 2 × Choice (Fin 2)) := List.replicate n (t, {})

/-- The thread 0 waits. The thread 1 gets the mutex that it gave back, and broadcasts: 0 is
woken, and is cancelled while 1 still has the mutex. Its handlers get it after the unlock. -/
theorem monitor_linearizable_cancelled : monitor.Linearizable (T := Fin 2)
    [(0, .inv (.call .lock)), (0, .res (.ret (.code .ok))),
      (0, .inv (.call (.wait ⟨false, none⟩))), (1, .inv (.call .lock)), (0, .res .parked),
      (1, .res (.ret (.code .ok))), (1, .inv (.call .broadcast)),
      (1, .res (.ret (.code .ok))), (0, .inv .resume), (1, .inv (.call .unlock)),
      (1, .res (.ret (.code .ok))), (0, .res .cancelled)] := by
  have hrun : ∃ s, (exec (T := Fin 2)).History IsInit (fun _ _ => True) label
      [(0, .inv (.call .lock)), (0, .res (.ret (.code .ok))),
        (0, .inv (.call (.wait ⟨false, none⟩))), (1, .inv (.call .lock)), (0, .res .parked),
        (1, .res (.ret (.code .ok))), (1, .inv (.call .broadcast)),
        (1, .res (.ret (.code .ok))), (0, .inv .resume), (1, .inv (.call .unlock)),
        (1, .res (.ret (.code .ok))), (0, .res .cancelled)] s :=
    Exec.exists_history_run
      (s := ⟨⟨⟨0, ∅⟩, 0, 0, false, ∅, fun _ => false, fun _ => false, fun _ => false⟩,
        fun _ => ⟨.idle, false⟩⟩) ⟨rfl, fun _ => rfl⟩
      (turns 0 4 ++ [(0, { call := .wait ⟨false, none⟩ })] ++ turns 0 5 ++ turns 1 2 ++
        turns 0 2 ++ turns 1 2 ++ [(1, { call := .broadcast })] ++ turns 1 3 ++
        [(1, { pick := some 0 })] ++ turns 1 1 ++ turns 0 1 ++ [(0, { cancel := true })] ++
        turns 0 4 ++ [(1, { call := .unlock })] ++ turns 1 2 ++ turns 0 2) (by decide)
  obtain ⟨s, hs⟩ := hrun
  exact monitor_linearizable hs

end Hlpt.Requeue
