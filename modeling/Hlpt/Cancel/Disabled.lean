import Hlpt.Cancel.Stopping
import Hlpt.Lib.Ghost

/-!
# `Hlpt.Cancel.Disabled`: a thread that disabled its cancellation

A canceller decides on the flags that it swaps, and redirects the target some steps later.
In between it stands before `thread_suspend`, and the target still runs. When the target
sets `PT_FLG_CANCEL_DISABLE` at that time, its `pthread_setcancelstate` returns, and the
canceller stops it and sends it to `exit_thread` all the same. `Calm` is the condition
that this does not happen.

The history of a run says whether `pthread_setcancelstate (PTHREAD_CANCEL_DISABLE)` has
returned in the target since it last asked for the opposite, and whether a cancellation
has made it leave.

* `cancel_disabled`: in runs of calm steps a disabled target is not cancelled.
* `cancel_disabled_fails`: a run in which it is.
-/

set_option autoImplicit false

namespace Hlpt.Cancel

open Hlpt.Lib

universe u

/-! ### The history of a run -/

/-- The setter that the thread called last, whether its cancellation is disabled, and
whether a cancellation made it leave. -/
structure Hist where
  call : Option (Setter × BitVec 32)
  disabled : Bool
  left : Bool
  deriving DecidableEq, Repr

/-- The history of a step from the control point `old` to `new`. The cancellation is
disabled from the return of `pthread_setcancelstate (PTHREAD_CANCEL_DISABLE)` to the next
call with `PTHREAD_CANCEL_ENABLE`. A thread that goes to `exit_thread`, or to
`pthread_exit` without a call of its own, leaves because of a cancellation. -/
def Hist.after (old new : Pc) (h : Hist) : Hist where
  call := match new with
    | .setLoad f arg => some (f, arg)
    | _ => h.call
  disabled :=
    if new = .setLoad .setcancelstate PTHREAD_CANCEL_ENABLE then false
    else if old = .setRet .ok ∧ new = .idle ∧
        h.call = some (.setcancelstate, PTHREAD_CANCEL_DISABLE) then true
    else h.disabled
  left := h.left || new = .exitThread || (new = .exit ∧ old ≠ .idle)

variable {T : Type u}

/-- The history of a step. -/
def note : Ghost T Choice Mem Local Unit Hist := fun _ _ old new h =>
  ((), h.2.after old.2.pc new.2.pc)

variable [DecidableEq T]

/-- The target and the threads that cancel it, with the history. -/
def history (th : T) : Machine (Global T (Mem × Unit) (Local × Hist)) (T × Choice) :=
  ((exec th).ghost note).machine (ghostInit IsInit (fun _ => ()) ⟨none, false, false⟩)

/-! ### The condition on the steps -/

/-- When the target sets `PT_FLG_CANCEL_DISABLE`, no canceller is about to stop it. -/
def Calm (s : Global T Mem Local) (a : T × Choice) : Prop :=
  match (s.loc a.1).pc with
  | .setCas .setcancelstate arg oldval =>
      arg = PTHREAD_CANCEL_DISABLE ∧ s.mem.flags = oldval ∧ s.mem.redirected = false →
        ∀ u, (s.loc u).pc.marks = false
  | _ => True

instance [Fintype T] (s : Global T Mem Local) (a : T × Choice) : Decidable (Calm s a) := by
  unfold Calm
  rcases (s.loc a.1).pc with _ | _ | ⟨_ | _, arg, oldval⟩ | _ <;> dsimp only <;> infer_instance

variable {th t : T} {c : Choice} {m m' : Mem} {l l' : Local} {s : Global T Mem Local}

/-! ### Who may still redirect the target -/

/-- `pthread_setcanceltype` leaves `PT_FLG_CANCEL_DISABLE`. -/
theorem Setter.newval_type (arg f : BitVec 32) :
    Setter.setcanceltype.newval arg f &&& PT_FLG_CANCEL_DISABLE = f &&& PT_FLG_CANCEL_DISABLE := by
  unfold Setter.newval
  split
  · exact or_and_of_disjoint (by decide)
  · exact and_and_of_le (by decide)

omit [DecidableEq T] in
/-- `PT_FLG_CANCEL_DISABLE` changes in the target's own compare-and-swap. -/
theorem act_disable {self : Bool} (h : act self c m l = some (m', l')) :
    m'.flags &&& PT_FLG_CANCEL_DISABLE = m.flags &&& PT_FLG_CANCEL_DISABLE ∨
    ∃ arg, l.pc = .setCas .setcancelstate arg m.flags ∧
      m'.flags = Setter.setcancelstate.newval arg m.flags := by
  -- The other flags are different bits.
  have hor : ∀ f a : BitVec 32, a &&& PT_FLG_CANCEL_DISABLE = 0 →
      (f ||| a) &&& PT_FLG_CANCEL_DISABLE = f &&& PT_FLG_CANCEL_DISABLE :=
    fun _ _ ha => or_and_of_disjoint ha
  cases step_of_act h with
  | @setExit f arg | @setCas f arg =>
    cases f with
    | setcancelstate => exact .inr ⟨arg, rfl, rfl⟩
    | setcanceltype => exact .inl (Setter.newval_type arg m.flags)
  | exitThread | exit | cancelSelf | cancelOther => exact .inl (hor _ _ (by decide))
  | beginExit | beginCas | cancelMark =>
    exact .inl ((hor _ _ (by decide)).trans (hor _ _ (by decide)))
  | finish => exact .inl (and_and_of_le (by decide))
  | _ => exact .inl rfl

omit [DecidableEq T] in
/-- A setter that swaps the flags. -/
theorem act_setCas {self : Bool} {f : Setter} {arg : BitVec 32}
    (h : act self c m l = some (m', l')) (hpc : l.pc = .setCas f arg m.flags) :
    m' = { m with flags := f.newval arg m.flags } ∧
    l'.pc = if CANCELLED_ENABLED_ASYNC_P (f.newval arg m.flags) then .exit else .setRet .ok := by
  simp only [act, hpc, if_true, Option.some.injEq, Prod.mk.injEq] at h
  obtain ⟨rfl, rfl⟩ := h
  exact ⟨rfl, rfl⟩

/-- A canceller that is about to swap the flags has found the cancellation enabled. -/
theorem swaps_disable {pc : Pc} (h : pc.swaps m = true) :
    m.flags &&& PT_FLG_CANCEL_DISABLE = 0 := by
  have h0 := enabled_async_disable (Pc.swaps_eq h).2
  rwa [or_and_of_disjoint (by decide), or_and_of_disjoint (by decide)] at h0

/-- While `PT_FLG_CANCEL_DISABLE` is set nobody aims at the target. -/
structure Safe (th : T) (s : Global T Mem Local) : Prop extends Stopped th s where
  disabled : s.mem.flags &&& PT_FLG_CANCEL_DISABLE ≠ 0 → Spared s

/-- While the cancellation is disabled nobody aims at the target, after a calm step. -/
theorem Safe.disabled_step (hs : Safe th s) (hok : Calm s (t, c))
    (h : exec th t c s.mem (s.loc t) = some (m, l))
    (hd : m.flags &&& PT_FLG_CANCEL_DISABLE ≠ 0) : Spared ⟨m, Function.update s.loc t l⟩ := by
  rcases exec_cases h with ⟨-, -, rfl, rfl⟩ | ⟨hred, hact⟩
  · exact (hs.disabled hd).step rfl nofun
  · rcases act_disable hact with hf | ⟨arg, hpc, hf⟩
    · -- The flag was set before, so nobody aimed, and nobody takes aim now.
      rw [hf] at hd
      refine (hs.disabled hd).act hact ?_
      by_contra hsw
      exact hd (swaps_disable (Bool.eq_true_of_not_eq_false hsw))
    · -- The target sets the flag now. It is not stopped, and nobody is about to stop it.
      have ht : t = th := by
        by_contra ht
        have hc := hs.callers t ht
        rw [hpc] at hc
        cases hc
      subst ht
      have hr : s.mem.redirected = false := by
        by_contra hr
        have hdead := hred rfl (Bool.eq_true_of_not_eq_false hr)
        rw [hpc] at hdead
        cases hdead
      have harg : arg = PTHREAD_CANCEL_DISABLE := by
        by_contra harg
        rw [hf, Setter.newval, if_neg (show arg ≠ Setter.setcancelstate.on from harg),
          BitVec.and_assoc] at hd
        exact hd BitVec.and_zero
      have hmarks : ∀ u, (s.loc u).pc.marks = false := by
        simp only [Calm, hpc] at hok
        exact hok ⟨harg, trivial, hr⟩
      exact (hs.toStopped.spared (exec_runs h) hr hmarks).act hact (by rw [hpc]; rfl)

/-- A calm step keeps the target safe. -/
theorem Safe.step (hs : Safe th s) (hok : Calm s (t, c))
    (h : exec th t c s.mem (s.loc t) = some (m, l)) :
    Safe th ⟨m, Function.update s.loc t l⟩ where
  toStopped := hs.toStopped.step (fun ht => exec_cancels h ht (hs.callers t ht)) (exec_stops h)
  disabled := hs.disabled_step hok h

/-! ### What the target has done -/

/-- The target's control point, flags and history agree. -/
structure Mode (m : Mem) (l : Local) (h : Hist) : Prop where
  disabled : h.disabled = true → m.flags &&& PT_FLG_CANCEL_DISABLE ≠ 0 ∧ h.left = false
  load : ∀ f arg, l.pc = .setLoad f arg → h.call = some (f, arg)
  cas : ∀ f arg oldval, l.pc = .setCas f arg oldval → h.call = some (f, arg)
  enables : ∀ arg, h.call = some (.setcancelstate, arg) → arg ≠ PTHREAD_CANCEL_DISABLE →
    h.disabled = false
  ret : l.pc = .setRet .ok → h.call = some (.setcancelstate, PTHREAD_CANCEL_DISABLE) →
    m.flags &&& PT_FLG_CANCEL_DISABLE ≠ 0
  left : h.left = true → l.pc.exits = true
  sent : l.pc = .exitThread → h.left = true

omit [DecidableEq T] in
/-- A thread outside of the exit functions has not left. -/
theorem Mode.not_left {h : Hist} (hm : Mode m l h) (hx : l.pc.exits = false) :
    h.left = false := by
  by_contra hn
  have hexits := hm.left (Bool.eq_true_of_not_eq_false hn)
  rw [hx] at hexits
  cases hexits

omit [DecidableEq T] in
/-- What a setter does that loads the flags. -/
theorem act_setLoad {self : Bool} {f : Setter} {arg : BitVec 32}
    (h : act self c m l = some (m', l')) (hpc : l.pc = .setLoad f arg) :
    m' = m ∧ l'.pc = if m.flags = f.newval arg m.flags then .setRet .ok
      else .setCas f arg m.flags := by
  simp only [act, hpc, Option.some.injEq, Prod.mk.injEq] at h
  obtain ⟨rfl, rfl⟩ := h
  exact ⟨rfl, rfl⟩

/-- After `pthread_setcancelstate (PTHREAD_CANCEL_DISABLE)` has looked at the flags or
swapped them, the flag is set. -/
theorem Setter.newval_disable (f : BitVec 32) :
    Setter.setcancelstate.newval PTHREAD_CANCEL_DISABLE f &&& PT_FLG_CANCEL_DISABLE ≠ 0 := by
  show (f ||| PT_FLG_CANCEL_DISABLE) &&& PT_FLG_CANCEL_DISABLE ≠ 0
  rw [or_and_self]
  decide

/-- The control points of the two setters, up to their return of 0. -/
def Pc.sets : Pc → Bool
  | .setLoad .. | .setCas .. => true
  | .setRet r => r = .ok
  | .idle | .test | .beginTest | .beginLoad | .beginCas _ | .blocked _ | .finish _
  | .exitThread | .exit | .exiting | .dead | .cancelInvalid | .cancelLoad | .cancelCas _
  | .suspend _ | .abort _ | .getState .. | .inspect .. | .setState _ | .resume _
  | .storeMtflag | .cancelRet _ => false

omit [DecidableEq T] in
/-- A thread goes to `pthread_exit` by its own call, from `exit_thread`, or because its
flags say so. No access goes to `exit_thread`. -/
theorem act_leaves {self : Bool} (h : act self c m l = some (m', l')) :
    (l'.pc = .exit → l.pc = .idle ∨ l.pc = .exitThread ∨
      m'.flags &&& PT_FLG_CANCEL_DISABLE = 0) ∧
    l'.pc ≠ .exitThread ∧ (l'.pc.sets = true → l.pc.sets = true ∨ l.pc = .idle) := by
  refine ⟨fun hx => ?_, act_sent h, fun hs => ?_⟩
  · cases step_of_act h with
    | move hm =>
      cases hm with
      | callExit => exact .inl rfl
      | testExit hen => exact .inr (.inr (enabled_disable hen))
      | _ => cases hx
    | setExit hen | beginExit hen => exact .inr (.inr (enabled_async_disable hen))
    | exitThread => exact .inr (.inl rfl)
    | cancelSelf hself hen =>
      have h0 := enabled_async_disable hen
      rw [or_and_of_disjoint (by decide)] at h0
      exact .inr (.inr h0)
    | _ => cases hx
  · cases step_of_act h with
    | move hm =>
      cases hm with
      | set => exact .inr rfl
      | setAgain => exact .inl rfl
      | _ => cases hs
    | setSame | setLoad | setCas => exact .inl rfl
    | _ => cases hs

/-- A step outside of the setters. -/
theorem Hist.after_plain {old new : Pc} (h : Hist) (ho : old.sets = false)
    (hn : new.sets = false) : (h.after old new).call = h.call ∧
      (h.after old new).disabled = h.disabled := by
  have hload : ∀ f arg, new ≠ .setLoad f arg := by
    rintro f arg rfl
    cases hn
  have hret : old ≠ .setRet .ok := by
    rintro rfl
    cases ho
  constructor <;> simp [Hist.after, hload, hret]

/-- A setter that starts again. -/
theorem Hist.after_load {h : Hist} {f : Setter} {arg oldval : BitVec 32}
    (hc : h.call = some (f, arg))
    (hd : f = .setcancelstate → arg = PTHREAD_CANCEL_ENABLE → h.disabled = false) :
    h.after (.setCas f arg oldval) (.setLoad f arg) = h := by
  rcases h with ⟨call, disabled, left⟩
  obtain rfl : call = _ := hc
  by_cases ha : f = .setcancelstate ∧ arg = PTHREAD_CANCEL_ENABLE
  · have hd0 : disabled = false := hd ha.1 ha.2
    simp [Hist.after, ha, hd0]
  · simp [Hist.after, ha]

/-- A setter that returns. -/
theorem Hist.after_ret {h : Hist} {r : Code} :
    (h.after (.setRet r) .idle).disabled = true ↔
      (r = .ok ∧ h.call = some (.setcancelstate, PTHREAD_CANCEL_DISABLE)) ∨ h.disabled = true := by
  by_cases hr : r = .ok ∧ h.call = some (.setcancelstate, PTHREAD_CANCEL_DISABLE)
  · simp [Hist.after, hr]
  · simp [Hist.after, hr]

omit [DecidableEq T] in
/-- An access outside of the setters keeps the history in agreement. -/
theorem Mode.plain {h : Hist} (hm : Mode m l h) (he : act true c m l = some (m', l'))
    (hl : l.pc.sets = false) (hl' : l'.pc.sets = false) : Mode m' l' (h.after l.pc l'.pc) := by
  obtain ⟨hexit, hsent, -⟩ := act_leaves he
  have hflags : m'.flags &&& PT_FLG_CANCEL_DISABLE = m.flags &&& PT_FLG_CANCEL_DISABLE := by
    rcases act_disable he with hf | ⟨arg, hpc, -⟩
    · exact hf
    · rw [hpc] at hl
      cases hl
  have hcall := h.after_plain hl hl'
  -- A thread with its cancellation disabled goes to `pthread_exit` by its own call.
  have hleft : h.disabled = true → (h.after l.pc l'.pc).left = false := by
    intro hd
    obtain ⟨hd, hleft⟩ := hm.disabled hd
    have hstay : l'.pc = .exit → l.pc = .idle := by
      intro hx
      rcases hexit hx with h1 | h1 | h1
      · exact h1
      · rw [hm.sent h1] at hleft
        cases hleft
      · exact absurd (hflags ▸ h1) hd
    by_cases hx : l'.pc = .exit <;> simp_all [Hist.after]
  refine ⟨fun hd => ?_, fun f arg hpc => ?_, fun f arg oldval hpc => ?_, fun arg hc ha => ?_,
    fun hpc => ?_, fun hx => ?_, fun hpc => absurd hpc hsent⟩
  · rw [hcall.2] at hd
    exact ⟨hflags ▸ (hm.disabled hd).1, hleft hd⟩
  · rw [hpc] at hl'
    cases hl'
  · rw [hpc] at hl'
    cases hl'
  · rw [hcall.1] at hc
    rw [hcall.2]
    exact hm.enables arg hc ha
  · rw [hpc] at hl'
    cases hl'
  · by_cases hold : h.left = true
    · exact (act_exits he).1 (hm.left hold)
    · have hnew : l'.pc = .exit ∧ l.pc ≠ .idle := by
        simpa [Hist.after, hold, hsent] using hx
      rw [hnew.1]
      rfl

omit [DecidableEq T] in
/-- A setter that stays in its call, or returns from the compare-and-swap, with the
history unchanged. -/
theorem Mode.within {h : Hist} {f : Setter} {arg : BitVec 32} (hm : Mode m l h)
    (hc : h.call = some (f, arg)) (hx : l.pc.exits = false)
    (hd : h.disabled = true → m'.flags &&& PT_FLG_CANCEL_DISABLE ≠ 0)
    (hpc : l'.pc = .setLoad f arg ∨ (∃ oldval, l'.pc = .setCas f arg oldval) ∨
      l'.pc = .setRet .ok ∧ (f = .setcancelstate → arg = PTHREAD_CANCEL_DISABLE →
        m'.flags &&& PT_FLG_CANCEL_DISABLE ≠ 0)) : Mode m' l' h := by
  have hleft := hm.not_left hx
  have hno : h.left = true → l'.pc.exits = true := by
    rw [hleft]
    exact nofun
  rcases l' with ⟨pc', prev'⟩
  rcases hpc with hp | ⟨oldval, hp⟩ | ⟨hp, hf⟩
  · obtain rfl : pc' = _ := hp
    refine ⟨fun h1 => ⟨hd h1, hleft⟩, fun f' arg' hl => ?_, nofun, hm.enables, nofun, hno, nofun⟩
    cases hl
    exact hc
  · obtain rfl : pc' = _ := hp
    refine ⟨fun h1 => ⟨hd h1, hleft⟩, nofun, fun f' arg' old hl => ?_, hm.enables, nofun, hno,
      nofun⟩
    cases hl
    exact hc
  · obtain rfl : pc' = _ := hp
    refine ⟨fun h1 => ⟨hd h1, hleft⟩, nofun, nofun, hm.enables, fun _ hcall => ?_, hno, nofun⟩
    cases hc.symm.trans hcall
    exact hf rfl rfl

omit [DecidableEq T] in
/-- The setters keep the history in agreement. -/
theorem Mode.setter {h : Hist} (hm : Mode m l h) (he : act true c m l = some (m', l'))
    (hs : l.pc.sets = true) : Mode m' l' (h.after l.pc l'.pc) := by
  have hx : l.pc.exits = false := by
    cases hpc : l.pc <;> simp_all [Pc.sets, Pc.exits]
  cases hpc : l.pc with
  | setLoad f arg =>
      have hc := hm.load f arg hpc
      obtain ⟨rfl, hl⟩ := act_setLoad he hpc
      have hsame : h.after (.setLoad f arg) l'.pc = h := by
        rw [hl]
        split <;> simp [Hist.after]
      rw [hsame]
      refine hm.within hc hx (fun hd => (hm.disabled hd).1) (.inr ?_)
      by_cases hf : m'.flags = f.newval arg m'.flags
      · rw [if_pos hf] at hl
        refine .inr ⟨hl, ?_⟩
        rintro rfl rfl
        rw [hf]
        exact Setter.newval_disable _
      · rw [if_neg hf] at hl
        exact .inl ⟨_, hl⟩
  | setCas f arg oldval =>
      have hc := hm.cas f arg oldval hpc
      -- A call that disables the cancellation is needed for it to stay so.
      have hkeep : h.disabled = true → f.newval arg m.flags &&& PT_FLG_CANCEL_DISABLE ≠ 0 := by
        intro hd
        cases f with
        | setcanceltype =>
            rw [Setter.newval_type]
            exact (hm.disabled hd).1
        | setcancelstate =>
            by_cases ha : arg = PTHREAD_CANCEL_DISABLE
            · rw [ha]
              exact Setter.newval_disable _
            · rw [hm.enables arg hc ha] at hd
              cases hd
      by_cases hf : m.flags = oldval
      · subst hf
        obtain ⟨rfl, hl⟩ := act_setCas he hpc
        by_cases hen : CANCELLED_ENABLED_ASYNC_P (f.newval arg m.flags) = true
        · -- The change lets a request through.
          rw [if_pos hen] at hl
          have hd : h.disabled = false := by
            by_contra hd
            exact hkeep (Bool.eq_true_of_not_eq_false hd) (enabled_async_disable hen)
          rw [hl]
          constructor <;> simp [Hist.after, hl, hd, Pc.exits]
        · rw [if_neg hen] at hl
          have hsame : h.after (.setCas f arg m.flags) l'.pc = h := by
            rw [hl]
            simp [Hist.after]
          rw [hsame]
          refine hm.within hc hx hkeep (.inr (.inr ⟨hl, ?_⟩))
          rintro rfl rfl
          exact Setter.newval_disable _
      · simp only [act, hpc, if_neg hf, Option.some.injEq, Prod.mk.injEq] at he
        obtain ⟨rfl, rfl⟩ := he
        have henabled : f = .setcancelstate → arg = PTHREAD_CANCEL_ENABLE →
            h.disabled = false := by
          rintro rfl rfl
          exact hm.enables _ hc (by decide)
        rw [Hist.after_load hc henabled]
        exact hm.within hc hx (fun hd => (hm.disabled hd).1) (.inl rfl)
  | setRet r =>
      simp only [act, hpc, Option.some.injEq, Prod.mk.injEq] at he
      obtain ⟨rfl, rfl⟩ := he
      have hleft := hm.not_left hx
      have hd : (h.after (.setRet r) .idle).disabled = true →
          m.flags &&& PT_FLG_CANCEL_DISABLE ≠ 0 := by
        intro h1
        rcases Hist.after_ret.mp h1 with ⟨rfl, hcall⟩ | h1
        · exact hm.ret hpc hcall
        · exact (hm.disabled h1).1
      constructor
      · intro h1
        exact ⟨hd h1, by simp [Hist.after, hleft]⟩
      · intro f arg h1
        cases h1
      · intro f arg oldval h1
        cases h1
      · intro arg h1 h2
        by_contra hn
        rcases Hist.after_ret.mp (Bool.eq_true_of_not_eq_false hn) with ⟨-, hcall⟩ | h3
        · cases hcall.symm.trans h1
          exact h2 rfl
        · rw [hm.enables arg h1 h2] at h3
          cases h3
      · intro h1
        cases h1
      · intro h1
        simp [Hist.after, hleft] at h1
      · intro h1
        cases h1
  | _ =>
      rw [hpc] at hs
      cases hs

omit [DecidableEq T] in
/-- The call of a setter keeps the history in agreement. -/
theorem Mode.enters {h : Hist} (hm : Mode m l h) (he : act true c m l = some (m', l'))
    (hl : l.pc = .idle) : Mode m' l' (h.after l.pc l'.pc) := by
  by_cases hs : l'.pc.sets = true
  · have hleft := hm.not_left (by rw [hl]; rfl)
    simp only [act, hl, Option.map_eq_some_iff, Prod.mk.injEq] at he
    obtain ⟨pc, hpc, rfl, rfl⟩ := he
    cases hc : c.call with
    | set f arg =>
        simp only [hc, enter, if_true, Option.some.injEq] at hpc
        split at hpc
        · rename_i harg
          subst hpc
          have hd : (h.after .idle (.setLoad f arg)).disabled = true → h.disabled = true ∧
              ¬ (f = .setcancelstate ∧ arg = PTHREAD_CANCEL_ENABLE) := by
            intro h1
            by_cases ha : f = .setcancelstate ∧ arg = PTHREAD_CANCEL_ENABLE
            · simp [Hist.after, ha] at h1
            · exact ⟨by simpa [Hist.after, ha] using h1, ha⟩
          rw [hl]
          constructor
          · intro h1
            exact ⟨(hm.disabled (hd h1).1).1, by simp [Hist.after, hleft]⟩
          · intro f' arg' h1
            cases h1
            rfl
          · intro f' arg' oldval h1
            cases h1
          · intro arg' h1 h2
            simp only [Hist.after, Option.some.injEq, Prod.mk.injEq] at h1
            obtain ⟨rfl, rfl⟩ := h1
            -- A valid argument that does not disable the cancellation enables it.
            have ha : arg = PTHREAD_CANCEL_ENABLE := harg.resolve_left h2
            by_contra hn
            exact (hd (Bool.eq_true_of_not_eq_false hn)).2 ⟨rfl, ha⟩
          · intro h1
            cases h1
          · intro h1
            simp [Hist.after, hleft] at h1
          · intro h1
            cases h1
        · subst hpc
          cases hs
    | testcancel | cancelpoint | exit | cancel =>
        simp only [hc, enter, if_true, Option.some.injEq] at hpc
        subst hpc
        cases hs
  · exact hm.plain he (by rw [hl]; rfl) (Bool.eq_false_of_not_eq_true hs)

omit [DecidableEq T] in
/-- Every access of the target keeps its history in agreement. -/
theorem Mode.step {h : Hist} (hm : Mode m l h) (he : act true c m l = some (m', l')) :
    Mode m' l' (h.after l.pc l'.pc) := by
  by_cases hs : l.pc.sets = true
  · exact hm.setter he hs
  · by_cases hl : l.pc = .idle
    · exact hm.enters he hl
    · refine hm.plain he (Bool.eq_false_of_not_eq_true hs) ?_
      by_contra hs'
      rcases (act_leaves he).2.2 (Bool.eq_true_of_not_eq_false hs') with h1 | h1
      · exact hs h1
      · exact hl h1

omit [DecidableEq T] in
/-- A target that is redirected had its cancellation enabled. -/
theorem Mode.redirect {h : Hist} (hm : Mode m l h)
    (hd : m.flags &&& PT_FLG_CANCEL_DISABLE = 0) :
    Mode { m with redirected := false } { l with pc := .exitThread }
      (h.after l.pc .exitThread) := by
  have hdis : h.disabled = false := by
    by_contra hn
    exact (hm.disabled (Bool.eq_true_of_not_eq_false hn)).1 hd
  constructor <;> simp [Hist.after, hdis, Pc.exits]

/-- The target's history is about one flag. -/
theorem Mode.of_flags {h : Hist} (hm : Mode m l h)
    (hf : m'.flags &&& PT_FLG_CANCEL_DISABLE = m.flags &&& PT_FLG_CANCEL_DISABLE) :
    Mode m' l h := by
  obtain ⟨hdisabled, hload, hcas, henables, hret, hleft, hsent⟩ := hm
  exact ⟨hf ▸ hdisabled, hload, hcas, henables, hf ▸ hret, hleft, hsent⟩

/-- A disabled target has not been sent to `exit_thread`, and has not left because of a
cancellation. -/
def Uncancelled (th : T) (s : Global T (Mem × Unit) (Local × Hist)) : Prop :=
  (s.loc th).2.disabled = true → s.mem.1.redirected = false ∧ (s.loc th).2.left = false

/-- Once `pthread_setcancelstate (PTHREAD_CANCEL_DISABLE)` has returned in the target, no
cancellation makes it leave until it enables them again, in every run in which the target
does not set its flag in front of a canceller that is about to stop it. -/
theorem cancel_disabled {th : T} {s : Global T (Mem × Unit) (Local × Hist)}
    (h : (history th).ReachVia (fun s a => Calm (erase s) a) s) : Uncancelled th s := by
  have hinit : ∀ {s : Global T Mem Local}, IsInit s → Safe th s := by
    rintro s ⟨⟨flags, id, -, -, hm⟩, hloc⟩
    refine ⟨⟨fun t _ => by rw [hloc]; rfl, ⟨∅, fun t => ?_, by simp⟩⟩, fun _ => ⟨by rw [hm], ?_⟩⟩
    · rw [hloc]
      simp [Pc.stops]
    · intro t
      rw [hloc]
      rfl
  have hsafe : ∀ s, (history th).ReachVia (fun s a => Calm (erase s) a) s → Safe th (erase s) :=
    fun s h => Exec.invariant (fun _ => hinit) (fun _ _ _ _ _ hs hok he => hs.step hok he)
      (reach_erase h)
  have hmode : Mode s.mem.1 (s.loc th).1 (s.loc th).2 := by
    refine Exec.invariant_of (P := fun s : Global T (Mem × Unit) (Local × Hist) =>
      Mode s.mem.1 (s.loc th).1 (s.loc th).2) hsafe (fun s hs => ?_)
      (fun s t c m p hs hm _ he => ?_) h
    · obtain ⟨⟨-, hloc⟩, -, hhist⟩ := hs
      have hpc : (s.loc th).1 = ⟨.idle, 0⟩ := hloc th
      rw [hhist th, hpc]
      constructor <;> simp
    · obtain ⟨he, hnote⟩ := Exec.ghost_eq_some.mp he
      have hhist : p.2 = (s.loc t).2.after (s.loc t).1.pc p.1.pc := congrArg Prod.snd hnote
      by_cases ht : t = th
      · subst ht
        simp only [Function.update_self]
        rw [hhist]
        rcases exec_cases he with ⟨-, hr, hm', hp⟩ | ⟨-, hact⟩
        · have hd : s.mem.1.flags &&& PT_FLG_CANCEL_DISABLE = 0 := by
            by_contra hd
            rw [show s.mem.1.redirected = false from (hs.disabled hd).1] at hr
            cases hr
          rw [hm', hp]
          exact hm.redirect hd
        · rw [decide_eq_true rfl] at hact
          exact hm.step hact
      · simp only [Function.update_of_ne (Ne.symm ht)]
        refine hm.of_flags ?_
        have hpc : (s.loc t).1.pc.cancels = true := hs.callers t ht
        rcases exec_cases he with ⟨h1, -⟩ | ⟨-, hact⟩
        · exact absurd h1 ht
        · rcases act_disable hact with h1 | ⟨arg, h1, -⟩
          · exact h1
          · rw [h1] at hpc
            cases hpc
  intro hd
  obtain ⟨hflag, hleft⟩ := hmode.disabled hd
  exact ⟨((hsafe s h).disabled hflag).1, hleft⟩

/-- Two threads before any call, with the empty history. -/
def startHistory : Global (Fin 2) (Mem × Unit) (Local × Hist) :=
  ⟨(start.mem, ()), fun t => (start.loc t, ⟨none, false, false⟩)⟩

theorem startHistory_init : (history (0 : Fin 2)).init startHistory :=
  ⟨start_isInit, rfl, fun _ => rfl⟩

/-- The thread 0 disables its cancellation, and then the thread 1 cancels it. The request
is recorded, and the thread 0 goes on through `pthread_testcancel`. -/
theorem cancel_disabled_two : ∃ s, (history (0 : Fin 2)).ReachVia
      (fun s a => Calm (erase s) a) s ∧
    (s.loc 0).2.disabled = true ∧ s.mem.1.flags &&& PT_FLG_CANCELLED ≠ 0 ∧
    (s.loc 0).1.pc = .idle ∧ Uncancelled 0 s := by
  obtain ⟨s, hs, hd, hf, hpc⟩ := (history (0 : Fin 2)).exists_reachVia
    (fun s a => Calm (erase s) a) startHistory_init
    [(0, { call := .set .setcancelstate PTHREAD_CANCEL_DISABLE }), (0, {}), (0, {}), (0, {}),
      (1, {}), (1, {}), (1, {}), (1, {}), (0, { call := .testcancel }), (0, {})]
    (fun s => (s.loc 0).2.disabled = true ∧ s.mem.1.flags &&& PT_FLG_CANCELLED ≠ 0 ∧
      (s.loc 0).1.pc = .idle) (by decide)
  exact ⟨s, hs, hd, hf, hpc, cancel_disabled hs⟩

/-- The thread 1 has marked the asynchronous thread 0 when that disables its cancellation.
`pthread_setcancelstate` returns, and then the thread 0 is stopped and sent to
`exit_thread`. -/
theorem cancel_disabled_fails : ∃ s, (history (0 : Fin 2)).Reach s ∧
    (s.loc 0).2.disabled = true ∧ (s.loc 0).1.pc = .exitThread ∧ ¬ Uncancelled 0 s := by
  obtain ⟨s, hs, hd, hl, hpc⟩ := (history (0 : Fin 2)).exists_reach startHistory_init
    [(0, { call := .set .setcanceltype PTHREAD_CANCEL_ASYNCHRONOUS }), (0, {}), (0, {}), (0, {}),
      (1, {}), (1, {}), (1, {}), (1, {}),
      (0, { call := .set .setcancelstate PTHREAD_CANCEL_DISABLE }), (0, {}), (0, {}), (0, {}),
      (1, {}), (1, {}), (1, {}), (1, {}), (1, {}), (1, {}), (0, {})]
    (fun s => (s.loc 0).2.disabled = true ∧ (s.loc 0).2.left = true ∧
      (s.loc 0).1.pc = .exitThread) (by decide)
  refine ⟨s, hs, hd, hpc, ?_⟩
  intro h
  rw [(h hd).2] at hl
  cases hl

end Hlpt.Cancel
