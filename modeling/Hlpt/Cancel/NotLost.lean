import Hlpt.Cancel.Steps

/-!
# `Hlpt.Cancel.NotLost`: a request that was acknowledged is accepted

A `pthread_cancel` that returned 0 has marked the target with `PT_FLG_CANCELLED`, or has
set its PC to `exit_thread`, as long as it did not pass over the target (`NoPass`). It
passes over a target that was in a cancellation point when the canceller loaded its flags,
and about which `in_cancelpoint_p` then answers no. Such a target has
`PT_FLG_CANCELLING` only, which no cancellation point tests.

* `cancel_not_lost`: without a pass no request is lost.
* `cancel_lost`: a run with a pass after which the target goes on.
-/

set_option autoImplicit false

namespace Hlpt.Cancel

open Hlpt.Lib

universe u

/-! ### What a request leads to -/

/-- The control points of a thread that is in `exit_thread` or in `pthread_exit`. -/
def Pc.exits : Pc → Bool
  | .exitThread | .exit | .exiting | .dead => true
  | .idle | .setLoad .. | .setCas .. | .setRet _ | .test | .beginTest | .beginLoad
  | .beginCas _ | .blocked _ | .finish _ | .cancelInvalid | .cancelLoad | .cancelCas _
  | .suspend _ | .abort _ | .getState .. | .inspect .. | .setState _ | .resume _
  | .storeMtflag | .cancelRet _ => false

/-- The control points of a thread outside of all functions or in `pthread_cancel`. -/
def Pc.cancels : Pc → Bool
  | .idle | .cancelInvalid | .cancelLoad | .cancelCas _ | .suspend _ | .abort _ | .getState ..
  | .inspect .. | .setState _ | .resume _ | .storeMtflag | .cancelRet _ => true
  | .setLoad .. | .setCas .. | .setRet _ | .test | .beginTest | .beginLoad | .beginCas _
  | .blocked _ | .finish _ | .exitThread | .exit | .exiting | .dead => false

variable {T : Type u}

/-- The target is on its way out: in one of the exit functions, or with its PC set to
`exit_thread`. -/
def Exiting (th : T) (s : Global T Mem Local) : Prop :=
  (s.loc th).pc.exits = true ∨ s.mem.redirected = true

/-- The request will end the target: the target exits, or it has `PT_FLG_CANCELLED`. -/
def Accepted (th : T) (s : Global T Mem Local) : Prop :=
  Exiting th s ∨ s.mem.flags &&& PT_FLG_CANCELLED ≠ 0

instance (th : T) (s : Global T Mem Local) : Decidable (Exiting th s) :=
  inferInstanceAs (Decidable (_ ∨ _))

instance (th : T) (s : Global T Mem Local) : Decidable (Accepted th s) :=
  inferInstanceAs (Decidable (_ ∨ _))

/-- The canceller does not pass over a stopped target that will not accept the request:
when `in_cancelpoint_p` is asked and answers no, the target exits or is marked
already. -/
def NoPass (th : T) (s : Global T Mem Local) (a : T × Choice) : Prop :=
  match (s.loc a.1).pc with
  | .inspect oldval err =>
      oldval &&& PT_FLG_CANCEL_TRANS = 0 ∨ a.2.inPoint = true ∨ err = true ∨ Accepted th s
  | _ => True

instance (th : T) (s : Global T Mem Local) (a : T × Choice) : Decidable (NoPass th s a) := by
  unfold NoPass
  split <;> infer_instance

variable [DecidableEq T] {th t : T} {c : Choice} {m : Mem} {l : Local}
  {s : Global T Mem Local}

/-! ### The invariant -/

/-- What the control point of a canceller says. -/
def PcOk (th : T) (s : Global T Mem Local) (t : T) : Prop :=
  match (s.loc t).pc with
  | .resume err => err = false → Accepted th s
  | .storeMtflag => Accepted th s
  | .cancelRet r => r = .ok → Accepted th s
  | .exitThread | .exit | .exiting | .dead
  | .idle | .setLoad .. | .setCas .. | .setRet _ | .test | .beginTest | .beginLoad
  | .beginCas _ | .blocked _ | .finish _ | .cancelInvalid | .cancelLoad | .cancelCas _
  | .suspend _ | .abort _ | .getState .. | .inspect .. | .setState _ => True

/-- Requests that were acknowledged are accepted, and the target does not overlook one
that it accepts at once. -/
structure Inv (th : T) (s : Global T Mem Local) : Prop where
  pc : ∀ t, PcOk th s t
  acknowledged : s.mem.acknowledged = true → Accepted th s
  atOnce : CANCELLED_ENABLED_ASYNC_P s.mem.flags = true → Exiting th s
  callers : ∀ t, t ≠ th → (s.loc t).pc.cancels = true

/-! ### What one step does -/

/-- A step is the redirected target's way to `exit_thread`, or an access of a thread that
is not stopped. -/
theorem exec_cases {m' : Mem} {l' : Local} (h : exec th t c m l = some (m', l')) :
    (t = th ∧ m.redirected = true ∧ m' = { m with redirected := false } ∧
      l' = { l with pc := .exitThread }) ∨
    ((t = th → m.redirected = true → l.pc = .dead) ∧ act (t = th) c m l = some (m', l')) := by
  unfold exec at h
  split at h
  · cases h
  · split at h
    · rename_i hr
      simp only [Option.some.injEq, Prod.mk.injEq] at h
      exact .inl ⟨hr.1, hr.2.1, h.1.symm, h.2.symm⟩
    · rename_i hr
      refine .inr ⟨fun ht hred => ?_, h⟩
      by_contra hpc
      exact hr ⟨ht, hred, hpc⟩

/-- A thread in the exit functions stays there, and an access does not undo a
redirection. -/
theorem act_exits {self : Bool} {m' : Mem} {l' : Local} (h : act self c m l = some (m', l')) :
    (l.pc.exits = true → l'.pc.exits = true) ∧ (m.redirected = true → m'.redirected = true) := by
  cases step_of_act h with
  | move hm =>
    refine ⟨fun hx => ?_, id⟩
    cases hm <;> cases hx
  | exitThread | exit | exiting => exact ⟨fun _ => rfl, id⟩
  | setState => exact ⟨nofun, fun _ => rfl⟩
  | _ => exact ⟨nofun, id⟩

/-- The flags that no access clears. -/
structure Kept (b : BitVec 32) : Prop where
  disable : ~~~PT_FLG_CANCEL_DISABLE &&& b = b
  async : ~~~PT_FLG_CANCEL_ASYNC &&& b = b
  transition : ~~~(PT_FLG_CANCEL_ASYNC ||| PT_FLG_CANCEL_TRANS) &&& b = b

theorem kept_cancelled : Kept PT_FLG_CANCELLED := ⟨by decide, by decide, by decide⟩

theorem kept_exiting : Kept PT_FLG_EXITING := ⟨by decide, by decide, by decide⟩

/-- A setter leaves the other flags set. -/
theorem Setter.newval_keeps {f : Setter} {arg x b : BitVec 32} (hb : Kept b)
    (hx : x &&& b ≠ 0) : f.newval arg x &&& b ≠ 0 := by
  simp only [Setter.newval]
  split
  · exact or_and_ne_zero hx
  · have hkeep : ~~~f.flag &&& b = b := by
      cases f with
      | setcancelstate => exact hb.disable
      | setcanceltype => exact hb.async
    rwa [and_and_of_le hkeep]

/-- An access leaves the other flags set. -/
theorem act_keeps {self : Bool} {m' : Mem} {l' : Local} {b : BitVec 32} (hb : Kept b)
    (h : act self c m l = some (m', l')) (hm : m.flags &&& b ≠ 0) : m'.flags &&& b ≠ 0 := by
  cases step_of_act h with
  | setExit | setCas => exact Setter.newval_keeps hb hm
  | exitThread | exit | cancelSelf | cancelOther => exact or_and_ne_zero hm
  | beginExit | beginCas | cancelMark => exact or_and_ne_zero (or_and_ne_zero hm)
  | finish =>
    show (_ &&& ~~~(PT_FLG_CANCEL_ASYNC ||| PT_FLG_CANCEL_TRANS)) &&& b ≠ 0
    rwa [and_and_of_le hb.transition]
  | _ => exact hm

/-- A request that is accepted at once is either new, in the step of a thread that goes to
exit, or was there before. -/
theorem act_atOnce {self : Bool} {m' : Mem} {l' : Local} (h : act self c m l = some (m', l'))
    (ha : CANCELLED_ENABLED_ASYNC_P m'.flags = true) :
    l'.pc.exits = true ∨ CANCELLED_ENABLED_ASYNC_P m.flags = true := by
  cases step_of_act h with
  | setExit | beginExit | exitThread | exit | cancelSelf => exact .inl rfl
  | setCas hen | beginCas hen | cancelMark hen => exact absurd ha hen
  | cancelOther hself hen =>
    rw [enabled_async_cancelling] at ha
    exact .inr ha
  | finish =>
    -- A thread that leaves a cancellation point is deferred.
    have hdef : (m.flags &&& ~~~(PT_FLG_CANCEL_ASYNC ||| PT_FLG_CANCEL_TRANS)) &&&
        PT_FLG_CANCEL_ASYNC = 0 := by
      rw [BitVec.and_assoc]
      exact BitVec.and_zero
    rw [not_enabled_of_deferred hdef] at ha
    cases ha
  | _ => exact .inr ha

/-- A step keeps the target on its way out. -/
theorem Exiting.step (hs : Exiting th s) (h : exec th t c s.mem (s.loc t) = some (m, l)) :
    Exiting th ⟨m, Function.update s.loc t l⟩ := by
  rcases exec_cases h with ⟨rfl, -, -, rfl⟩ | ⟨hred, hact⟩
  · refine .inl ?_
    simp only [Function.update_self]
    rfl
  · obtain ⟨hexits, hkeep⟩ := act_exits hact
    by_cases ht : t = th
    · subst ht
      refine .inl ?_
      simp only [Function.update_self]
      rcases hs with hx | hr
      · exact hexits hx
      · exact hexits (by rw [hred rfl hr]; rfl)
    · rcases hs with hx | hr
      · refine .inl ?_
        simp only [Function.update_of_ne (Ne.symm ht)]
        exact hx
      · exact .inr (hkeep hr)

/-- A step keeps a request accepted. -/
theorem Accepted.step (hs : Accepted th s) (h : exec th t c s.mem (s.loc t) = some (m, l)) :
    Accepted th ⟨m, Function.update s.loc t l⟩ := by
  rcases hs with hx | hm
  · exact .inl (hx.step h)
  · refine .inr ?_
    rcases exec_cases h with ⟨-, -, rfl, -⟩ | ⟨-, hact⟩
    · exact hm
    · exact act_keeps kept_cancelled hact hm

/-- A thread other than the target only cancels. -/
theorem act_cancels {m' : Mem} {l' : Local} (h : act false c m l = some (m', l'))
    (hl : l.pc.cancels = true) : l'.pc.cancels = true := by
  cases step_of_act h with
  | move hm =>
    cases hm with
    | set hself | setEinval hself | testcancel hself | cancelpoint hself | callExit hself =>
      cases hself
    | _ => first | rfl | cases hl
  | cancelSelf hself => cases hself
  | _ => first | rfl | cases hl

/-- How a canceller gets to its return of 0: it marks the target, finds it marked,
redirects it, or passes over it. -/
theorem act_accepts {self : Bool} {m' : Mem} {l' : Local} (h : act self c m l = some (m', l')) :
    (l'.pc = .resume false → m'.redirected = true ∨ ∃ oldval, l.pc = .inspect oldval false ∧
      oldval &&& PT_FLG_CANCEL_TRANS ≠ 0 ∧ c.inPoint = false) ∧
    (l'.pc = .storeMtflag → m'.flags &&& PT_FLG_CANCELLED ≠ 0 ∨ l.pc = .resume false) ∧
    (l'.pc = .cancelRet .ok → l.pc = .storeMtflag) ∧
    (m'.acknowledged = true → m.acknowledged = true ∨ l.pc = .cancelRet .ok) := by
  have hset : ∀ f : BitVec 32,
      (f ||| PT_FLG_CANCELLING ||| PT_FLG_CANCELLED) &&& PT_FLG_CANCELLED ≠ 0 := by
    intro f
    rw [or_and_self]
    decide
  cases step_of_act h with
  | move hm =>
    refine ⟨fun hr => ?_, fun hs => ?_, fun hr => ?_, .inl⟩
    · cases hm with
      | inspectPasses htrans hin =>
        cases hr
        exact .inr ⟨_, rfl, htrans, hin⟩
      | _ => cases hr
    · cases hm with
      | cancelMarked hm =>
        have hmarked := hset m.flags
        rw [← hm] at hmarked
        exact .inl hmarked
      | _ => cases hs
    · cases hm <;> cases hr
  | cancelMark => exact ⟨nofun, fun _ => .inl (hset _), nofun, .inl⟩
  | setState => exact ⟨fun _ => .inl rfl, nofun, nofun, .inl⟩
  | resume => exact ⟨nofun, fun _ => .inr rfl, nofun, .inl⟩
  | storeMtflag => exact ⟨nofun, nofun, fun _ => rfl, .inl⟩
  | cancelRet => exact ⟨nofun, nofun, nofun, fun ha => by simpa using ha⟩
  | _ => exact ⟨nofun, nofun, nofun, .inl⟩

/-! ### Whole runs -/

omit [DecidableEq T] in
/-- What the control point of a canceller says stays true while others move. -/
theorem PcOk.of_accepted {s' : Global T Mem Local} {u : T} (hpc : PcOk th s u)
    (hacc : Accepted th s → Accepted th s') (hu : s'.loc u = s.loc u) : PcOk th s' u := by
  unfold PcOk at *
  rw [hu]
  revert hpc
  cases (s.loc u).pc with
  | resume err => exact fun h he => hacc (h he)
  | storeMtflag => exact hacc
  | cancelRet r => exact fun h hr => hacc (h hr)
  | _ => exact fun _ => trivial

/-- The thread that moves. -/
theorem Inv.pc_step (hs : Inv th s) (hok : NoPass th s (t, c))
    (h : exec th t c s.mem (s.loc t) = some (m, l)) :
    PcOk th ⟨m, Function.update s.loc t l⟩ t := by
  have hacc : Accepted th s → Accepted th ⟨m, Function.update s.loc t l⟩ := fun ha => ha.step h
  have hpc := hs.pc t
  unfold PcOk
  simp only [Function.update_self]
  rcases exec_cases h with ⟨-, -, -, rfl⟩ | ⟨-, hact⟩
  · trivial
  · obtain ⟨hresume, hstore, hret, -⟩ := act_accepts hact
    cases hl : l.pc with
    | resume err =>
        rintro rfl
        rcases hresume hl with hr | ⟨oldval, hi, htrans, hin⟩
        · exact .inl (.inr hr)
        · -- `in_cancelpoint_p` answered no.
          simp only [NoPass, hi] at hok
          rcases hok with h0 | h0 | h0 | h0
          · exact absurd h0 htrans
          · rw [hin] at h0
            cases h0
          · cases h0
          · exact hacc h0
    | storeMtflag =>
        rcases hstore hl with hm | hr
        · exact .inr hm
        · simp only [PcOk, hr] at hpc
          exact hacc (hpc trivial)
    | cancelRet r =>
        rintro rfl
        have hst := hret hl
        simp only [PcOk, hst] at hpc
        exact hacc hpc
    | _ => trivial

/-- A step in which no canceller passes over the target keeps the invariant. -/
theorem Inv.step (hs : Inv th s) (hok : NoPass th s (t, c))
    (h : exec th t c s.mem (s.loc t) = some (m, l)) :
    Inv th ⟨m, Function.update s.loc t l⟩ where
  pc u := by
    by_cases hut : u = t
    · subst hut
      exact hs.pc_step hok h
    · exact (hs.pc u).of_accepted (fun ha => ha.step h) (Function.update_of_ne hut l s.loc)
  acknowledged ha := by
    have hold : Accepted th s := by
      rcases exec_cases h with ⟨-, -, rfl, -⟩ | ⟨-, hact⟩
      · exact hs.acknowledged ha
      · rcases (act_accepts hact).2.2.2 ha with h0 | h0
        · exact hs.acknowledged h0
        · have hpc := hs.pc t
          simp only [PcOk, h0] at hpc
          exact hpc trivial
    exact hold.step h
  atOnce ha := by
    rcases exec_cases h with ⟨rfl, -, rfl, rfl⟩ | ⟨-, hact⟩
    · exact (hs.atOnce ha).step h
    · rcases act_atOnce hact ha with hx | hold
      · by_cases ht : t = th
        · subst ht
          refine .inl ?_
          simp only [Function.update_self]
          exact hx
        · rw [decide_eq_false ht] at hact
          have hc := act_cancels hact (hs.callers t ht)
          cases hl : l.pc <;> simp [hl, Pc.cancels, Pc.exits] at hc hx
      · exact (hs.atOnce hold).step h
  callers := forall_loc_iff (P := fun u (l : Local) => u ≠ th → l.pc.cancels = true) |>.mpr
    ⟨fun ht => by
      rcases exec_cases h with ⟨rfl, -⟩ | ⟨-, hact⟩
      · exact absurd rfl ht
      · rw [decide_eq_false ht] at hact
        exact act_cancels hact (hs.callers t ht), fun u _ => hs.callers u⟩

/-- The invariant holds in every run in which no canceller passes over the target. -/
theorem inv_of_reach (h : (machine th).ReachVia (NoPass th) s) : Inv th s := by
  refine Exec.invariant (fun s hs => ?_) (fun s t c m p hs hok he => hs.step hok he) h
  obtain ⟨⟨flags, id, hflags, -, hm⟩, hloc⟩ := hs
  constructor
  · intro t
    simp [PcOk, hloc]
  · simp [hm]
  · simp [hm, hflags]
  · simp [hloc, Pc.cancels]

/-! ### The requests -/

/-- The target's own steps up to `pthread_exit`, at most `n` of them. -/
def Exits (th : T) (n : ℕ) (s : Global T Mem Local) : Prop :=
  ∃ k ≤ n, ((machine th).run s (List.replicate k (th, {}))).any
    fun s' => (s'.loc th).pc = .exit

/-- No request is lost: after a `pthread_cancel` that returned 0 the target exits or is
marked, and a marked target with cancellation enabled goes to `pthread_exit` from its next
`pthread_testcancel` or cancellation point. -/
structure NotLost (th : T) (s : Global T Mem Local) : Prop where
  accepted : s.mem.acknowledged = true → Accepted th s
  terminates : s.mem.suspended = 0 → ¬ Exiting th s → CANCELLED_ENABLED_P s.mem.flags = true →
    (s.loc th).pc = .test ∨ (s.loc th).pc = .beginTest → Exits th 3 s

/-- From the start of a cancellation point a marked target gets to `pthread_exit`. -/
theorem Inv.terminates (hs : Inv th s) (hsus : s.mem.suspended = 0) (hx : ¬ Exiting th s)
    (hen : CANCELLED_ENABLED_P s.mem.flags = true)
    (hpc : (s.loc th).pc = .test ∨ (s.loc th).pc = .beginTest) : Exits th 3 s := by
  have hred : s.mem.redirected = false := by
    by_contra hr
    exact hx (.inr (by simpa using hr))
  rcases hpc with hpc | hpc
  · refine ⟨1, by omega, ?_⟩
    simp [Machine.run, Machine.runVia, machine, Exec.machine, exec, act, hsus, hred, hpc, hen]
  · -- The target is deferred, since it did not accept the request at once.
    have hasync : s.mem.flags &&& PT_FLG_CANCEL_ASYNC = 0 := by
      refine (enabled_async _ hen).mp ?_
      by_contra hn
      exact hx (hs.atOnce (by simpa using hn))
    have hboth : s.mem.flags &&& (PT_FLG_CANCEL_ASYNC ||| PT_FLG_CANCEL_DISABLE) = 0 := by
      rw [BitVec.and_or_distrib_left, hasync, enabled_disable hen]
      rfl
    have hne : ¬ s.mem.flags = s.mem.flags ||| PT_FLG_CANCEL_ASYNC ||| PT_FLG_CANCEL_TRANS := by
      intro he
      have := enabled_or_async hen
      rw [← he, not_enabled_of_deferred hasync] at this
      cases this
    refine ⟨3, le_rfl, ?_⟩
    simp [List.replicate, Machine.run, Machine.runVia, machine, Exec.machine, exec, act, hsus,
      hred, hpc, hboth, hne, enabled_or_async hen]

/-- A cancellation request is not lost, in every run in which no canceller passes over a
stopped target that does not accept the request. -/
theorem cancel_not_lost (h : (machine th).ReachVia (NoPass th) s) : NotLost th s := by
  have hs := inv_of_reach h
  exact ⟨hs.acknowledged, hs.terminates⟩

/-- Two threads before any call. -/
def start : Global (Fin 2) Mem Local := ⟨⟨0, 1, 0, false, false, false⟩, fun _ => ⟨.idle, 0⟩⟩

theorem start_isInit : IsInit start := ⟨⟨0, 1, by decide, by decide, rfl⟩, fun _ => rfl⟩

/-- The thread 1 cancels the thread 0 in a blocking call, and redirects it. -/
theorem cancel_not_lost_two : ∃ s : Global (Fin 2) Mem Local,
    (machine 0).ReachVia (NoPass 0) s ∧ s.mem.acknowledged = true ∧
    s.mem.redirected = true ∧ NotLost 0 s := by
  obtain ⟨s, hs, ha, hr⟩ := (machine 0).exists_reachVia (NoPass 0) start_isInit
    [(0, { call := .cancelpoint }), (0, {}), (0, {}), (0, {}), (1, {}), (1, {}), (1, {}),
      (1, {}), (1, {}), (1, {}), (1, {}), (1, { inPoint := true }), (1, {}), (1, {}), (1, {}),
      (1, {})]
    (fun s => s.mem.acknowledged = true ∧ s.mem.redirected = true) (by decide)
  exact ⟨s, hs, ha, hr, cancel_not_lost hs⟩

/-- A lost request. The thread 1 stops the thread 0 between
`__pthread_cancelpoint_begin` and the trap, and `in_cancelpoint_p` answers no. The thread
0 goes on, leaves its cancellation point, and its flags ask for nothing. -/
theorem cancel_lost : ∃ s : Global (Fin 2) Mem Local, (machine 0).Reach s ∧
    s.mem.acknowledged = true ∧ (s.loc 0).pc = .idle ∧
    s.mem.flags = PT_FLG_CANCELLING ∧ ¬ NotLost 0 s := by
  obtain ⟨s, hs, ha, hpc, hf, hn⟩ := (machine 0).exists_reach start_isInit
    [(0, { call := .cancelpoint }), (0, {}), (0, {}), (0, {}), (1, {}), (1, {}), (1, {}),
      (1, {}), (1, {}), (1, {}), (1, {}), (1, {}), (1, {}), (1, {}), (1, {}), (0, {}), (0, {})]
    (fun s => s.mem.acknowledged = true ∧ (s.loc 0).pc = .idle ∧
      s.mem.flags = PT_FLG_CANCELLING ∧ ¬ Accepted 0 s) (by decide)
  exact ⟨s, hs, ha, hpc, hf, fun h => hn (h.accepted ha)⟩

end Hlpt.Cancel
