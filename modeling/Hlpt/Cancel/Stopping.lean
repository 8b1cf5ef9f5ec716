import Hlpt.Cancel.NotLost

/-!
# `Hlpt.Cancel.Stopping`: the cancellers that stop the target

A canceller decides on the flags that it swaps, and redirects the target some steps later.
From its swap to `thread_suspend` the target still runs (`Pc.marks`). From there to
`thread_resume` it does not (`Pc.stops`). Until the state of the target is set it may
still be redirected (`Pc.aims`).

* `Stopped`: the suspensions are at least those of the cancellers that hold the target.
* `Stopped.spared`: nobody aims at a target that runs while nobody is about to stop it.
* `Spared.step`: so it stays until a canceller takes aim.
-/

set_option autoImplicit false

namespace Hlpt.Cancel

open Hlpt.Lib

universe u

/-! ### Who may still redirect the target -/

/-- A canceller that has marked the target and not stopped it yet. -/
def Pc.marks : Pc → Bool
  | .suspend _ => true
  | .idle | .setLoad .. | .setCas .. | .setRet _ | .test | .beginTest | .beginLoad
  | .beginCas _ | .blocked _ | .finish _ | .exitThread | .exit | .exiting | .dead
  | .cancelInvalid | .cancelLoad | .cancelCas _ | .abort _ | .getState .. | .inspect ..
  | .setState _ | .resume _ | .storeMtflag | .cancelRet _ => false

/-- A canceller that holds the target stopped. -/
def Pc.stops : Pc → Bool
  | .abort _ | .getState .. | .inspect .. | .setState _ | .resume _ => true
  | .idle | .setLoad .. | .setCas .. | .setRet _ | .test | .beginTest | .beginLoad
  | .beginCas _ | .blocked _ | .finish _ | .exitThread | .exit | .exiting | .dead
  | .cancelInvalid | .cancelLoad | .cancelCas _ | .suspend _ | .storeMtflag
  | .cancelRet _ => false

/-- A canceller that may still redirect the target. -/
def Pc.aims : Pc → Bool
  | .suspend _ | .abort _ | .getState .. | .inspect .. | .setState _ => true
  | .idle | .setLoad .. | .setCas .. | .setRet _ | .test | .beginTest | .beginLoad
  | .beginCas _ | .blocked _ | .finish _ | .exitThread | .exit | .exiting | .dead
  | .cancelInvalid | .cancelLoad | .cancelCas _ | .resume _ | .storeMtflag
  | .cancelRet _ => false

theorem Pc.marks_or_stops {pc : Pc} (h : pc.aims = true) : pc.marks = true ∨ pc.stops = true := by
  cases pc <;> first | exact .inl rfl | exact .inr rfl | cases h

/-- A canceller that is about to swap the flags of a target that accepts the request at
once. -/
def Pc.swaps (m : Mem) : Pc → Bool
  | .cancelCas oldval =>
      m.flags = oldval ∧
        CANCELLED_ENABLED_ASYNC_P (oldval ||| PT_FLG_CANCELLING ||| PT_FLG_CANCELLED)
  | .idle | .setLoad .. | .setCas .. | .setRet _ | .test | .beginTest | .beginLoad
  | .beginCas _ | .blocked _ | .finish _ | .exitThread | .exit | .exiting | .dead
  | .cancelInvalid | .cancelLoad | .suspend _ | .abort _ | .getState .. | .inspect ..
  | .setState _ | .resume _ | .storeMtflag | .cancelRet _ => false

theorem Pc.swaps_eq {m : Mem} {pc : Pc} (h : pc.swaps m = true) : pc = .cancelCas m.flags ∧
    CANCELLED_ENABLED_ASYNC_P (m.flags ||| PT_FLG_CANCELLING ||| PT_FLG_CANCELLED) = true := by
  cases pc with
  | cancelCas oldval =>
      simp only [swaps, Bool.decide_and, Bool.and_eq_true, decide_eq_true_eq] at h
      obtain ⟨rfl, hen⟩ := h
      exact ⟨rfl, by simpa using hen⟩
  | _ => cases h

variable {T : Type u} [DecidableEq T] {th t : T} {c : Choice} {m m' : Mem} {l l' : Local}
  {s : Global T Mem Local}

/-! ### What one step does -/

/-- How an access changes the count of the suspensions. -/
theorem act_stops {self : Bool} (h : act self c m l = some (m', l')) :
    (l'.pc.stops = l.pc.stops ∧ m'.suspended = m.suspended) ∨
    (l'.pc.stops = true ∧ m'.suspended = m.suspended + 1) ∨
    (l.pc.stops = true ∧ l'.pc.stops = false ∧ m.suspended ≤ m'.suspended + 1) := by
  cases step_of_act h with
  | move hm =>
    cases hm with
    | resumeFails => exact .inr (.inr ⟨rfl, rfl, Nat.le_succ _⟩)
    | _ => exact .inl ⟨rfl, rfl⟩
  | suspend => exact .inr (.inl ⟨rfl, rfl⟩)
  | resumeErr | resume => exact .inr (.inr ⟨rfl, rfl, Nat.sub_le_iff_le_add.mp le_rfl⟩)
  | _ => exact .inl ⟨rfl, rfl⟩

/-- A canceller takes aim with its swap, and only a canceller that aims redirects the
target. -/
theorem act_aims {self : Bool} (h : act self c m l = some (m', l')) :
    (l'.pc.aims = true → l.pc.aims = true ∨ l.pc.swaps m = true) ∧
    (m'.redirected = true → m.redirected = true ∨ l.pc.aims = true) := by
  cases step_of_act h with
  | move hm =>
    refine ⟨fun ha => ?_, .inl⟩
    cases hm with
    | abort | getState | inspect => exact .inl rfl
    | _ => cases ha
  | cancelOther hself hen => exact ⟨fun _ => .inr (by simp [Pc.swaps, hen]), .inl⟩
  | suspend => exact ⟨fun _ => .inl rfl, .inl⟩
  | setState => exact ⟨nofun, fun _ => .inr rfl⟩
  | _ => exact ⟨nofun, .inl⟩

/-- No access goes to `exit_thread`. -/
theorem act_sent {self : Bool} (h : act self c m l = some (m', l')) : l'.pc ≠ .exitThread := by
  cases step_of_act h with
  | move hm => cases hm <;> exact nofun
  | _ => exact nofun

/-- A target that moves is not stopped. -/
theorem exec_runs (h : exec th th c m l = some (m', l')) : m.suspended = 0 := by
  by_contra hne
  rw [exec, if_pos ⟨rfl, hne⟩] at h
  cases h

/-- How a step changes the suspensions and the threads that hold the target. -/
theorem exec_stops (h : exec th t c m l = some (m', l')) :
    (l'.pc.stops = l.pc.stops ∧ m'.suspended = m.suspended) ∨
    (l'.pc.stops = true ∧ m'.suspended = m.suspended + 1) ∨
    (l.pc.stops = true ∧ l'.pc.stops = false ∧ m.suspended ≤ m'.suspended + 1) := by
  rcases exec_cases h with ⟨-, -, rfl, rfl⟩ | ⟨-, hact⟩
  · cases hl : l.pc.stops with
    | true => exact .inr (.inr ⟨rfl, rfl, Nat.le_succ _⟩)
    | false => exact .inl ⟨rfl, rfl⟩
  · exact act_stops hact

/-! ### A target that runs -/

/-- The other threads only cancel, and the suspensions are at least those of the
cancellers that hold the target. -/
structure Stopped (th : T) (s : Global T Mem Local) : Prop where
  callers : ∀ t, t ≠ th → (s.loc t).pc.cancels = true
  stopped : ∃ S : Finset T, (∀ t, t ∈ S ↔ (s.loc t).pc.stops = true) ∧ S.card ≤ s.mem.suspended

/-- A step of one thread keeps the suspensions. -/
theorem Stopped.step (hs : Stopped th s) (hl : t ≠ th → l.pc.cancels = true)
    (h : (l.pc.stops = (s.loc t).pc.stops ∧ m.suspended = s.mem.suspended) ∨
      (l.pc.stops = true ∧ m.suspended = s.mem.suspended + 1) ∨
      ((s.loc t).pc.stops = true ∧ l.pc.stops = false ∧ s.mem.suspended ≤ m.suspended + 1)) :
    Stopped th ⟨m, Function.update s.loc t l⟩ := by
  obtain ⟨S, hS, hcard⟩ := hs.stopped
  have hmem : ∀ {S' : Finset T}, (t ∈ S' ↔ l.pc.stops = true) →
      (∀ u, u ≠ t → (u ∈ S' ↔ u ∈ S)) →
      ∀ u, u ∈ S' ↔ (Function.update s.loc t l u).pc.stops = true := by
    intro S' ht hu
    exact forall_loc_iff (P := fun u (l : Local) => u ∈ S' ↔ l.pc.stops = true) |>.mpr
      ⟨ht, fun u hut => (hu u hut).trans (hS u)⟩
  refine ⟨forall_loc_iff (P := fun u (l : Local) => u ≠ th → l.pc.cancels = true) |>.mpr
    ⟨hl, fun u _ => hs.callers u⟩, ?_⟩
  rcases h with ⟨hl, hm⟩ | ⟨hl, hm⟩ | ⟨hold, hl, hm⟩
  · exact ⟨S, hmem (by rw [hl, hS t]) (fun _ _ => Iff.rfl), hm ▸ hcard⟩
  · refine ⟨insert t S, hmem (by simp [hl]) (fun u hu => by simp [hu]), ?_⟩
    show (insert t S).card ≤ m.suspended
    exact (Finset.card_insert_le t S).trans (by omega)
  · refine ⟨S.erase t, hmem (by simp [hl]) (fun u hu => by simp [hu]), ?_⟩
    show (S.erase t).card ≤ m.suspended
    rw [Finset.card_erase_of_mem ((hS t).mpr hold)]
    omega

omit [DecidableEq T] in
/-- A target that is not stopped is held by nobody. -/
theorem Stopped.not_stops (hs : Stopped th s) (h0 : s.mem.suspended = 0) (t : T) :
    (s.loc t).pc.stops = false := by
  obtain ⟨S, hS, hcard⟩ := hs.stopped
  rw [h0, Nat.le_zero, Finset.card_eq_zero] at hcard
  by_contra ht
  have hmem := (hS t).mpr (Bool.eq_true_of_not_eq_false ht)
  rw [hcard] at hmem
  cases hmem

/-- A thread other than the target only cancels. -/
theorem exec_cancels (h : exec th t c m l = some (m', l')) (ht : t ≠ th)
    (hl : l.pc.cancels = true) : l'.pc.cancels = true := by
  rcases exec_cases h with ⟨rfl, -⟩ | ⟨-, hact⟩
  · exact absurd rfl ht
  · rw [decide_eq_false ht] at hact
    exact act_cancels hact hl

/-- Nobody may still redirect the target, and it is not redirected. -/
def Spared (s : Global T Mem Local) : Prop :=
  s.mem.redirected = false ∧ ∀ t, (s.loc t).pc.aims = false

omit [DecidableEq T] in
/-- Nobody aims at a target that runs, when nobody is about to stop it. -/
theorem Stopped.spared (hs : Stopped th s) (h0 : s.mem.suspended = 0)
    (hr : s.mem.redirected = false) (hmarks : ∀ u, (s.loc u).pc.marks = false) : Spared s := by
  refine ⟨hr, ?_⟩
  intro u
  by_contra ha
  rcases Pc.marks_or_stops (Bool.eq_true_of_not_eq_false ha) with h1 | h1
  · rw [hmarks u] at h1
    cases h1
  · rw [hs.not_stops h0 u] at h1
    cases h1

/-- A target stays spared while no canceller takes aim. -/
theorem Spared.step (hs : Spared s) (hl : l.pc.aims = false)
    (hr : m.redirected = true → s.mem.redirected = true ∨ (s.loc t).pc.aims = true) :
    Spared ⟨m, Function.update s.loc t l⟩ := by
  refine ⟨?_, forall_loc_iff (P := fun _ (l : Local) => l.pc.aims = false) |>.mpr
    ⟨hl, fun u _ => hs.2 u⟩⟩
  by_contra hm
  rcases hr (Bool.eq_true_of_not_eq_false hm) with h1 | h1
  · rw [hs.1] at h1
    cases h1
  · rw [hs.2 t] at h1
    cases h1

/-- An access of one thread keeps the target spared, unless it swaps its flags. -/
theorem Spared.act (hs : Spared s) {self : Bool}
    (h : act self c s.mem (s.loc t) = some (m, l)) (hno : (s.loc t).pc.swaps s.mem = false) :
    Spared ⟨m, Function.update s.loc t l⟩ := by
  obtain ⟨hnew, hr⟩ := act_aims h
  refine hs.step ?_ hr
  by_contra hl
  rcases hnew (Bool.eq_true_of_not_eq_false hl) with h1 | h1
  · rw [hs.2 t] at h1
    cases h1
  · rw [hno] at h1
    cases h1

end Hlpt.Cancel
