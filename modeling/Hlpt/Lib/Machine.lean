import Mathlib.Data.Option.Basic
import Mathlib.Logic.Basic

/-!
# `Hlpt.Lib.Machine`: transition systems and their runs

A `Machine` is a transition system whose steps are computed: `step s a` is the
state after the action `a`, or `none` when `a` is not enabled in `s`.

`ReachVia ok s` says that some run from an initial state ends in `s` and that
every step of the run meets the condition `ok` on its source state and action.
`Reach` is the case without a condition. A condition on steps is how a result
about "every run in which this never happens" is stated, so the induction rules
are proved for `ReachVia` once and serve both.

* `ReachVia.invariant`: an inductive invariant holds in every reached state.
* `ReachVia.invariant_of`: the same, when the step lemma may use an invariant
  that is already known.
* `runVia` evaluates a list of actions, and `exists_reachVia` turns an evaluated
  run into a reached state.
* `run_iff_runVia`: the condition is exact for the runs of a machine, when a step that
  breaks it cannot be made good again. `run_cases` tells the two cases apart.
-/

set_option autoImplicit false

namespace Hlpt.Lib

universe u v

/-- A transition system with computed steps. -/
structure Machine (σ : Type u) (α : Type v) where
  init : σ → Prop
  step : σ → α → Option σ

namespace Machine

variable {σ : Type u} {α : Type v} (M : Machine σ α)

/-- The states reached by runs whose steps all meet `ok`. -/
inductive ReachVia (ok : σ → α → Prop) : σ → Prop
  | init {s : σ} (h : M.init s) : ReachVia ok s
  | step {s s' : σ} {a : α} (hs : ReachVia ok s) (ha : ok s a)
      (h : M.step s a = some s') : ReachVia ok s'

/-- The reachable states. -/
abbrev Reach (s : σ) : Prop := M.ReachVia (fun _ _ => True) s

variable {M}

/-- A weaker condition on the steps reaches at least as much. -/
theorem ReachVia.mono {ok ok' : σ → α → Prop} {s : σ} (h : M.ReachVia ok s)
    (himp : ∀ s a, ok s a → ok' s a) : M.ReachVia ok' s := by
  induction h with
  | init h => exact .init h
  | step _ ha h ih => exact .step ih (himp _ _ ha) h

/-- Every state reached under a condition is reachable. -/
theorem ReachVia.reach {ok : σ → α → Prop} {s : σ} (h : M.ReachVia ok s) : M.Reach s :=
  h.mono fun _ _ _ => trivial

/-- An inductive invariant that may use a known invariant `Q` in its step. -/
theorem ReachVia.invariant_of {ok : σ → α → Prop} {P Q : σ → Prop} {s : σ}
    (hQ : ∀ s, M.ReachVia ok s → Q s)
    (hinit : ∀ s, M.init s → P s)
    (hstep : ∀ s a s', Q s → P s → ok s a → M.step s a = some s' → P s')
    (h : M.ReachVia ok s) : P s := by
  induction h with
  | init h => exact hinit _ h
  | step hs ha h ih => exact hstep _ _ _ (hQ _ hs) ih ha h

/-- An inductive invariant holds in every reached state. -/
theorem ReachVia.invariant {ok : σ → α → Prop} {P : σ → Prop} {s : σ}
    (hinit : ∀ s, M.init s → P s)
    (hstep : ∀ s a s', P s → ok s a → M.step s a = some s' → P s')
    (h : M.ReachVia ok s) : P s :=
  h.invariant_of (Q := fun _ => True) (fun _ _ => trivial) hinit
    fun s a s' _ => hstep s a s'

/-! ### Evaluated runs -/

/-- The state after a list of actions. It is `none` when an action is not enabled
or does not meet `ok`. -/
def runVia (M : Machine σ α) (ok : σ → α → Prop) [∀ s a, Decidable (ok s a)] :
    σ → List α → Option σ
  | s, [] => some s
  | s, a :: as => if ok s a then (M.step s a).bind fun s' => runVia M ok s' as else none

/-- The state after a list of actions, with no condition on the steps. -/
def run (M : Machine σ α) (s : σ) (as : List α) : Option σ :=
  M.runVia (fun _ _ => True) s as

/-- An evaluated run extends a reached state. -/
theorem ReachVia.runVia {ok : σ → α → Prop} [∀ s a, Decidable (ok s a)] :
    ∀ {as : List α} {s s' : σ}, M.ReachVia ok s → M.runVia ok s as = some s' →
      M.ReachVia ok s'
  | [], s, s', hs, h => by
      simp only [Machine.runVia, Option.some.injEq] at h
      exact h ▸ hs
  | a :: as, s, s', hs, h => by
      simp only [Machine.runVia] at h
      split at h
      · rename_i ha
        obtain ⟨s₁, h₁, h₂⟩ := Option.bind_eq_some_iff.mp h
        exact (hs.step ha h₁).runVia h₂
      · cases h

/-- A run evaluated from an initial state, with a decidable fact about its last
state. -/
theorem exists_reachVia (M : Machine σ α) (ok : σ → α → Prop) [∀ s a, Decidable (ok s a)]
    {s : σ} (h₀ : M.init s) (as : List α) (p : σ → Prop) [DecidablePred p]
    (h : (M.runVia ok s as).any (fun s => decide (p s)) = true) :
    ∃ s', M.ReachVia ok s' ∧ p s' := by
  cases hr : M.runVia ok s as with
  | none => simp [hr] at h
  | some s' =>
      rw [hr] at h
      exact ⟨s', ReachVia.runVia (.init h₀) hr, by simpa using h⟩

/-- The same, with no condition on the steps. -/
theorem exists_reach (M : Machine σ α) {s : σ} (h₀ : M.init s) (as : List α)
    (p : σ → Prop) [DecidablePred p]
    (h : (M.run s as).any (fun s => decide (p s)) = true) : ∃ s', M.Reach s' ∧ p s' :=
  M.exists_reachVia _ h₀ as p h

/-- A run without a condition makes its first step, and goes on. -/
theorem run_cons {s s' : σ} {a : α} {as : List α} :
    M.run s (a :: as) = some s' ↔ ∃ s₁, M.step s a = some s₁ ∧ M.run s₁ as = some s' := by
  rw [run, runVia, if_pos trivial, Option.bind_eq_some_iff]
  rfl

/-- What every step keeps, a run keeps. -/
theorem run_invariant {P : σ → Prop} (hstep : ∀ s a s', P s → M.step s a = some s' → P s') :
    ∀ {as : List α} {s s' : σ}, P s → M.run s as = some s' → P s'
  | [], s, s', hs, h => by
      rw [run, runVia, Option.some.injEq] at h
      exact h ▸ hs
  | a :: as, s, s', hs, h => by
      obtain ⟨s₁, h₁, h₂⟩ := run_cons.mp h
      exact run_invariant hstep (hstep s a s₁ hs h₁) h₂

/-- A run meets the condition on its steps and keeps `P`, or it comes to `B`. A step from `P`
that does not meet the condition leads to `B`, which no step leaves. -/
theorem run_cases {ok : σ → α → Prop} [∀ s a, Decidable (ok s a)] {P B : σ → Prop}
    (hok : ∀ s a s', P s → ok s a → M.step s a = some s' → P s')
    (hnot : ∀ s a s', P s → ¬ ok s a → M.step s a = some s' → B s')
    (hkeep : ∀ s a s', B s → M.step s a = some s' → B s') :
    ∀ {as : List α} {s s' : σ}, P s → M.run s as = some s' →
      M.runVia ok s as = some s' ∧ P s' ∨ M.runVia ok s as = none ∧ B s'
  | [], s, s', hs, h => by
      rw [run, runVia, Option.some.injEq] at h
      subst h
      exact .inl ⟨rfl, hs⟩
  | a :: as, s, s', hs, h => by
      obtain ⟨s₁, h₁, h₂⟩ := run_cons.mp h
      rw [runVia]
      by_cases ha : ok s a
      · rw [if_pos ha, h₁, Option.bind_some]
        exact run_cases hok hnot hkeep (hok s a s₁ hs ha h₁) h₂
      · rw [if_neg ha]
        exact .inr ⟨rfl, run_invariant hkeep (hnot s a s₁ hs ha h₁) h₂⟩

/-- The rule of an exact condition on the steps. A step that meets `ok` keeps `P`. One that
does not leads to `B`, which no step leaves and which excludes `P`. -/
theorem run_iff_runVia {ok : σ → α → Prop} [∀ s a, Decidable (ok s a)] {P B : σ → Prop}
    (hok : ∀ s a s', P s → ok s a → M.step s a = some s' → P s')
    (hnot : ∀ s a s', ¬ ok s a → M.step s a = some s' → B s')
    (hkeep : ∀ s a s', B s → M.step s a = some s' → B s') (hexcl : ∀ s, B s → ¬ P s)
    {as : List α} {s s' : σ} (hs : P s) (h : M.run s as = some s') :
    P s' ↔ M.runVia ok s as = some s' := by
  rcases run_cases hok (fun s a s' _ => hnot s a s') hkeep hs h with ⟨hrun, hs'⟩ | ⟨hrun, hs'⟩
  · exact iff_of_true hs' hrun
  · rw [hrun]
    exact iff_of_false (hexcl s' hs') (Option.some_ne_none s').symm

end Machine

end Hlpt.Lib
