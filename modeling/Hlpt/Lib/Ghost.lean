import Hlpt.Lib.Threads

/-!
# `Hlpt.Lib.Ghost`: histories beside a machine of threads

Some statements speak about what happened before: how many calls returned, or what a
call did so far. `Exec.ghost` runs a program with a history, a part shared by all threads
and a part of each thread. The history is written at every step and never read by the
program. So the program has the same runs with it and without it: `reach_erase` forgets
the history, and `exists_ghost` finds one for every run.
-/

set_option autoImplicit false

namespace Hlpt.Lib

universe u v w x y z

variable {T : Type u} {ε : Type x} {μ : Type v} {l : Type w} {γ : Type y} {δ : Type z}

/-- How the history of one step is written: from the choice and the states before and
after the step. -/
abbrev Ghost (T : Type u) (ε : Type x) (μ : Type v) (l : Type w) (γ : Type y) (δ : Type z) :=
  T → ε → μ × l → μ × l → γ × δ → γ × δ

/-- The program with its history. -/
def Exec.ghost (exec : Exec T ε μ l) (note : Ghost T ε μ l γ δ) :
    Exec T ε (μ × γ) (l × δ) := fun t c m p =>
  (exec t c m.1 p.1).map fun r =>
    ((r.1, (note t c (m.1, p.1) r (m.2, p.2)).1), (r.2, (note t c (m.1, p.1) r (m.2, p.2)).2))

/-- The state without the history. -/
def erase (s : Global T (μ × γ) (l × δ)) : Global T μ l := ⟨s.mem.1, fun t => (s.loc t).1⟩

/-- An initial state with its initial history. -/
def ghostInit (init : Global T μ l → Prop) (g : Global T μ l → γ) (d : δ)
    (s : Global T (μ × γ) (l × δ)) : Prop :=
  init (erase s) ∧ s.mem.2 = g (erase s) ∧ ∀ t, (s.loc t).2 = d

variable {exec : Exec T ε μ l} {note : Ghost T ε μ l γ δ} {init : Global T μ l → Prop}
  {g : Global T μ l → γ} {d : δ} {ok : Global T μ l → T × ε → Prop}

/-- What a step of the program with its history does. -/
theorem Exec.ghost_eq_some {t : T} {c : ε} {m m' : μ × γ} {p p' : l × δ} :
    exec.ghost note t c m p = some (m', p') ↔
      exec t c m.1 p.1 = some (m'.1, p'.1) ∧
        (m'.2, p'.2) = note t c (m.1, p.1) (m'.1, p'.1) (m.2, p.2) := by
  rcases m' with ⟨m', γ'⟩
  rcases p' with ⟨p', δ'⟩
  simp only [Exec.ghost, Option.map_eq_some_iff, Prod.mk.injEq, Prod.exists]
  constructor
  · rintro ⟨m₁, p₁, h, ⟨rfl, rfl⟩, rfl, rfl⟩
    exact ⟨h, rfl⟩
  · rintro ⟨h, hg⟩
    exact ⟨m', p', h, ⟨rfl, by rw [← hg]⟩, rfl, by rw [← hg]⟩

variable [DecidableEq T]

/-- A run with its history is a run. -/
theorem reach_erase {s : Global T (μ × γ) (l × δ)}
    (h : ((exec.ghost note).machine (ghostInit init g d)).ReachVia
      (fun s a => ok (erase s) a) s) : (exec.machine init).ReachVia ok (erase s) := by
  refine Exec.invariant_of (P := fun s => (exec.machine init).ReachVia ok (erase s))
    (Q := fun _ => True) (fun _ _ => trivial) (fun s hs => .init hs.1)
    (fun s t c m p _ hp ha he => ?_) h
  have he' := (Exec.ghost_eq_some.mp he).1
  refine hp.step ha (Exec.machine_step_eq_some.mpr ⟨m.1, p.1, he', ?_⟩)
  simp only [erase, Global.mk.injEq, true_and]
  funext u
  by_cases hu : u = t
  · subst hu
    simp
  · simp [hu]

/-- Every run has a history. -/
theorem exists_ghost {s : Global T μ l} (h : (exec.machine init).ReachVia ok s) :
    ∃ s', ((exec.ghost note).machine (ghostInit init g d)).ReachVia
      (fun s a => ok (erase s) a) s' ∧ erase s' = s := by
  induction h with
  | @init s hs => exact ⟨⟨(s.mem, g s), fun t => (s.loc t, d)⟩, .init ⟨hs, rfl, fun _ => rfl⟩, rfl⟩
  | @step s s₁ a _ ha hstep ih =>
      obtain ⟨m, p, he, rfl⟩ := Exec.machine_step_eq_some.mp hstep
      obtain ⟨s', hs', rfl⟩ := ih
      let r := note a.1 a.2 (s'.mem.1, (s'.loc a.1).1) (m, p) (s'.mem.2, (s'.loc a.1).2)
      refine ⟨⟨(m, r.1), Function.update s'.loc a.1 (p, r.2)⟩, hs'.step ha
        (Exec.machine_step_eq_some.mpr ⟨(m, r.1), (p, r.2), Exec.ghost_eq_some.mpr ⟨he, rfl⟩,
          rfl⟩), ?_⟩
      simp only [erase, Global.mk.injEq, true_and]
      funext u
      by_cases hu : u = a.1
      · subst hu
        simp
      · simp [hu]

end Hlpt.Lib
