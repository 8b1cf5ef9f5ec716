import Mathlib.Data.List.FinRange

/-!
# `Hlpt.Lib.Loop`: counted loops

A C loop over `0 .. n - 1` is a fold over `List.finRange n`. Its invariant speaks about
the number of turns that are done.
-/

set_option autoImplicit false

namespace Hlpt.Lib

universe u

/-- The invariant rule of a counted loop: it holds before the first turn, and each turn
takes it from `i` to `i + 1`. -/
theorem finRange_loop {σ : Type u} {P : ℕ → σ → Prop} {n : ℕ} {f : σ → Fin n → σ} {s : σ}
    (hinit : P 0 s) (hturn : ∀ (i : Fin n) (s : σ), P i s → P (i + 1) (f s i)) :
    P n ((List.finRange n).foldl f s) := by
  induction n with
  | zero => exact hinit
  | succ n ih =>
      rw [List.finRange_succ_last, List.foldl_append, List.foldl_map]
      exact hturn (Fin.last n) _ (ih fun i s hi => hturn i.castSucc s hi)

end Hlpt.Lib
