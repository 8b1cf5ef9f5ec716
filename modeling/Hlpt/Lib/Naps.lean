import Hlpt.Lib.Threads

/-!
# `Hlpt.Lib.Naps`: a call that sleeps, and the others in its sleeps

A function that takes a whole call in one piece has to say when the other threads move. Here
they move only while the thread of the call sleeps, and then they may do anything that `nap`
allows. `Exec.Naps` is such a run, access by access, with its sleeps in order.
-/

set_option autoImplicit false

namespace Hlpt.Lib

universe u v w x y

variable {T : Type u} {ε : Type x} {μ : Type v} {l : Type w} {N : Type y}

/-- A run of the thread `t` inside of a call. `nap n p m m'` says that the sleep `n` at the
place `p` may turn the memory `m` into `m'`. -/
inductive Exec.Naps (exec : Exec T ε μ l) (inside : l → Prop) (nap : N → l → μ → μ → Prop)
    (t : T) : List N → μ × l → μ × l → Prop
  | refl (x : μ × l) : Naps exec inside nap t [] x x
  | step {ns : List N} {c : ε} {m : μ} {p : l} {y z : μ × l} (hin : inside p)
      (h : exec t c m p = some y) (hrest : Naps exec inside nap t ns y z) :
      Naps exec inside nap t ns (m, p) z
  | sleep {n : N} {ns : List N} {m m' : μ} {p : l} {z : μ × l} (hnap : nap n p m m')
      (hrest : Naps exec inside nap t ns (m', p) z) : Naps exec inside nap t (n :: ns) (m, p) z

namespace Exec.Naps

variable {exec : Exec T ε μ l} {inside : l → Prop} {nap : N → l → μ → μ → Prop} {t : T}
  {ns ns' : List N} {x y z : μ × l}

/-- Two parts of a call, one after the other. -/
theorem trans (h : exec.Naps inside nap t ns x y) (h' : exec.Naps inside nap t ns' y z) :
    exec.Naps inside nap t (ns ++ ns') x z := by
  induction h with
  | refl => exact h'
  | step hin hexec _ ih => exact .step hin hexec (ih h')
  | sleep hnap _ ih => exact .sleep hnap (ih h')

/-- A part without a sleep, and the rest of the call. -/
theorem awake (h : exec.Naps inside nap t [] x y) (h' : exec.Naps inside nap t ns y z) :
    exec.Naps inside nap t ns x z :=
  h.trans h'

/-- One access. -/
theorem single {c : ε} {m : μ} {p : l} (hin : inside p) (h : exec t c m p = some y) :
    exec.Naps inside nap t [] (m, p) y :=
  .step hin h (.refl y)

/-- A call that does not sleep is what its thread does alone. -/
theorem alone (h : exec.Naps inside nap t [] x y) : ∃ cs, exec.alone t cs x = some y := by
  generalize hns : ([] : List N) = ns at h
  induction h with
  | refl => exact ⟨[], rfl⟩
  | step _ hexec _ ih =>
      obtain ⟨cs, hcs⟩ := ih hns
      exact ⟨_ :: cs, Exec.alone_cons hexec hcs⟩
  | sleep => cases hns

end Exec.Naps

end Hlpt.Lib
