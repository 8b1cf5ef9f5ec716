import Mathlib.Data.Finset.Card

/-!
# `Hlpt.Lib.Sleepers`: a kernel's set of sleeping threads

The threads that sleep on one address, for a kernel that may wake any of them.
`wakeOne` takes one sleeper out if there is one. Which one it takes is a choice
of the kernel, so it is an argument.
-/

set_option autoImplicit false

namespace Hlpt.Lib

universe u

variable {T : Type u} [DecidableEq T]

/-- Take one sleeper out. `pick` names it, and `none` is right only when nobody
sleeps. -/
def wakeOne (q : Finset T) : Option T → Option (Finset T)
  | some u => if u ∈ q then some (q.erase u) else none
  | none => if q = ∅ then some ∅ else none

/-- The two outcomes of a wake. -/
theorem wakeOne_eq_some {q q' : Finset T} {pick : Option T} :
    wakeOne q pick = some q' ↔
      (q = ∅ ∧ pick = none ∧ q' = ∅) ∨ ∃ u ∈ q, pick = some u ∧ q' = q.erase u := by
  cases pick with
  | none => simp [wakeOne, eq_comm]
  | some u => simp [wakeOne, eq_comm]

/-- A wake is always possible: of a sleeper, or of nobody. -/
theorem exists_wakeOne (q : Finset T) : ∃ pick q', wakeOne q pick = some q' := by
  rcases q.eq_empty_or_nonempty with rfl | ⟨u, hu⟩
  · exact ⟨none, ∅, rfl⟩
  · exact ⟨some u, q.erase u, if_pos hu⟩

/-- A wake puts nobody to sleep. -/
theorem wakeOne_subset {q q' : Finset T} {pick : Option T} (h : wakeOne q pick = some q') :
    q' ⊆ q := by
  rcases wakeOne_eq_some.mp h with ⟨-, -, rfl⟩ | ⟨u, -, -, rfl⟩
  · exact Finset.empty_subset _
  · exact Finset.erase_subset _ _

/-- A wake with a sleeper left over took another one out. -/
theorem exists_woken {q q' : Finset T} {pick : Option T} (h : wakeOne q pick = some q')
    (hq : q'.Nonempty) : ∃ u ∈ q, u ∉ q' := by
  rcases wakeOne_eq_some.mp h with ⟨-, -, rfl⟩ | ⟨u, hu, -, rfl⟩
  · exact absurd hq Finset.not_nonempty_empty
  · exact ⟨u, hu, Finset.notMem_erase u q⟩

/-- A wake with a sleeper left over took exactly one out. -/
theorem card_of_wakeOne {q q' : Finset T} {pick : Option T} (h : wakeOne q pick = some q')
    (hq : q'.Nonempty) : q'.card + 1 = q.card := by
  rcases wakeOne_eq_some.mp h with ⟨-, -, rfl⟩ | ⟨u, hu, -, rfl⟩
  · exact absurd hq Finset.not_nonempty_empty
  · exact Finset.card_erase_add_one hu

end Hlpt.Lib
