import Mathlib.Data.List.TakeWhile

/-!
# `Hlpt.Lib.Prefix`: predicates that hold of a prefix

On a list that is sorted by some key, a bound on the key holds of a prefix. `takeWhile` and
`dropWhile` then split the list by the predicate, as `filter` does.

* `mem_takeWhile_iff`, `mem_dropWhile_iff`: the two parts.
* `le_findIdx_iff`: how far a predicate fails.
-/

set_option autoImplicit false

namespace Hlpt.Lib

universe u

variable {α : Type u} {p : α → Bool} {l : List α} {a : α}

/-- If the predicate fails at the head, it fails everywhere. -/
theorem eq_false_of_head (h : (a :: l).Pairwise fun x y => p y = true → p x = true)
    (ha : p a = false) {b : α} (hb : b ∈ a :: l) : p b = false := by
  rcases List.mem_cons.mp hb with rfl | hmem
  · exact ha
  · apply Bool.eq_false_iff.mpr
    intro hpb
    exact absurd ((List.pairwise_cons.mp h).1 b hmem hpb) (by simp [ha])

theorem mem_takeWhile_iff (h : l.Pairwise fun x y => p y = true → p x = true) :
    a ∈ l.takeWhile p ↔ a ∈ l ∧ p a = true := by
  induction l with
  | nil => simp
  | cons b l ih =>
      by_cases hb : p b = true
      · rw [List.takeWhile_cons_of_pos hb, List.mem_cons, ih (List.pairwise_cons.mp h).2,
          List.mem_cons]
        constructor
        · rintro (rfl | ⟨hmem, ha⟩)
          · exact ⟨.inl rfl, hb⟩
          · exact ⟨.inr hmem, ha⟩
        · rintro ⟨rfl | hmem, ha⟩
          · exact .inl rfl
          · exact .inr ⟨hmem, ha⟩
      · rw [List.takeWhile_cons_of_neg hb]
        apply iff_of_false List.not_mem_nil
        rintro ⟨hmem, ha⟩
        rw [eq_false_of_head h (Bool.eq_false_iff.mpr hb) hmem] at ha
        cases ha

theorem mem_dropWhile_iff (h : l.Pairwise fun x y => p y = true → p x = true) :
    a ∈ l.dropWhile p ↔ a ∈ l ∧ p a = false := by
  induction l with
  | nil => simp
  | cons b l ih =>
      by_cases hb : p b = true
      · rw [List.dropWhile_cons_of_pos hb, ih (List.pairwise_cons.mp h).2, List.mem_cons]
        refine ⟨fun ⟨hmem, ha⟩ => ⟨.inr hmem, ha⟩, ?_⟩
        rintro ⟨rfl | hmem, ha⟩
        · rw [hb] at ha
          cases ha
        · exact ⟨hmem, ha⟩
      · rw [List.dropWhile_cons_of_neg hb]
        exact ⟨fun hmem => ⟨hmem, eq_false_of_head h (Bool.eq_false_iff.mpr hb) hmem⟩,
          fun hand => hand.1⟩

/-- The predicate fails for the first `k` elements. -/
theorem le_findIdx_iff {k : ℕ} (hk : k ≤ l.length) :
    k ≤ l.findIdx p ↔ ∀ x ∈ l.take k, p x = false := by
  induction l generalizing k with
  | nil => simp_all
  | cons b l ih =>
      cases k with
      | zero => simp
      | succ k =>
          rw [List.findIdx_cons, List.take_succ_cons, List.forall_mem_cons]
          cases hb : p b with
          | true => simp
          | false =>
              have hk' : k ≤ l.length := by simpa using hk
              simp only [Bool.cond_false, true_and, ← ih hk']
              exact Nat.succ_le_succ_iff

end Hlpt.Lib
