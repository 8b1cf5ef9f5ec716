import Hlpt.Lib.Threads
import Mathlib.Data.BitVec

/-!
# `Hlpt.Lib.Counter`: a machine word that counts threads

A `w`-bit word that every step changes by one, together with the share of the
thread that moved, holds the sum of the shares modulo `2 ^ w` (`word_eq_sum_step`).
While the sum fits, a test of the word against a small number is a test of the sum
(`ofNat_eq_iff`).
-/

set_option autoImplicit false

namespace Hlpt.Lib

universe u v

/-- How one step changes a counting word and the share of the thread that moved: both
stay, both grow by one, or both shrink by one. -/
def CountStep {w : ℕ} (x x' : BitVec w) (a a' : ℕ) : Prop :=
  (x' = x ∧ a' = a) ∨ (x' = x + 1#w ∧ a' = a + 1) ∨ (x' = x - 1#w ∧ a' + 1 = a)

/-- The word goes on counting. -/
theorem word_step {w n n' : ℕ} {x x' : BitVec w} (hx : x = BitVec.ofNat w n)
    (h : CountStep x x' n n') : x' = BitVec.ofNat w n' := by
  rcases h with ⟨rfl, rfl⟩ | ⟨rfl, rfl⟩ | ⟨rfl, rfl⟩
  · exact hx
  · rw [BitVec.ofNat_add, hx]
  · rw [hx, BitVec.ofNat_add, BitVec.add_sub_cancel]

/-- The word goes on counting the shares of all threads. -/
theorem word_eq_sum_step {T : Type u} {l : Type v} [Fintype T] [DecidableEq T] {w : ℕ}
    {x x' : BitVec w} {g : l → ℕ} {f : T → l} {t : T} {p : l}
    (hx : x = BitVec.ofNat w (∑ u, g (f u))) (h : CountStep x x' (g (f t)) (g p)) :
    x' = BitVec.ofNat w (∑ u, g (Function.update f t p u)) := by
  have hsum := sum_update g f t p
  refine word_step hx ?_
  rcases h with ⟨hx', ha⟩ | ⟨hx', ha⟩ | ⟨hx', ha⟩
  · exact .inl ⟨hx', by omega⟩
  · exact .inr (.inl ⟨hx', by omega⟩)
  · exact .inr (.inr ⟨hx', by omega⟩)

/-- A word that counts `n`, compared with a small number `k`. -/
theorem ofNat_eq_iff {w n k : ℕ} (hn : n < 2 ^ w) (hk : k < 2 ^ w) :
    BitVec.ofNat w n = BitVec.ofNat w k ↔ n = k := by
  constructor
  · intro h
    have := congrArg BitVec.toNat h
    rwa [BitVec.toNat_ofNat, BitVec.toNat_ofNat, Nat.mod_eq_of_lt hn,
      Nat.mod_eq_of_lt hk] at this
  · rintro rfl
    rfl

/-- A word wraps when it grows by one at its maximum. -/
theorem add_one_eq_zero_iff {w : ℕ} {v : BitVec w} : v + 1 = 0 ↔ v.toNat + 1 = 2 ^ w := by
  have hv := v.isLt
  have hsum : (v + 1).toNat = (v.toNat + 1) % 2 ^ w := by
    rw [BitVec.toNat_add]
    show (v.toNat + (1#w).toNat) % 2 ^ w = _
    rw [BitVec.toNat_ofNat, Nat.add_mod_mod]
  constructor
  · intro h
    rw [h] at hsum
    have hzero : (v.toNat + 1) % 2 ^ w = 0 := hsum.symm.trans BitVec.toNat_zero
    by_contra hne
    rw [Nat.mod_eq_of_lt (by omega)] at hzero
    omega
  · intro h
    refine BitVec.eq_of_toNat_eq ?_
    rw [hsum, h, Nat.mod_self]
    exact BitVec.toNat_zero.symm

/-- A word below its maximum grows by one. -/
theorem toNat_add_one {w : ℕ} {v : BitVec w} (h : v + 1 ≠ 0) : (v + 1).toNat = v.toNat + 1 := by
  have hv := v.isLt
  have hne : v.toNat + 1 ≠ 2 ^ w := fun hmax => h (add_one_eq_zero_iff.mpr hmax)
  rw [BitVec.toNat_add]
  show (v.toNat + (1#w).toNat) % 2 ^ w = _
  rw [BitVec.toNat_ofNat, Nat.add_mod_mod, Nat.mod_eq_of_lt (by omega)]

/-- A positive word shrinks by one. -/
theorem toNat_sub_one {w n : ℕ} {v : BitVec w} (h : v.toNat = n + 1) : (v - 1).toNat = n := by
  have hv := v.isLt
  have hw : w ≠ 0 := by
    rintro rfl
    omega
  have hone : (1#w).toNat = 1 := BitVec.toNat_one (by omega)
  have hle : 1#w ≤ v := BitVec.le_def.mpr (by omega)
  show (v - 1#w).toNat = n
  rw [BitVec.toNat_sub_of_le hle, h, hone, Nat.add_sub_cancel]

/-- A word at one is 0 after it shrinks by one. -/
theorem sub_one_eq_zero_iff {w n : ℕ} {v : BitVec w} (h : v.toNat = n + 1) :
    v - 1 = 0 ↔ n = 0 := by
  rw [← BitVec.toNat_inj, toNat_sub_one h]
  exact ⟨fun hn => hn.trans BitVec.toNat_zero, fun hn => hn.trans BitVec.toNat_zero.symm⟩

end Hlpt.Lib
