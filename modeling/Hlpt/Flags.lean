import Hlpt.Lib.Bits

/-!
# `Hlpt.Flags`: the flags word of a thread descriptor

The bits of `pt->flags` in `pt-internal.h`, and the two tests of a cancellation.
-/

set_option autoImplicit false

namespace Hlpt

def PT_FLG_USR_STACK : BitVec 32 := 1 <<< 0
def PT_FLG_EXITING : BitVec 32 := 1 <<< 1
def PT_FLG_CANCELLED : BitVec 32 := 1 <<< 2
def PT_FLG_CANCELLING : BitVec 32 := 1 <<< 3
def PT_FLG_TERMINATED : BitVec 32 := 1 <<< 4
def PT_FLG_CANCEL_ASYNC : BitVec 32 := 1 <<< 5
def PT_FLG_CANCEL_DISABLE : BitVec 32 := 1 <<< 6
def PT_FLG_CANCEL_TRANS : BitVec 32 := 1 <<< 7

/-- `CANCELLED_ENABLED_P`: a cancellation that the thread accepts at its next point. -/
def CANCELLED_ENABLED_P (flg : BitVec 32) : Bool :=
  flg &&& (PT_FLG_CANCEL_DISABLE ||| PT_FLG_CANCELLED ||| PT_FLG_EXITING |||
    PT_FLG_TERMINATED) == PT_FLG_CANCELLED

/-- `CANCELLED_ENABLED_ASYNC_P`: a cancellation that the thread accepts at once. -/
def CANCELLED_ENABLED_ASYNC_P (flg : BitVec 32) : Bool :=
  flg &&& (PT_FLG_CANCEL_DISABLE ||| PT_FLG_CANCEL_ASYNC ||| PT_FLG_CANCELLED |||
    PT_FLG_EXITING ||| PT_FLG_TERMINATED) == PT_FLG_CANCEL_ASYNC ||| PT_FLG_CANCELLED

open Hlpt.Lib

variable {f : BitVec 32}

/-- The asynchronous test looks at one bit more. -/
theorem enabled_async (f : BitVec 32) (h : CANCELLED_ENABLED_P f = true) :
    CANCELLED_ENABLED_ASYNC_P f = false ↔ f &&& PT_FLG_CANCEL_ASYNC = 0 := by
  have hmask : PT_FLG_CANCEL_DISABLE ||| PT_FLG_CANCEL_ASYNC ||| PT_FLG_CANCELLED |||
      PT_FLG_EXITING ||| PT_FLG_TERMINATED =
      (PT_FLG_CANCEL_DISABLE ||| PT_FLG_CANCELLED ||| PT_FLG_EXITING |||
        PT_FLG_TERMINATED) ||| PT_FLG_CANCEL_ASYNC := by decide
  have hbit : f &&& PT_FLG_CANCEL_ASYNC = 0 ∨ f &&& PT_FLG_CANCEL_ASYNC = PT_FLG_CANCEL_ASYNC :=
    and_twoPow_eq f 5
  rw [CANCELLED_ENABLED_P, beq_iff_eq] at h
  rw [CANCELLED_ENABLED_ASYNC_P, hmask, BitVec.and_or_distrib_left, h]
  rcases hbit with h0 | h1
  · rw [h0]
    decide
  · rw [h1]
    decide

/-- A request that was accepted is seen when the thread goes to asynchronous mode. -/
theorem enabled_or_async (h : CANCELLED_ENABLED_P f = true) :
    CANCELLED_ENABLED_ASYNC_P (f ||| PT_FLG_CANCEL_ASYNC ||| PT_FLG_CANCEL_TRANS) = true := by
  have hen : CANCELLED_ENABLED_P (f ||| PT_FLG_CANCEL_ASYNC ||| PT_FLG_CANCEL_TRANS) = true := by
    rw [CANCELLED_ENABLED_P, or_and_of_disjoint (by decide), or_and_of_disjoint (by decide)]
    exact h
  have hne : (f ||| PT_FLG_CANCEL_ASYNC ||| PT_FLG_CANCEL_TRANS) &&& PT_FLG_CANCEL_ASYNC ≠ 0 := by
    rw [or_and_of_disjoint (by decide), or_and_self]
    decide
  by_contra hn
  exact hne ((enabled_async _ hen).mp (by simpa using hn))

/-- Whoever accepts a request has the flags clear that the test wants to be clear. -/
theorem enabled_clear {b : BitVec 32} (h : CANCELLED_ENABLED_P f = true)
    (hb : (PT_FLG_CANCEL_DISABLE ||| PT_FLG_CANCELLED ||| PT_FLG_EXITING |||
      PT_FLG_TERMINATED) &&& b = b) (h0 : PT_FLG_CANCELLED &&& b = 0) : f &&& b = 0 := by
  rw [CANCELLED_ENABLED_P, beq_iff_eq] at h
  have h' := congrArg (· &&& b) h
  rw [and_and_of_le hb] at h'
  exact h'.trans h0

/-- Whoever accepts a request has the cancellation enabled. -/
theorem enabled_disable (h : CANCELLED_ENABLED_P f = true) : f &&& PT_FLG_CANCEL_DISABLE = 0 :=
  enabled_clear h (by decide) (by decide)

/-- Whoever accepts a request does not exit. -/
theorem enabled_exiting (h : CANCELLED_ENABLED_P f = true) : f &&& PT_FLG_EXITING = 0 :=
  enabled_clear h (by decide) (by decide)

/-- Whoever accepts a request at once accepts it. -/
theorem enabled_of_async (h : CANCELLED_ENABLED_ASYNC_P f = true) :
    CANCELLED_ENABLED_P f = true := by
  rw [CANCELLED_ENABLED_ASYNC_P, beq_iff_eq] at h
  have h' := congrArg (· &&& (PT_FLG_CANCEL_DISABLE ||| PT_FLG_CANCELLED ||| PT_FLG_EXITING |||
    PT_FLG_TERMINATED)) h
  rw [and_and_of_le (by decide)] at h'
  rw [CANCELLED_ENABLED_P, beq_iff_eq]
  exact h'.trans (by decide)

/-- Whoever accepts a request at once has the cancellation enabled. -/
theorem enabled_async_disable (h : CANCELLED_ENABLED_ASYNC_P f = true) :
    f &&& PT_FLG_CANCEL_DISABLE = 0 :=
  enabled_disable (enabled_of_async h)

/-- Whoever accepts a request at once does not exit. -/
theorem enabled_async_exiting (h : CANCELLED_ENABLED_ASYNC_P f = true) :
    f &&& PT_FLG_EXITING = 0 :=
  enabled_exiting (enabled_of_async h)

/-- A deferred thread accepts nothing at once. -/
theorem not_enabled_of_deferred (h : f &&& PT_FLG_CANCEL_ASYNC = 0) :
    CANCELLED_ENABLED_ASYNC_P f = false := by
  by_contra hn
  rw [Bool.not_eq_false, CANCELLED_ENABLED_ASYNC_P, beq_iff_eq] at hn
  have hn' := congrArg (· &&& PT_FLG_CANCEL_ASYNC) hn
  rw [and_and_of_le (by decide), h] at hn'
  exact absurd hn' (by decide)

/-- `PT_FLG_CANCELLING` is not looked at. -/
theorem enabled_async_cancelling (f : BitVec 32) :
    CANCELLED_ENABLED_ASYNC_P (f ||| PT_FLG_CANCELLING) = CANCELLED_ENABLED_ASYNC_P f := by
  rw [CANCELLED_ENABLED_ASYNC_P, or_and_of_disjoint (by decide)]
  rfl

end Hlpt
