import Hlpt.Base
import Mathlib.Data.BitVec

/-!
# `Hlpt.Deadline`: how long it is until a deadline

`compute_reltime` subtracts a reading of the clock from a deadline, and gives the whole
milliseconds in between. A negative result says that the deadline is past, and the timed
waits then return `KERN_TIMEDOUT` at once. All of it is 32-bit arithmetic: the seconds are
subtracted in 32 bits, and their thousandfold is one as well.

`remaining` is the same difference in exact arithmetic.

* `toInt_computeReltime`: the result, as the exact difference reduced to 32 bits.
* `reltime_exact`: for which deadlines the conversion is right (`InRange`).
* `reltime_far`: a deadline in 30 days counts as past.
-/

set_option autoImplicit false

namespace Hlpt

/-! ### The timed waits -/

def GSYNC_SHARED : BitVec 32 := 0x01
def GSYNC_QUAD : BitVec 32 := 0x02
def GSYNC_TIMED : BitVec 32 := 0x04

/-- The arguments of `gsync_wait` after the task. -/
structure GsyncWait where
  addr : BitVec 32
  lo : BitVec 32
  hi : BitVec 32
  mlsec : BitVec 32
  flags : BitVec 32
  deriving DecidableEq, Repr

/-- `lll_timed_wait` -/
def lllTimedWait (ptr val mlsec flags : BitVec 32) : GsyncWait :=
  ⟨ptr, val, 0, mlsec, flags ||| GSYNC_TIMED⟩

/-- `lll_timed_xwait` -/
def lllTimedXwait (ptr lo hi mlsec flags : BitVec 32) : GsyncWait :=
  ⟨ptr, lo, hi, mlsec, flags ||| GSYNC_TIMED ||| GSYNC_QUAD⟩

/-- `__lll_abstimed_wait`: the code that it returns without waiting, or the wait. `clock`
has the reading of each clock. -/
def lllAbstimedWait (clock : BitVec 32 → Timespec) (ptr val : BitVec 32) (tsp : Timespec)
    (flags clk : BitVec 32) : Except KernReturn GsyncWait :=
  let mlsec := computeReltime tsp (clock clk)
  if mlsec.slt 0 then .error .timedout else .ok (lllTimedWait ptr val mlsec flags)

/-- `__lll_abstimed_xwait` -/
def lllAbstimedXwait (clock : BitVec 32 → Timespec) (ptr lo hi : BitVec 32) (tsp : Timespec)
    (flags clk : BitVec 32) : Except KernReturn GsyncWait :=
  let mlsec := computeReltime tsp (clock clk)
  if mlsec.slt 0 then .error .timedout else .ok (lllTimedXwait ptr lo hi mlsec flags)

/-! ### The exact difference -/

/-- The nanoseconds of an instant. -/
def Timespec.nanos (ts : Timespec) : ℤ := ts.tvSec.toInt * 1000000000 + ts.tvNsec.toInt

/-- The nanoseconds from the reading `now` to the deadline. -/
def remaining (abstime now : Timespec) : ℤ := abstime.nanos - now.nanos

/-- The value fits a signed word of 32 bits. -/
def Fits (x : ℤ) : Prop := -2 ^ 31 ≤ x ∧ x < 2 ^ 31

instance (x : ℤ) : Decidable (Fits x) := inferInstanceAs (Decidable (_ ∧ _))

/-- The values that `compute_reltime` computes one after the other, in exact arithmetic. -/
def intermediates (abstime now : Timespec) : List ℤ :=
  let sec := abstime.tvSec.toInt - now.tvSec.toInt
  let nsec := abstime.tvNsec.toInt - now.tvNsec.toInt
  let sec' := if nsec < 0 then sec - 1 else sec
  let nsec' := if nsec < 0 then nsec + 1000000000 else nsec
  [sec, nsec, sec', nsec', sec' * 1000, nsec'.tdiv 1000000, sec' * 1000 + nsec'.tdiv 1000000]

/-- The conversion is right for this deadline and this reading: its sign tells whether the
deadline is past, and a number of milliseconds that fits an `int` is the result, without an
overflow on the way. -/
structure Converted (abstime now : Timespec) : Prop where
  sign : (computeReltime abstime now).toInt < 0 ↔ remaining abstime now < 0
  exact : 0 ≤ remaining abstime now → Fits (remaining abstime now / 1000000) →
    (computeReltime abstime now).toInt = remaining abstime now / 1000000 ∧
      ∀ x ∈ intermediates abstime now, Fits x
  large : 0 ≤ remaining abstime now → ¬ Fits (remaining abstime now / 1000000) →
    0 ≤ (computeReltime abstime now).toInt
  wait : ∀ clock ptr val flags clk, clock clk = now →
    lllAbstimedWait clock ptr val abstime flags clk = .error .timedout → remaining abstime now < 0
  xwait : ∀ clock ptr lo hi flags clk, clock clk = now →
    lllAbstimedXwait clock ptr lo hi abstime flags clk = .error .timedout →
      remaining abstime now < 0

/-- The whole seconds that are left fit 32 bits, and the low 32 bits of the milliseconds
have their sign. Below the range of the seconds, the low bits have to be negative. -/
def InRange (abstime now : Timespec) : Prop :=
  let sec := remaining abstime now / 1000000000
  let msec := (remaining abstime now / 1000000).bmod (2 ^ 32)
  (-2 ^ 31 ≤ sec ∧ sec < 0) ∨ (0 ≤ sec ∧ sec < 2 ^ 31 ∧ 0 ≤ msec) ∨ (sec < -2 ^ 31 ∧ msec < 0)

instance (abstime now : Timespec) : Decidable (InRange abstime now) :=
  inferInstanceAs (Decidable ((_ ∧ _) ∨ (_ ∧ _ ∧ _) ∨ (_ ∧ _)))

variable {abstime now : Timespec}

/-! ### The result of the conversion -/

/-- The nanoseconds of a valid timespec are less than a second. -/
theorem Timespec.nsec_range {ts : Timespec} (h : ts.badNsec = false) :
    0 ≤ ts.tvNsec.toInt ∧ ts.tvNsec.toInt < 1000000000 := by
  simp only [Timespec.badNsec, Bool.or_eq_false_iff, Bool.not_eq_false'] at h
  obtain ⟨hlo, hhi⟩ := h
  rw [BitVec.slt_eq_decide, decide_eq_false_iff_not] at hlo
  rw [BitVec.slt_eq_decide, decide_eq_true_eq] at hhi
  have h0 : (0 : BitVec 32).toInt = 0 := rfl
  have h9 : (1000000000 : BitVec 32).toInt = 1000000000 := rfl
  rw [h0] at hlo
  rw [h9] at hhi
  exact ⟨by omega, hhi⟩

/-- The exact difference in seconds and nanoseconds, as `compute_reltime` computes it. -/
theorem remaining_eq (ha : abstime.badNsec = false) (hn : now.badNsec = false) :
    remaining abstime now / 1000000000 =
        (if abstime.tvNsec.toInt - now.tvNsec.toInt < 0 then
          abstime.tvSec.toInt - now.tvSec.toInt - 1
        else abstime.tvSec.toInt - now.tvSec.toInt) ∧
      remaining abstime now % 1000000000 =
        if abstime.tvNsec.toInt - now.tvNsec.toInt < 0 then
          abstime.tvNsec.toInt - now.tvNsec.toInt + 1000000000
        else abstime.tvNsec.toInt - now.tvNsec.toInt := by
  have hna := Timespec.nsec_range ha
  have hnn := Timespec.nsec_range hn
  unfold remaining Timespec.nanos
  split <;> omega

/-- The last line of `compute_reltime`, when its `ts` has the difference `r`. -/
theorem toInt_msec (ts : Timespec) {r : ℤ}
    (hsec : ts.tvSec.toInt = (r / 1000000000).bmod (2 ^ 32))
    (hnsec : ts.tvNsec.toInt = r % 1000000000) :
    (if ts.tvSec.slt 0 then -1 else ts.tvSec * 1000 + ts.tvNsec.sdiv 1000000).toInt =
      if (r / 1000000000).bmod (2 ^ 32) < 0 then -1 else (r / 1000000).bmod (2 ^ 32) := by
  have h0 : (0 : BitVec 32).toInt = 0 := rfl
  have hk : (1000 : BitVec 32).toInt = 1000 := rfl
  have hm : (1000000 : BitVec 32).toInt = 1000000 := rfl
  have hquot : (ts.tvNsec.sdiv 1000000).toInt = r % 1000000000 / 1000000 := by
    rw [BitVec.toInt_sdiv_of_ne_or_ne _ _ (.inr (by decide)), hnsec, hm,
      Int.tdiv_eq_ediv_of_nonneg (Int.emod_nonneg _ (by decide))]
  have hsum : r / 1000000 = r / 1000000000 * 1000 + r % 1000000000 / 1000000 := by omega
  rw [BitVec.slt_eq_decide, hsec, h0]
  by_cases hneg : (r / 1000000000).bmod (2 ^ 32) < 0
  · simp only [hneg, decide_true, if_true]
    rfl
  · simp only [hneg, decide_false, Bool.false_eq_true, if_false]
    rw [BitVec.toInt_add, BitVec.toInt_mul, hsec, hk, hquot, Int.bmod_add_bmod, hsum,
      ← Int.bmod_add_bmod, Int.bmod_mul_bmod, Int.bmod_add_bmod]

/-- The result of the conversion: the whole milliseconds that are left, reduced to 32 bits,
unless the seconds that are left are negative in 32 bits. -/
theorem toInt_computeReltime (ha : abstime.badNsec = false) (hn : now.badNsec = false) :
    (computeReltime abstime now).toInt =
      if (remaining abstime now / 1000000000).bmod (2 ^ 32) < 0 then -1
      else (remaining abstime now / 1000000).bmod (2 ^ 32) := by
  have hna := Timespec.nsec_range ha
  have hnn := Timespec.nsec_range hn
  obtain ⟨hsec, hnsec⟩ := remaining_eq ha hn
  have h0 : (0 : BitVec 32).toInt = 0 := rfl
  have h1 : (1 : BitVec 32).toInt = 1 := rfl
  have h9 : (1000000000 : BitVec 32).toInt = 1000000000 := rfl
  -- The nanoseconds never leave their range.
  have hdiff : (abstime.tvNsec - now.tvNsec).toInt =
      abstime.tvNsec.toInt - now.tvNsec.toInt := by
    rw [BitVec.toInt_sub, Int.bmod_eq_of_le] <;> omega
  have hborrow : (abstime.tvNsec - now.tvNsec).slt 0 =
      decide (abstime.tvNsec.toInt - now.tvNsec.toInt < 0) := by
    rw [BitVec.slt_eq_decide, hdiff, h0]
  -- After the borrow the two fields are the exact ones, the seconds in 32 bits.
  by_cases hb : abstime.tvNsec.toInt - now.tvNsec.toInt < 0
  · rw [if_pos hb] at hsec hnsec
    simp only [computeReltime, hborrow, hb, decide_true, if_true]
    refine toInt_msec ⟨abstime.tvSec - now.tvSec - 1,
      abstime.tvNsec - now.tvNsec + 1000000000⟩ ?_ ?_
    · rw [hsec, BitVec.toInt_sub, BitVec.toInt_sub, h1, Int.bmod_sub_bmod]
    · rw [hnsec, BitVec.toInt_add, hdiff, h9, Int.bmod_eq_of_le] <;> omega
  · rw [if_neg hb] at hsec hnsec
    simp only [computeReltime, hborrow, hb, decide_false, Bool.false_eq_true, if_false]
    refine toInt_msec ⟨abstime.tvSec - now.tvSec, abstime.tvNsec - now.tvNsec⟩ ?_ ?_
    · rw [hsec, BitVec.toInt_sub]
    · rw [hnsec, hdiff]

/-! ### When it is right -/

/-- The seconds of a difference of two 32-bit times. -/
theorem remaining_sec (ha : abstime.badNsec = false) (hn : now.badNsec = false) :
    -2 ^ 32 ≤ remaining abstime now / 1000000000 ∧
      remaining abstime now / 1000000000 < 2 ^ 32 := by
  obtain ⟨hsec, -⟩ := remaining_eq ha hn
  have hlo := BitVec.le_toInt abstime.tvSec
  have hhi := BitVec.toInt_lt (x := abstime.tvSec)
  have hlo' := BitVec.le_toInt now.tvSec
  have hhi' := BitVec.toInt_lt (x := now.tvSec)
  rw [hsec]
  split <;> omega

/-- The sign of the result is right exactly in the range. -/
theorem sign_iff (ha : abstime.badNsec = false) (hn : now.badNsec = false) :
    ((computeReltime abstime now).toInt < 0 ↔ remaining abstime now < 0) ↔
      InRange abstime now := by
  obtain ⟨hlo, hhi⟩ := remaining_sec ha hn
  have hneg : remaining abstime now < 0 ↔ remaining abstime now / 1000000000 < 0 := by omega
  rw [toInt_computeReltime ha hn, hneg]
  unfold InRange
  simp only
  generalize (remaining abstime now / 1000000).bmod (2 ^ 32) = msec
  generalize remaining abstime now / 1000000000 = sec at hlo hhi
  -- Outside of 32 bits the seconds come out with the other sign.
  have hwrap := Int.bmod_def sec (2 ^ 32)
  generalize sec.bmod (2 ^ 32) = low at hwrap
  split <;> split at hwrap <;> omega

/-- A number of milliseconds that fits an `int` is the result, and nothing overflows on the
way. -/
theorem exact_of_fits (ha : abstime.badNsec = false) (hn : now.badNsec = false)
    (hpos : 0 ≤ remaining abstime now) (hfits : Fits (remaining abstime now / 1000000)) :
    (computeReltime abstime now).toInt = remaining abstime now / 1000000 ∧
      ∀ x ∈ intermediates abstime now, Fits x := by
  have hna := Timespec.nsec_range ha
  have hnn := Timespec.nsec_range hn
  obtain ⟨hsec, hnsec⟩ := remaining_eq ha hn
  unfold Fits at hfits
  constructor
  · rw [toInt_computeReltime ha hn, Int.bmod_eq_of_le (by omega) (by omega),
      Int.bmod_eq_of_le (by omega) (by omega), if_neg (by omega)]
  · have hnonneg : 0 ≤ remaining abstime now % 1000000000 := Int.emod_nonneg _ (by decide)
    simp only [intermediates, ← hsec, ← hnsec, Int.tdiv_eq_ediv_of_nonneg hnonneg]
    intro x hx
    simp only [List.mem_cons, List.not_mem_nil, or_false] at hx
    unfold Fits
    split at hsec <;> rcases hx with rfl | rfl | rfl | rfl | rfl | rfl | rfl <;> omega

/-- The conversion of a deadline, for every reading of the clock and every deadline with
valid nanoseconds: it is right exactly when the seconds that are left fit 32 bits and the
milliseconds keep their sign there. -/
theorem reltime_exact (ha : abstime.badNsec = false) (hn : now.badNsec = false) :
    Converted abstime now ↔ InRange abstime now := by
  rw [← sign_iff ha hn]
  refine ⟨Converted.sign, ?_⟩
  intro hsign
  have hneg : (computeReltime abstime now).slt 0 = true → remaining abstime now < 0 := by
    intro h
    rw [BitVec.slt_eq_decide, decide_eq_true_eq] at h
    exact hsign.mp h
  exact
    { sign := hsign
      exact := exact_of_fits ha hn
      large := fun hpos _ => by
        by_contra h
        exact absurd (hsign.mp (by omega)) (by omega)
      wait := fun clock ptr val flags clk hclock h => by
        simp [lllAbstimedWait, hclock] at h
        exact hneg h
      xwait := fun clock ptr lo hi flags clk hclock h => by
        simp [lllAbstimedXwait, hclock] at h
        exact hneg h }

/-- A deadline in two seconds and a half, across a full second. -/
theorem reltime_exact_near : Converted ⟨1472000002, 400000000⟩ ⟨1471999999, 900000000⟩ :=
  (reltime_exact (by decide) (by decide)).mpr (by decide)

/-- A deadline in 30 days, `2 ^ 31` milliseconds and more, comes out as negative. -/
theorem reltime_far : ¬ Converted ⟨1474592000, 0⟩ ⟨1472000000, 0⟩ := by
  intro h
  exact absurd (h.sign.mp (by decide)) (by decide)

end Hlpt
