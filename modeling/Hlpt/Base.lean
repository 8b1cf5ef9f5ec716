import Mathlib.Logic.Basic

/-!
# `Hlpt.Base`: return codes, kernel codes and deadlines

The values that every part of the library shares: the POSIX codes its functions
return, the codes with which `gsync_wait` ends, and `struct timespec` with the
conversion of an absolute deadline that `lowlevellock.c` makes before each timed
wait.
-/

set_option autoImplicit false

namespace Hlpt

/-- The codes that the modelled functions return; `ok` is `0`. -/
inductive Code where
  | ok
  | eagain
  | ebusy
  | edeadlk
  | eintr
  | einval
  | enomem
  | enotrecoverable
  | eoverflow
  | eownerdead
  | eperm
  | esrch
  | etimedout
  deriving DecidableEq, Repr

/-- `PTHREAD_ID_MASK`: the bits of a thread id that are not reserved. -/
def PTHREAD_ID_MASK : BitVec 32 := 0x1fffffff

/-- How `gsync_wait` ends. `invalidArgument` is the immediate return when the
words do not have the expected values; a wake gives `success`. -/
inductive KernReturn where
  | success
  | invalidArgument
  | timedout
  | interrupted
  deriving DecidableEq, Repr

/-- How the kernel may end the sleep of a thread that nobody woke. -/
inductive WaitEnd where
  | timedout
  | interrupted
  deriving DecidableEq, Repr

/-- How a sleep ends, and whether with `KERN_TIMEDOUT`. A thread that is no longer in
the queue was woken. One that is stays asleep until the kernel ends its wait. -/
def wakeUp (asleep timed : Bool) (ends : Option WaitEnd) : Option Bool :=
  if asleep then
    match ends, timed with
    | some .interrupted, _ => some false
    | some .timedout, true => some true
    | _, _ => none
  else some false

/-- Only a timed wait times out, and only in the queue. -/
theorem wakeUp_true {asleep timed : Bool} {ends : Option WaitEnd}
    (h : wakeUp asleep timed ends = some true) : asleep = true ∧ timed = true := by
  cases asleep <;> cases timed <;> rcases ends with _ | _ | _ <;> simp_all [wakeUp]

/-- The code of a sleep that ended, by the same rule. -/
def sleepEnd (asleep timed : Bool) (ends : Option WaitEnd) : Option KernReturn :=
  if asleep then
    match ends, timed with
    | some .interrupted, _ => some .interrupted
    | some .timedout, true => some .timedout
    | _, _ => none
  else some .success

/-- `struct timespec`, with the 32-bit `time_t` and `long` of i386. -/
structure Timespec where
  tvSec : BitVec 32
  tvNsec : BitVec 32
  deriving DecidableEq, Repr

instance : Inhabited Timespec := ⟨⟨0, 0⟩⟩

namespace Timespec

/-- `tsp->tv_nsec < 0 || tsp->tv_nsec >= 1000000000`, the check of every timed
operation. -/
def badNsec (tsp : Timespec) : Bool :=
  tsp.tvNsec.slt 0 || !tsp.tvNsec.slt 1000000000

end Timespec

/-- `compute_reltime`: the milliseconds from the clock reading `now` to the
deadline, `-1` when it is past. All of it is 32-bit arithmetic. -/
def computeReltime (abstime now : Timespec) : BitVec 32 :=
  let sec := abstime.tvSec - now.tvSec
  let nsec := abstime.tvNsec - now.tvNsec
  let ts : Timespec := if nsec.slt 0 then ⟨sec - 1, nsec + 1000000000⟩ else ⟨sec, nsec⟩
  if ts.tvSec.slt 0 then -1 else ts.tvSec * 1000 + ts.tvNsec.sdiv 1000000

/-- `mlsec < 0`: the deadline is past, and the timed wait does not start. -/
def expired (abstime now : Timespec) : Bool := (computeReltime abstime now).slt 0

end Hlpt
