import Hlpt.Flags

/-!
# `Hlpt.Exit.Model`: the forced unwinding of `exit.c`

`pthread_exit` unwinds the stack of the calling thread. For each frame, from the innermost one
on, the unwinder calls `unwind_cleanup`, which runs the cleanup handlers of the frame and
calls `__pthread_cleanup` at the last one. That function does not return.

A handler is told by the address of its buffer, which `pthread_cleanup_push` has put on the
stack. It returns normally, with the list as it found it. `Event` records the calls.
-/

set_option autoImplicit false

namespace Hlpt.Exit

/-- An address, as `unsigned long`. -/
abbrev Addr := BitVec 32

/-- A frame: what `_Unwind_GetCFA` says of it, and whether the unwinder passes
`END_OF_STACK`. -/
structure Frame where
  cfa : Addr
  endOfStack : Bool
  deriving DecidableEq, Repr

/-- `struct __pthread_cleanup_buf`, with the number of the frame that it lies in. -/
structure Buf where
  addr : Addr
  frame : ℕ
  deriving DecidableEq, Repr

/-- The fields of `struct pthread` that an exit uses: the address of `exc`, the handlers
from `cleanup` on, `retval` and `flags`. -/
structure Self where
  exc : Addr
  cleanup : List Buf
  retval : BitVec 32
  flags : BitVec 32
  deriving DecidableEq, Repr

/-- The calls that an exit makes, each with the number of the frame. -/
inductive Event where
  | handler (b : Buf) (i : ℕ)
  | pthreadCleanup (self : Self) (i : ℕ)
  deriving DecidableEq, Repr

namespace Event

/-- A call of a handler. -/
def handler? : Event → Option (Buf × ℕ)
  | handler b i => some (b, i)
  | pthreadCleanup .. => none

/-- A call of `__pthread_cleanup`. -/
def pthreadCleanup? : Event → Option (Self × ℕ)
  | handler .. => none
  | pthreadCleanup self i => some (self, i)

end Event

/-- `FRAME_LEFT` -/
def frameLeft (cfa buf : Addr) : Bool := buf ≤ cfa

/-- `last`, in the frame `f`. -/
def isLast (obj : Addr) (f : Frame) : Bool := f.endOfStack || !frameLeft obj f.cfa

/-- The loop of `unwind_cleanup`: its calls, and the handlers that are left. -/
def runHandlers (cfa : Addr) (last : Bool) (i : ℕ) : List Buf → List Event × List Buf
  | [] => ([], [])
  | b :: bs =>
      if frameLeft cfa b.addr || last then
        let r := runHandlers cfa last i bs
        (.handler b i :: r.1, r.2)
      else ([], b :: bs)

/-- `unwind_cleanup`, for the frame `f` with the number `i`: its calls, the thread, and
whether it has called `__pthread_cleanup`. -/
def unwindCleanup (i : ℕ) (f : Frame) (self : Self) : List Event × Self × Bool :=
  let last := isLast self.exc f
  let r := runHandlers f.cfa last i self.cleanup
  let self := { self with cleanup := r.2 }
  (if last then r.1 ++ [.pthreadCleanup self i] else r.1, self, last)

/-- The calls for the frames from the number `i` on, up to `__pthread_cleanup`. -/
def forcedUnwind : ℕ → List Frame → Self → List Event
  | _, [], _ => []
  | i, f :: fs, self =>
      let r := unwindCleanup i f self
      if r.2.2 then r.1 else r.1 ++ forcedUnwind (i + 1) fs r.2.1

/-- `pthread_exit` -/
def pthreadExit (retval : BitVec 32) (frames : List Frame) (self : Self) : List Event :=
  forcedUnwind 0 frames { self with retval := retval, flags := self.flags ||| PT_FLG_EXITING }

end Hlpt.Exit
