import Hlpt.Create.Created
import Hlpt.Identity.Segment
import Hlpt.Lib.Machine

/-!
# `Hlpt.Identity.Model`: who a thread is, from `create.c`, `init.c` and `sysdeps/i386.h`

A thread asks for itself with `PTHREAD_SELF`. That reads `thrdesc` in its TCB, which it finds
through the segment that its register `%gs` selects. Others ask for its kernel thread with
`__pthread_kport`, which reads the signal state in the TCB. A descriptor, a TCB, a segment and
a kernel thread come from four different places, and a creation ties them together.

The machine takes a process from `__pthread_initialize` through creations, which may fail at
any step, to the ends of its threads. A step is one whole call. A creation that does not
overlap with another one is as in `Hlpt.Create.Model`, here with the machine state of the new
thread. The list of the running threads, the ids and the thread-specific data are left out.

The kernel keeps the registers of a thread and its segments. A segment is told by its selector
without the two bits for the privilege level.
-/

set_option autoImplicit false

namespace Hlpt.Identity

open Hlpt.Create

/-- `PT_FLG_MAIN_THREAD` -/
def PT_FLG_MAIN_THREAD : BitVec 32 := 1 <<< 8

/-- The registers that a creation sets. -/
structure Regs where
  eip : Addr
  uesp : Addr
  gs : BitVec 32
  deriving DecidableEq, Repr

/-- The process and the kernel's part of its threads. `word` is the memory of the stacks.
`live` has the threads that run, each with its kernel thread, and `dead` those that have
ended and were neither joined nor detached. -/
structure State where
  proc : Create.State
  regs : Port → Regs
  segment : Port → BitVec 32 → Descriptor
  word : Addr → BitVec 32
  live : List (Addr × Port)
  dead : List Addr

/-- `Create.Env`, the address of `thread_entry`, and `_SIG_CANT_MASK`. -/
structure Env extends Create.Env where
  threadEntry : Addr
  cantMask : Sigset

/-- The place of a selector in the tables of the processor. -/
def slot (sel : BitVec 32) : BitVec 32 := sel >>> 2

namespace State

/-- The segment that `%gs` selects on the kernel thread `k`. -/
def gsSegment (s : State) (k : Port) : Descriptor := s.segment k (slot (s.regs k).gs)

/-- Its base. -/
def gsBase (s : State) (k : Port) : Addr := (s.gsSegment k).base

/-- `GET_TCB ()` -/
def getTcb (s : State) (k : Port) : Addr := (s.proc.tcb (s.gsBase k)).first

/-- `PTHREAD_SELF` -/
def pthreadSelf (s : State) (k : Port) : Addr := (s.proc.tcb (s.gsBase k)).thrdesc

/-- `*up = x` -/
def store (s : State) (up : Addr) (x : BitVec 32) : State :=
  { s with word := Function.update s.word up x }

/-- A segment of the thread `k` is set. -/
def setSegment (s : State) (k : Port) (sel : BitVec 32) (d : Descriptor) : State :=
  { s with segment := Function.update s.segment k (Function.update (s.segment k) (slot sel) d) }

end State

/-! ### The main thread -/

/-- The fields that `__pthread_initialize` sets in the descriptor `pt` of the main thread,
which runs on the kernel thread `self`. `stack` and `size` are those of its stack. -/
def pthreadInitialize (pt : Addr) (self : Port) (stack : Addr) (size : BitVec 32) (s : State) :
    State :=
  let tcb := s.getTcb self
  let proc := s.proc.setDesc pt fun d =>
    { d with
      tcb := tcb
      id := 1
      flags := d.flags ||| (PT_FLG_USR_STACK ||| PT_FLG_MAIN_THREAD)
      stack := stack - size
      stacksize := size }
  let proc := proc.setTcb tcb fun b =>
    { b with first := tcb, self := self, thrdesc := pt, sigstate := some self }
  { s with proc := { proc with total := 1 }, live := [(pt, self)] }

/-! ### The machine state of a new thread -/

/-- What the kernel answers to `__pthread_set_ctx`: whether `thread_get_state` succeeds, whether
`__i386_set_ldt` does, the selector from `__i386_set_gdt`, and whether `thread_set_state`
succeeds. -/
structure KernelAnswers where
  getState : Bool
  setLdt : Bool
  setGdt : Option (BitVec 32)
  setState : Bool

/-- `STACK_ALIGNMENT` -/
def STACK_ALIGNMENT : BitVec 32 := 16

/-- `__pthread_set_ctx`, and whether it succeeds. `self` is the kernel thread that calls. -/
def pthreadSetCtx (M : KernelAnswers) (self ktid : Port) (ip sp tp : Addr) (s : State) :
    Bool × State :=
  if !M.getState then (false, s)
  else
    let desc := hurdTlsDesc tp
    let sel := (s.regs self).gs &&& 0xffff
    let set := if sel &&& 4 ≠ 0 then if M.setLdt then some sel else none else M.setGdt
    match set with
    | none => (false, s)
    | some sel =>
        let s := s.setSegment ktid sel desc
        if !M.setState then (false, s)
        else (true, { s with regs := Function.update s.regs ktid ⟨ip, sp, sel⟩ })

/-- `__pthread_set_machine_state` -/
def pthreadSetMachineState (M : KernelAnswers) (self : Port) (pt fct : Addr) (s : State) :
    Bool × State :=
  let up := pt &&& ~~~(STACK_ALIGNMENT - 1)
  let up := up - 4
  let s := s.store up pt
  let up := up - 4
  let s := s.store up 0
  pthreadSetCtx M self ((s.proc.kport pt).getD 0) fct up (s.proc.desc pt).tcb s

/-! ### The creation -/

/-- The arguments of `pthread_create`. -/
structure Args where
  attrp : Option Attr
  startFct : Addr
  argp : Addr

/-- The signals that the parent blocks, if it has a signal state. -/
def parentBlocked (s : State) (self : Port) : Option Sigset :=
  let parent := s.pthreadSelf self
  if parent = 0 then none else (s.proc.kport parent).bind s.proc.sigstates

/-- The rest of `pthread_create`, for the descriptor `pt`. -/
def start (E : Env) (M : KernelAnswers) (self : Port) (args : Args) (pt : Addr) (s : State) :
    Code × State :=
  let blocked := (parentBlocked s self).getD 0
  let proc := s.proc.setDesc pt fun d => { d with startFct := args.startFct, argp := args.argp }
  let ktid := (proc.kport pt).getD 0
  let proc := proc.setBlocked ktid blocked
  let proc := { proc with total := proc.total + 1 }
  match pthreadSetMachineState M self pt E.threadEntry { s with proc := proc } with
  | (false, s) =>
      let proc := deallocTls pt (s.proc.hurdSigstateDelete ktid)
      let proc := freeStack pt (proc.threadTerminate ktid)
      (.eagain, { s with proc := { proc with total := proc.total - 1 } })
  | (true, s) => (.ok, { s with proc := { s.proc with ptp := pt, mtflag := true } })

/-- `pthread_create`, called on the kernel thread `self`. `none` is a fault. -/
def pthreadCreate (E : Env) (K : Answers) (M : KernelAnswers) (self : Port) (args : Args)
    (s : State) : Option (Code × State) :=
  (ptAllocate E.toEnv K (args.attrp.getD E.dflAttr) s.proc).map fun
    | (none, proc) => (.eagain, { s with proc := proc })
    | (some pt, proc) => start E M self args pt { s with proc := proc }

/-! ### The end of a thread -/

/-- `__pthread_cleanup`, for the last thread `none`: it ends the process. -/
def pthreadCleanup (pt : Addr) (s : Create.State) : Option Create.State :=
  let detached := (s.desc pt).joinpt == pt
  let s := s.setDesc pt fun d => { d with flags := d.flags ||| PT_FLG_EXITING }
  if s.total = 1 then none
  else
    let s := { s with total := s.total - 1 }
    let ktid := (s.kport pt).getD 0
    let s := s.hurdSigstateDelete ktid
    let s := s.setTcb (s.desc pt).tcb fun b => { b with sigstate := none }
    let (stack, size) := (s.desc pt).cleanupRange detached
    let s := deallocTls pt s
    -- `thread_terminate_release2`
    let s := s.threadTerminate ktid
    some (if size ≠ 0 then s.vmDeallocate stack size else s)

/-- `__pthread_deallocate` -/
def pthreadDeallocate (pt : Addr) (s : Create.State) : Create.State :=
  let terminated := (s.desc pt).flags &&& PT_FLG_TERMINATED
  let s := s.setDesc pt fun d => { d with flags := d.flags ||| PT_FLG_TERMINATED }
  if terminated = 0 then freeStack pt s else s

/-- The compare-and-swap of `joinpt` in `pthread_detach` (NULL to the thread itself),
`pthread_join` (NULL to the caller) and its cleanup handler (the caller to NULL). -/
def casJoinpt (pt expected new : Addr) (s : Create.State) : Create.State :=
  s.setDesc pt fun d => { d with joinpt := if d.joinpt = expected then new else d.joinpt }

/-! ### The signals that are blocked -/

/-- `how`, with the values that are not defined. -/
inductive How where
  | block
  | unblock
  | setmask
  | other
  deriving DecidableEq, Repr

/-- The new set of blocked signals in `pthread_sigmask`. -/
def newBlocked (how : How) (blocked set : Sigset) : Option Sigset :=
  match how with
  | .block => some (blocked ||| set)
  | .setmask => some set
  | .unblock => some (blocked &&& ~~~set)
  | .other => none

/-- `pthread_sigmask`, for the signal state of the kernel thread `k`. -/
def pthreadSigmask (E : Env) (k : Port) (how : How) (setp : Option Sigset) (s : Create.State) :
    Code × Create.State :=
  match setp with
  | none => (.ok, s)
  | some set =>
      match newBlocked how ((s.sigstates k).getD 0) set with
      | none => (.einval, s)
      | some blocked => (.ok, s.setBlocked k (blocked &&& ~~~E.cantMask))

/-! ### The machine -/

/-- One whole call, on the kernel thread `self`. A call of `pthread_join` for a thread that runs
is `join`, and then either `leave` or `deallocate`. -/
inductive Act where
  | create (self : Port) (K : Answers) (M : KernelAnswers) (args : Args)
  /-- The thread returns from its function or calls `pthread_exit`. -/
  | exit (self : Port)
  /-- `pthread_detach`, for a thread that runs. -/
  | detach (self : Port) (pt : Addr)
  /-- `pthread_join` waits. -/
  | join (self : Port) (pt : Addr)
  /-- `pthread_join` is cancelled, or times out. -/
  | leave (self : Port) (pt : Addr)
  /-- A thread that has ended is joined, or detached. -/
  | deallocate (self : Port) (pt : Addr)
  | sigmask (self : Port) (how : How) (setp : Option Sigset)

/-- The kernel thread runs a thread of the process. -/
def State.runs (s : State) (self : Port) : Bool := s.live.any fun p => p.2 == self

/-- The thread runs. -/
def State.isLive (s : State) (pt : Addr) : Bool := s.live.any fun p => p.1 == pt

/-- One call. It is `none` for a call that cannot be made, a fault, and the end of the
process. -/
def step (E : Env) (s : State) : Act → Option State
  | .create self K M args =>
      if s.runs self then
        (pthreadCreate E K M self args s).map fun (r, s) =>
          if r = .ok then { s with live := (s.proc.ptp, K.threadCreate.getD 0) :: s.live } else s
      else none
  | .exit self =>
      if s.runs self then
        let pt := s.pthreadSelf self
        let detached := (s.proc.desc pt).joinpt == pt
        (pthreadCleanup pt s.proc).map fun proc =>
          { s with
            proc := proc
            live := s.live.filter fun p => p.2 != self
            dead := if detached then s.dead else pt :: s.dead }
      else none
  | .detach self pt =>
      if s.runs self ∧ s.isLive pt then some { s with proc := casJoinpt pt 0 pt s.proc } else none
  | .join self pt =>
      if s.runs self ∧ s.isLive pt ∧ s.pthreadSelf self ≠ pt then
        some { s with proc := casJoinpt pt 0 (s.pthreadSelf self) s.proc }
      else none
  | .leave self pt =>
      if s.runs self ∧ (s.isLive pt ∨ pt ∈ s.dead) then
        some { s with proc := casJoinpt pt (s.pthreadSelf self) 0 s.proc }
      else none
  | .deallocate self pt =>
      if s.runs self ∧ pt ∈ s.dead then
        some { s with
          proc := pthreadDeallocate pt s.proc
          dead := s.dead.filter fun p => p != pt }
      else none
  | .sigmask self how setp =>
      if s.runs self then some { s with proc := (pthreadSigmask E self how setp s.proc).2 }
      else none

/-- What the dynamic linker and the C library have prepared for the main thread: a TCB, its
segment and a signal state. -/
structure Loaded (E : Env) (k : Port) (s : State) : Prop where
  tcb_ne : s.gsBase k ≠ 0
  tcb : s.getTcb k = s.gsBase k
  mappings : s.proc.mappings = []
  tlsList : s.proc.tlsList = 0
  threads : k ∈ s.proc.threads
  blocked : ∃ blocked, s.proc.sigstates k = some blocked ∧ blocked &&& E.cantMask = 0
  dead : s.dead = []

/-- The process with its main thread. -/
def machine (E : Env) : Lib.Machine State Act where
  init s := ∃ pt self stack size s₀, Loaded E self s₀ ∧ s = pthreadInitialize pt self stack size s₀
  step := step E

end Hlpt.Identity
