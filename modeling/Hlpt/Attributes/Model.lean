import Hlpt.Create.Model

/-!
# `Hlpt.Attributes.Model`: the thread attributes of `attr.c`

The setters and getters of a `pthread_attr_t`, the default attributes that
`__pthread_initialize` makes, and `pthread_getattr_np`, which reads the attributes of a thread
back from its descriptor.

`pthread_attr_setstackaddr` stores the end of a stack, from which the stack grows down, and
`pthread_attr_setstack` takes its beginning and stores the end.
-/

set_option autoImplicit false

namespace Hlpt.Attributes

open Hlpt.Create (Addr Attr Desc Env PTHREAD_CREATE_DETACHED PTHREAD_STACK_MIN)

/-- The codes of `attr.c`: the ones of `Hlpt.Base`, and `ENOTSUP`. -/
inductive Ret where
  | code (r : Code)
  | enotsup
  deriving DecidableEq, Repr

/-- `PTHREAD_CREATE_JOINABLE` -/
def PTHREAD_CREATE_JOINABLE : BitVec 32 := 0x1

/-- `PTHREAD_INHERIT_SCHED` -/
def PTHREAD_INHERIT_SCHED : BitVec 32 := 0x4

/-- `PTHREAD_EXPLICIT_SCHED` -/
def PTHREAD_EXPLICIT_SCHED : BitVec 32 := 0x8

/-- `PTHREAD_SCOPE_SYSTEM` -/
def PTHREAD_SCOPE_SYSTEM : BitVec 32 := 0x10

/-- `PTHREAD_SCOPE_PROCESS` -/
def PTHREAD_SCOPE_PROCESS : BitVec 32 := 0x20

/-- `SCHED_OTHER`, `SCHED_FIFO` and `SCHED_RR` of `<sched.h>`. -/
def SCHED_OTHER : BitVec 32 := 0

def SCHED_FIFO : BitVec 32 := 1

def SCHED_RR : BitVec 32 := 2

/-- `__sched` of a `pthread_attr_t`. -/
structure Sched where
  policy : BitVec 32
  data : BitVec 32
  deriving DecidableEq, Repr

/-- `pthread_attr_t`: what a creation reads, and `__sched`. -/
structure PthreadAttr extends Attr where
  sched : Sched
  deriving DecidableEq, Repr

/-- `__pthread_dfl_attr`, from what `getrlimit` says about the stack: an error, or a limit.
`infinity` is `RLIM_INFINITY`. -/
def dflAttr (infinity : BitVec 32) (lim : Option (BitVec 32)) : PthreadAttr where
  stack := 0
  stacksize :=
    match lim with
    | none => 2 * 1024 * 1024
    | some cur =>
        if cur = infinity then 2 * 1024 * 1024
        else if cur < PTHREAD_STACK_MIN then PTHREAD_STACK_MIN
        else cur
  guardsize := 0
  flags := PTHREAD_CREATE_JOINABLE ||| PTHREAD_INHERIT_SCHED
  sched := ⟨SCHED_OTHER, 0⟩

/-! ### The setters -/

/-- The calls that change an attribute object, with their arguments. -/
inductive Call where
  | setstackaddr (stack : Addr)
  | setstacksize (size : BitVec 32)
  | setstack (stack : Addr) (size : BitVec 32)
  | setdetachstate (state : BitVec 32)
  | setguardsize (size : BitVec 32)
  | setscope (scope : BitVec 32)
  | setinheritsched (sched : BitVec 32)
  | setschedparam (priority : BitVec 32)
  | setschedpolicy (policy : BitVec 32)
  deriving DecidableEq, Repr

/-- `pthread_attr_setstackaddr` -/
def pthreadAttrSetstackaddr (attr : PthreadAttr) (stack : Addr) : Ret × PthreadAttr :=
  (.code .ok, { attr with stack := stack })

/-- `pthread_attr_setstacksize` -/
def pthreadAttrSetstacksize (attr : PthreadAttr) (size : BitVec 32) : Ret × PthreadAttr :=
  let (r, a) := Create.pthreadAttrSetstacksize attr.toAttr size
  (.code r, { attr with toAttr := a })

/-- `pthread_attr_setstack` -/
def pthreadAttrSetstack (attr : PthreadAttr) (stack : Addr) (size : BitVec 32) :
    Ret × PthreadAttr :=
  if size < PTHREAD_STACK_MIN then (.code .einval, attr)
  else (.code .ok, { attr with stack := stack + size, stacksize := size })

/-- `pthread_attr_setdetachstate` -/
def pthreadAttrSetdetachstate (attr : PthreadAttr) (state : BitVec 32) : Ret × PthreadAttr :=
  if state ≠ PTHREAD_CREATE_JOINABLE ∧ state ≠ PTHREAD_CREATE_DETACHED then
    (.code .einval, attr)
  else
    (.code .ok, { attr with
      flags := state |||
        (attr.flags &&& ~~~(PTHREAD_CREATE_DETACHED ||| PTHREAD_CREATE_JOINABLE)) })

/-- `pthread_attr_setguardsize` -/
def pthreadAttrSetguardsize (E : Env) (attr : PthreadAttr) (size : BitVec 32) :
    Ret × PthreadAttr :=
  let (r, a) := Create.pthreadAttrSetguardsize E attr.toAttr size
  (.code r, { attr with toAttr := a })

/-- `pthread_attr_setscope`, which stores nothing. -/
def pthreadAttrSetscope (attr : PthreadAttr) (scope : BitVec 32) : Ret × PthreadAttr :=
  (if scope = PTHREAD_SCOPE_PROCESS then .enotsup
    else if scope ≠ PTHREAD_SCOPE_SYSTEM then .code .einval else .code .ok, attr)

/-- `pthread_attr_setinheridsched`, which stores nothing. -/
def pthreadAttrSetinheridsched (attr : PthreadAttr) (sched : BitVec 32) : Ret × PthreadAttr :=
  (if sched = PTHREAD_EXPLICIT_SCHED then .enotsup
    else if sched ≠ PTHREAD_INHERIT_SCHED then .code .einval else .code .ok, attr)

/-- `pthread_attr_setschedparam` -/
def pthreadAttrSetschedparam (attr : PthreadAttr) (priority : BitVec 32) : Ret × PthreadAttr :=
  (.code .ok, { attr with sched := { attr.sched with data := priority } })

/-- `pthread_attr_setschedpolicy`, which stores nothing. -/
def pthreadAttrSetschedpolicy (attr : PthreadAttr) (policy : BitVec 32) : Ret × PthreadAttr :=
  (if policy = SCHED_FIFO ∨ policy = SCHED_RR then .enotsup
    else if policy ≠ SCHED_OTHER then .code .einval else .code .ok, attr)

/-- One call on an attribute object. -/
def call (E : Env) (attr : PthreadAttr) : Call → Ret × PthreadAttr
  | .setstackaddr stack => pthreadAttrSetstackaddr attr stack
  | .setstacksize size => pthreadAttrSetstacksize attr size
  | .setstack stack size => pthreadAttrSetstack attr stack size
  | .setdetachstate state => pthreadAttrSetdetachstate attr state
  | .setguardsize size => pthreadAttrSetguardsize E attr size
  | .setscope scope => pthreadAttrSetscope attr scope
  | .setinheritsched sched => pthreadAttrSetinheridsched attr sched
  | .setschedparam priority => pthreadAttrSetschedparam attr priority
  | .setschedpolicy policy => pthreadAttrSetschedpolicy attr policy

/-- A program of calls. It goes on after a call that failed. -/
def calls (E : Env) (attr : PthreadAttr) (cs : List Call) : PthreadAttr :=
  cs.foldl (fun a c => (call E a c).2) attr

/-! ### The getters -/

/-- `pthread_attr_getstackaddr` -/
def pthreadAttrGetstackaddr (attr : PthreadAttr) : Addr := attr.stack

/-- `pthread_attr_getstacksize` -/
def pthreadAttrGetstacksize (E : Env) (attr : PthreadAttr) : BitVec 32 := attr.size E

/-- `pthread_attr_getstack` -/
def pthreadAttrGetstack (attr : PthreadAttr) : Addr × BitVec 32 :=
  (attr.stack - attr.stacksize, attr.stacksize)

/-- `pthread_attr_getdetachstate` -/
def pthreadAttrGetdetachstate (attr : PthreadAttr) : BitVec 32 :=
  attr.flags &&& (PTHREAD_CREATE_DETACHED ||| PTHREAD_CREATE_JOINABLE)

/-- `pthread_attr_getguardsize` -/
def pthreadAttrGetguardsize (attr : PthreadAttr) : BitVec 32 := attr.guardsize

/-- `pthread_attr_getscope` -/
def pthreadAttrGetscope (attr : PthreadAttr) : BitVec 32 :=
  attr.flags &&& (PTHREAD_SCOPE_PROCESS ||| PTHREAD_SCOPE_SYSTEM)

/-- `pthread_attr_getinheritsched` -/
def pthreadAttrGetinheritsched (attr : PthreadAttr) : BitVec 32 :=
  attr.flags &&& (PTHREAD_INHERIT_SCHED ||| PTHREAD_EXPLICIT_SCHED)

/-- `pthread_attr_getschedparam` -/
def pthreadAttrGetschedparam (attr : PthreadAttr) : BitVec 32 := attr.sched.data

/-- `pthread_attr_getschedpolicy` -/
def pthreadAttrGetschedpolicy (attr : PthreadAttr) : BitVec 32 := attr.sched.policy

/-! ### The attributes of a thread -/

/-- `DETACHED_P (pt)` -/
def detachedP (pt : Addr) (d : Desc) : Bool := d.joinpt == pt

/-- `INVALID_P (pt)` -/
def invalidP (pt : Addr) (d : Desc) : Bool := pt == 0 || d.id == 0

/-- `pthread_getattr_np`, for the descriptor `d` at `pt`. -/
def pthreadGetattrNp (dfl : PthreadAttr) (pt : Addr) (d : Desc) (attr : PthreadAttr) :
    Ret × PthreadAttr :=
  if invalidP pt d then (.code .esrch, attr)
  else
    let flags := if detachedP pt d then PTHREAD_CREATE_DETACHED else PTHREAD_CREATE_JOINABLE
    (.code .ok,
      { stack := d.stack + d.stacksize
        stacksize := d.stacksize
        guardsize := d.guardsize
        flags := flags ||| (PTHREAD_SCOPE_SYSTEM ||| PTHREAD_INHERIT_SCHED)
        sched := dfl.sched })

end Hlpt.Attributes
