import Hlpt.Base
import Hlpt.Flags
import Mathlib.Data.BitVec
import Mathlib.Logic.Function.Basic

/-!
# `Hlpt.Create.Model`: `pthread_create` of `create.c`

One call of `pthread_create`, with no other thread acting: what it takes from the kernel and
from the free list of the TCBs, and what it gives back when a step fails. The kernel, the
dynamic linker and `_hurd_thread_sigstate` answer as `Answers` says.

A descriptor lies at the top of its stack. On a stack of the library it has to lie in the
mapping and above the guard area. Otherwise the first store to it faults, and the call goes
no further, which is `none` here. A stack of the program is the program's to provide.

`size_t` and the addresses have 32 bits. A descriptor and a TCB are told by their fields, and
a signal state by the port of its thread.
-/

set_option autoImplicit false

namespace Hlpt.Create

abbrev Addr := BitVec 32

abbrev Port := BitVec 32

/-- `sigset_t`. `sigemptyset` leaves 0. -/
abbrev Sigset := BitVec 32

/-- `PTHREAD_STACK_MIN` -/
def PTHREAD_STACK_MIN : BitVec 32 := 16384

/-- `PTHREAD_CREATE_DETACHED` -/
def PTHREAD_CREATE_DETACHED : BitVec 32 := 2

/-- `PTHREAD_INVALID_ID` -/
def PTHREAD_INVALID_ID : BitVec 32 := ~~~0

/-- The fields of `pthread_attr_t` that a creation reads. -/
structure Attr where
  stack : Addr
  stacksize : BitVec 32
  guardsize : BitVec 32
  flags : BitVec 32
  deriving DecidableEq, Repr

/-- What the sizes depend on: `vm_page_size`, the size and the alignment of
`struct pthread`, and `__pthread_dfl_attr`. The smallest stack has room for a descriptor. -/
structure Env where
  pageShift : ℕ
  pageShift_lt : pageShift < 32
  alignShift : ℕ
  sizeofPthread : BitVec 32
  sizeofPthread_pos : 0 < sizeofPthread.toNat
  fits : sizeofPthread.toNat + 2 ^ alignShift ≤ PTHREAD_STACK_MIN.toNat
  dflAttr : Attr

namespace Env

/-- `vm_page_size`, a power of two. -/
def vmPageSize (E : Env) : BitVec 32 := BitVec.twoPow 32 E.pageShift

/-- `__alignof__ (struct pthread)`, a power of two. -/
def alignofPthread (E : Env) : BitVec 32 := BitVec.twoPow 32 E.alignShift

end Env

/-! ### The attributes -/

/-- `pthread_attr_setstacksize` -/
def pthreadAttrSetstacksize (attr : Attr) (size : BitVec 32) : Code × Attr :=
  if size < PTHREAD_STACK_MIN then (.einval, attr)
  else (.ok, { attr with stacksize := size })

/-- `pthread_attr_setguardsize` -/
def pthreadAttrSetguardsize (E : Env) (attr : Attr) (size : BitVec 32) : Code × Attr :=
  if size < E.vmPageSize then (.einval, attr)
  else (.ok, { attr with guardsize := size })

/-! ### The memory -/

/-- The fields of `struct pthread` that a creation uses. -/
structure Desc where
  tcb : Addr
  id : BitVec 32
  flags : BitVec 32
  joinpt : Addr
  startFct : Addr
  argp : Addr
  stack : Addr
  stacksize : BitVec 32
  guardsize : BitVec 32
  deriving DecidableEq, Repr

/-- A descriptor in zero-filled memory. -/
def Desc.zero : Desc := ⟨0, 0, 0, 0, 0, 0, 0, 0, 0⟩

/-- The fields of `tcbhead_t` that a creation uses. On the free list, the first word is the
link. The signal state is told by the port of its thread. -/
structure Tcb where
  first : Addr
  self : Port
  thrdesc : Addr
  replyPort : Port
  sigstate : Option Port
  deriving DecidableEq, Repr

/-- The process: the stack mappings that it has made, the descriptors and the TCBs in its
memory, its kernel threads, their signal states with the blocked signals, the free list of the
TCBs, and the global variables. `ptp` is the word that `*ptp` names. -/
structure State where
  mappings : List (Addr × BitVec 32)
  desc : Addr → Desc
  tcb : Addr → Tcb
  threads : Finset Port
  sigstates : Port → Option Sigset
  tlsList : Addr
  total : BitVec 32
  running : List Addr
  mtflag : Bool
  ptp : Addr

/-- What a call gets from outside: the base of the mapping from `vm_map`, whether `vm_protect`
succeeds, the port from `thread_create`, whether `_hurd_thread_sigstate` and
`_dl_allocate_tls` succeed, the block of `_dl_allocate_tls` for NULL, and whether
`__pthread_set_machine_state` succeeds. -/
structure Answers where
  vmMap : Option Addr
  vmProtect : Bool
  threadCreate : Option Port
  threadSigstate : Bool
  dlAllocateTls : Bool
  freshTcb : Addr
  freshTcb_ne : freshTcb ≠ 0
  setMachineState : Bool

/-- The arguments of `pthread_create`, and the signals that the parent blocks, if it has a
signal state. -/
structure Args where
  attrp : Option Attr
  startFct : Addr
  argp : Addr
  parentBlocked : Option Sigset

namespace State

/-- `vm_map`: the new memory is zero-filled. -/
def vmMap (s : State) (addr : Addr) (total : BitVec 32) : State :=
  { s with
    mappings := (addr, total) :: s.mappings
    desc := fun p => if (p - addr).toNat < total.toNat then .zero else s.desc p }

/-- `vm_deallocate` -/
def vmDeallocate (s : State) (addr : Addr) (total : BitVec 32) : State :=
  { s with mappings := s.mappings.erase (addr, total) }

/-- `thread_create` -/
def threadCreate (s : State) (ktid : Port) : State :=
  { s with threads := insert ktid s.threads }

/-- `thread_terminate` -/
def threadTerminate (s : State) (ktid : Port) : State :=
  { s with threads := s.threads.erase ktid }

/-- `_hurd_thread_sigstate`, for a new thread. -/
def hurdThreadSigstate (s : State) (ktid : Port) : State :=
  { s with sigstates := Function.update s.sigstates ktid (some 0) }

/-- `_hurd_sigstate_delete` -/
def hurdSigstateDelete (s : State) (ktid : Port) : State :=
  { s with sigstates := Function.update s.sigstates ktid none }

/-- `__pthread_sigstate (pt)->blocked = blocked` -/
def setBlocked (s : State) (ktid : Port) (blocked : Sigset) : State :=
  { s with sigstates := Function.update s.sigstates ktid (some blocked) }

/-- The fields of the descriptor at `pt` are changed. -/
def setDesc (s : State) (pt : Addr) (f : Desc → Desc) : State :=
  { s with desc := Function.update s.desc pt (f (s.desc pt)) }

/-- The fields of the TCB at `a` are changed. -/
def setTcb (s : State) (a : Addr) (f : Tcb → Tcb) : State :=
  { s with tcb := Function.update s.tcb a (f (s.tcb a)) }

/-- `__pthread_kport (pt)`: the thread of the signal state in the TCB. -/
def kport (s : State) (pt : Addr) : Option Port := (s.tcb (s.desc pt).tcb).sigstate

end State

/-! ### The functions -/

/-- `_dl_allocate_tls`: its argument again, or a new block when that is NULL. -/
def dlAllocateTls (K : Answers) (mem : Addr) : Addr :=
  if K.dlAllocateTls then if mem = 0 then K.freshTcb else mem else 0

/-- The loop of `alloc_tls`, which takes the first TCB from the free list. No other thread
acts, so its compare-and-swap succeeds. -/
def popTls (pt : Addr) (s : State) : State :=
  let a := s.tlsList
  let s := s.setDesc pt fun d => { d with tcb := a }
  if a = 0 then s else { s with tlsList := (s.tcb a).first }

/-- `alloc_tls`, and whether it succeeds. -/
def allocTls (K : Answers) (pt : Addr) (ktid : Port) (s : State) : Bool × State :=
  let s := popTls pt s
  let a := dlAllocateTls K (s.desc pt).tcb
  let s := s.setDesc pt fun d => { d with tcb := a }
  if a = 0 then (false, s)
  else (true, s.setTcb a fun b => { b with first := a, self := ktid, thrdesc := pt })

/-- `dealloc_tls` -/
def deallocTls (pt : Addr) (s : State) : State :=
  let a := (s.desc pt).tcb
  let s := s.setTcb a fun b => { b with replyPort := 0 }
  let s := s.setTcb a fun b => { b with first := s.tlsList }
  { s.setDesc pt fun d => { d with tcb := 0 } with tlsList := a }

/-- `roundup_page` -/
def roundupPage (E : Env) (size : BitVec 32) : BitVec 32 :=
  (size + E.vmPageSize - 1) &&& ~~~(E.vmPageSize - 1)

/-- `pt->flags & PT_FLG_USR_STACK` -/
def Desc.usrStack (d : Desc) : Bool := d.flags &&& PT_FLG_USR_STACK != 0

/-- The address and the size that `free_stack` passes to `vm_deallocate`. -/
def Desc.freeRange (d : Desc) : Addr × BitVec 32 :=
  let total := d.stacksize + d.guardsize
  let addr := d.stack - d.guardsize
  (addr, total)

/-- `free_stack` -/
def freeStack (pt : Addr) (s : State) : State :=
  let d := s.desc pt
  if d.usrStack then s else s.vmDeallocate d.freeRange.1 d.freeRange.2

/-- The stack and its size that `__pthread_cleanup` passes to `thread_terminate_release2`. -/
def Desc.cleanupRange (d : Desc) (detached : Bool) : Addr × BitVec 32 :=
  if detached && !d.usrStack then
    let size := d.stacksize + d.guardsize
    let stack := d.stack - d.guardsize
    (stack, size)
  else (0, 0)

/-- The descriptor at the top of a stack that ends at `stack`. -/
def placeDesc (E : Env) (stack : Addr) : Addr :=
  (stack - E.sizeofPthread) &&& ~~~(E.alignofPthread - 1)

/-- `attrp->__stacksize ?: __pthread_dfl_attr.__stacksize` -/
def Attr.size (E : Env) (attr : Attr) : BitVec 32 :=
  if attr.stacksize ≠ 0 then attr.stacksize else E.dflAttr.stacksize

/-- The guard size, rounded when it is not 0. -/
def Attr.guard (E : Env) (attr : Attr) : BitVec 32 :=
  if attr.guardsize ≠ 0 then roundupPage E attr.guardsize else attr.guardsize

/-- The size of the mapping for a stack of the library. -/
def Attr.mapSize (E : Env) (attr : Attr) : BitVec 32 :=
  roundupPage E (attr.size E) + attr.guard E

/-- The initialization of the descriptor at `pt`. -/
def initDesc (attr : Attr) (pt stack : Addr) (size guardsize : BitVec 32) (s : State) : State :=
  s.setDesc pt fun d =>
    { d with
      stacksize := size
      stack := stack - size
      guardsize := guardsize
      id := PTHREAD_INVALID_ID
      joinpt := if attr.flags &&& PTHREAD_CREATE_DETACHED ≠ 0 then pt else d.joinpt }

/-- The rest of `pt_allocate`, from `thread_create` on. -/
def acquire (K : Answers) (pt : Addr) (s : State) : Option Addr × State :=
  match K.threadCreate with
  | none => (none, freeStack pt s)
  | some ktid =>
      let s := s.threadCreate ktid
      if !K.threadSigstate then (none, freeStack pt (s.threadTerminate ktid))
      else
        let s := s.hurdThreadSigstate ktid
        match allocTls K pt ktid s with
        | (false, s) =>
            (none, freeStack pt ((s.hurdSigstateDelete ktid).threadTerminate ktid))
        | (true, s) => (some pt, s.setTcb (s.desc pt).tcb fun b => { b with sigstate := some ktid })

/-- The descriptor lies in the mapping at `base`, above the guard area. -/
def InStack (E : Env) (attr : Attr) (base pt : Addr) : Prop :=
  base.toNat + (attr.guard E).toNat ≤ pt.toNat ∧
    pt.toNat + E.sizeofPthread.toNat ≤ base.toNat + (attr.mapSize E).toNat

instance (E : Env) (attr : Attr) (base pt : Addr) : Decidable (InStack E attr base pt) :=
  inferInstanceAs (Decidable (_ ∧ _))

/-- `pt_allocate`: the descriptor or NULL, and the state. `none` is a fault. -/
def ptAllocate (E : Env) (K : Answers) (attr : Attr) (s : State) :
    Option (Option Addr × State) :=
  if attr.stack = 0 then
    match K.vmMap with
    | none => some (none, s)
    | some base =>
        let total := attr.mapSize E
        let s := s.vmMap base total
        if attr.guard E ≠ 0 ∧ K.vmProtect = false then some (none, s.vmDeallocate base total)
        else
          let stack := base + total
          let pt := placeDesc E stack
          if InStack E attr base pt then
            some (acquire K pt
              (initDesc attr pt stack (roundupPage E (attr.size E)) (attr.guard E) s))
          else none
  else
    let pt := placeDesc E attr.stack
    let s := s.setDesc pt fun _ => { Desc.zero with flags := PT_FLG_USR_STACK }
    some (acquire K pt (initDesc attr pt attr.stack (attr.size E) attr.guardsize s))

/-- The rest of `pthread_create`, for the descriptor `pt`. The new thread is resumed last. -/
def start (K : Answers) (args : Args) (pt : Addr) (s : State) : Code × State :=
  let s := s.setDesc pt fun d => { d with startFct := args.startFct, argp := args.argp }
  let ktid := (s.kport pt).getD 0
  let s := s.setBlocked ktid (args.parentBlocked.getD 0)
  let s := { s with total := s.total + 1 }
  if !K.setMachineState then
    let s := deallocTls pt (s.hurdSigstateDelete ktid)
    let s := freeStack pt (s.threadTerminate ktid)
    (.eagain, { s with total := s.total - 1 })
  else (.ok, { s with ptp := pt, mtflag := true })

/-- `pthread_create`. `none` is a fault. -/
def pthreadCreate (E : Env) (K : Answers) (args : Args) (s : State) : Option (Code × State) :=
  (ptAllocate E K (args.attrp.getD E.dflAttr) s).map fun
    | (none, s) => (.eagain, s)
    | (some pt, s) => start K args pt s

end Hlpt.Create
