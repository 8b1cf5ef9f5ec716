import Hlpt.Lib.Machine
import Mathlib.Data.BitVec
import Mathlib.Logic.Function.Basic

/-!
# `Hlpt.NamedSem.Model`: `sem_open`, `sem_close` and `sem_unlink`

The named semaphores of one process. The semaphore directory maps names to files. A
semaphore is a mapping of its file, and the process keeps a list of its mappings,
`__mapped_sems`, with a reference count and the name that each one was opened under.

The calls of the Hurd behave as their POSIX counterparts. What they may also do is an
`Outcome`: each of them may fail, and `vm_map` chooses a free address.

The ghosts are the open handles, each with the file that was linked under its name when its
`sem_open` returned, and the name under which a file was linked.
-/

set_option autoImplicit false

namespace Hlpt.NamedSem

/-- A backing file. They are numbered as they are created. -/
abbrev File := ℕ

/-- The address of a mapping. -/
abbrev Addr := BitVec 32

/-- The characters of a string, without the NUL at its end. -/
abbrev Name := List Char

/-- `(sem_t *)0` -/
def SEM_FAILED : Addr := 0

def SEM_VALUE_MAX : BitVec 32 := 0x7fffffff

/-- The codes in `errno`. `other` is what a call of the Hurd leaves there. -/
inductive Errno where
  | einval
  | enoent
  | eexist
  | enomem
  | other
  deriving DecidableEq, Repr

/-- The bits of `oflag` that `sem_open` tests. The others go to `file_name_lookup`. -/
structure Oflag where
  creat : Bool
  excl : Bool
  deriving DecidableEq, Repr

/-- `struct shared_sem`. The name is stored with the NUL at its end. -/
structure SharedSem where
  semp : Addr
  refcount : BitVec 32
  name : List Char
  deriving DecidableEq, Repr

/-- An open handle: the semaphore, the name less its slash, and the file that was linked
under the name when `sem_open` returned. -/
structure Handle where
  semp : Addr
  name : Name
  file : Option File
  deriving DecidableEq, Repr

/-- The directory, the number of files that were created, what the process has mapped, and
its list of semaphores. Then the ghosts. -/
structure State where
  dir : Name → Option File
  files : ℕ
  maps : Addr → Option File
  mappedSems : List SharedSem
  opened : List Handle
  linkedAs : File → Name

/-- What the kernel and the file system do in one pass of `sem_open`: whether each call
succeeds, and the address that `vm_map` chooses. -/
structure Outcome where
  lookup : Bool := true
  anon : Bool := true
  write : Bool := true
  addr : Addr := 0
  link : Bool := true
  malloc : Bool := true

/-! ### The calls of the Hurd -/

namespace State

/-- `file_name_lookup` of the file of a semaphore. -/
def fileNameLookup (s : State) (o : Outcome) (n : Name) : Except Errno File :=
  if o.lookup then
    match s.dir n with
    | none => .error .enoent
    | some f => .ok f
  else .error .other

/-- `map_file`. There is no mapping when `io_map` or `vm_map` fails. -/
def mapFile (s : State) (o : Outcome) (f : File) : Option (Addr × State) :=
  if o.addr ≠ SEM_FAILED ∧ s.maps o.addr = none then
    some (o.addr, { s with maps := Function.update s.maps o.addr (some f) })
  else none

/-- `vm_deallocate` -/
def vmDeallocate (s : State) (a : Addr) : State :=
  { s with maps := Function.update s.maps a none }

/-- `create_anon_file` and `write_full`, and the file -/
def createAnonFile (s : State) (o : Outcome) : Option File × State :=
  if o.anon then (if o.write then some s.files else none, { s with files := s.files + 1 })
  else (none, s)

/-- `link_file`. `dir_link` does not replace a file. -/
def linkFile (s : State) (o : Outcome) (f : File) (n : Name) : Except Errno State :=
  if o.link then
    match s.dir n with
    | some _ => .error .eexist
    | none =>
        .ok { s with
          dir := Function.update s.dir n (some f)
          linkedAs := Function.update s.linkedAs f n }
  else .error .other

end State

/-! ### The list of semaphores -/

/-- `memcmp (s1, s2, n) == 0`, when two strings are compared. -/
def memcmpEq (s1 s2 : List Char) (n : ℕ) : Bool := s1.take n == s2.take n

/-- The test of `add_mapping`: `memcmp (sp->name, name, namelen) == 0`. -/
def SharedSem.matchesName (sp : SharedSem) (name : Name) : Bool :=
  memcmpEq sp.name name name.length

/-- The loop of `add_mapping`: the semaphore that it found, and the list with one more
reference to it. -/
def findMapping (name : Name) : List SharedSem → Option (SharedSem × List SharedSem)
  | [] => none
  | sp :: l =>
      if sp.matchesName name then some (sp, { sp with refcount := sp.refcount + 1 } :: l)
      else (findMapping name l).map fun r => (r.1, sp :: r.2)

/-- The loop of `sem_close`: whether the reference was the last one, and the list. -/
def dropMapping (semp : Addr) : List SharedSem → Option (Bool × List SharedSem)
  | [] => none
  | sp :: l =>
      if sp.semp = semp then
        if sp.refcount - 1 = 0 then some (true, l)
        else some (false, { sp with refcount := sp.refcount - 1 } :: l)
      else (dropMapping semp l).map fun r => (r.1, sp :: r.2)

/-- `hurd_list_add_tail` of a new semaphore. -/
def State.addTail (s : State) (name : Name) (a : Addr) : State :=
  { s with mappedSems := s.mappedSems ++ [⟨a, 1, name ++ ['\x00']⟩] }

/-- The end of `add_mapping`: the mapping of the caller goes when it is not returned. -/
def State.done (s : State) (ret prevp : Addr) : State :=
  if ret ≠ prevp ∧ prevp ≠ SEM_FAILED then s.vmDeallocate prevp else s

/-- `add_mapping` -/
def addMapping (name : Name) (f : File) (prevp : Addr) (o : Outcome) (s : State) :
    Except Errno Addr × State :=
  match findMapping name s.mappedSems with
  | some (sp, l) => (.ok sp.semp, { s with mappedSems := l }.done sp.semp prevp)
  | none =>
      if o.malloc then
        if prevp = SEM_FAILED then
          -- If the caller didn't provide a mapping, create it now.
          match s.mapFile o f with
          | none => (.error .enomem, s)
          | some (a, s) => (.ok a, s.addTail name a)
        else (.ok prevp, s.addTail name prevp)
      else (.error .enomem, s.done SEM_FAILED prevp)

/-! ### The functions -/

/-- `validate_name` -/
def validateName : Name → Bool
  | '/' :: n => !n.contains '/'
  | _ => false

/-- `sem_open` from `try_create` on. With `retry` it goes back to `try_open`. -/
def tryCreate (n : Name) (oflag : Oflag) (value : BitVec 32) (o : Outcome)
    (retry : State → Option (Except Errno Addr × State)) (s : State) :
    Option (Except Errno Addr × State) :=
  if SEM_VALUE_MAX < value then some (.error .einval, s)
  else
    match s.createAnonFile o with
    | (none, s) => some (.error .other, s)
    | (some f, s) =>
        match s.mapFile o f with
        | none => some (.error .other, s)
        | some (a, s) =>
            match s.linkFile o f n with
            | .error e =>
                if oflag.excl = false ∧ e = .eexist then retry (s.vmDeallocate a)
                else some (.error e, s.vmDeallocate a)
            | .ok s => some (addMapping n f a o s)

/-- `sem_open` from `try_open` on. It may go back to `try_open`, once for each outcome. -/
def tryOpen (n : Name) (oflag : Oflag) (value : BitVec 32) :
    List Outcome → State → Option (Except Errno Addr × State)
  | [], _ => none
  | o :: os, s =>
      match s.fileNameLookup o n with
      | .ok f => some (addMapping n f SEM_FAILED o s)
      | .error e =>
          if oflag.creat = true ∧ e = .enoent then
            tryCreate n oflag value o (tryOpen n oflag value os) s
          else some (.error e, s)

/-- `sem_open`. There are as many outcomes as it makes passes. -/
def semOpen (name : Name) (oflag : Oflag) (value : BitVec 32) (os : List Outcome) (s : State) :
    Option (Except Errno Addr × State) :=
  if validateName name then
    if oflag.creat = true ∧ oflag.excl = true then
      match os with
      | [] => none
      | o :: os => tryCreate name.tail oflag value o (tryOpen name.tail oflag value os) s
    else tryOpen name.tail oflag value os s
  else some (.error .einval, s)

/-- `sem_close` -/
def semClose (semp : Addr) (s : State) : Except Errno Unit × State :=
  match dropMapping semp s.mappedSems with
  | some (true, l) => (.ok (), { s with mappedSems := l }.vmDeallocate semp)
  | some (false, l) => (.ok (), { s with mappedSems := l })
  | none => (.error .einval, s)

/-- `sem_unlink`, when `unlink` succeeds if there is a file. -/
def semUnlink (name : Name) (ok : Bool) (s : State) : Except Errno Unit × State :=
  if validateName name then
    if ok then
      match s.dir name.tail with
      | none => (.error .enoent, s)
      | some _ => (.ok (), { s with dir := Function.update s.dir name.tail none })
    else (.error .other, s)
  else (.error .enoent, s)

/-! ### The process -/

/-- The calls of the process. -/
inductive Call where
  | open (name : Name) (oflag : Oflag) (value : BitVec 32) (os : List Outcome)
  | close (semp : Addr)
  | unlink (name : Name) (ok : Bool)

/-- The open handles after a `sem_open` that returned `r`. -/
def State.record (s : State) (n : Name) : Except Errno Addr → State
  | .ok a => { s with opened := ⟨a, n, s.dir n⟩ :: s.opened }
  | .error _ => s

/-- The open handles after a `sem_close` that returned `r`. -/
def State.forget (s : State) (semp : Addr) : Except Errno Unit → State
  | .ok _ => { s with opened := s.opened.eraseP (·.semp = semp) }
  | .error _ => s

/-- One call after the other. -/
def step (s : State) : Call → Option State
  | .open name oflag value os =>
      (semOpen name oflag value os s).map fun r => r.2.record name.tail r.1
  | .close semp => some ((semClose semp s).2.forget semp (semClose semp s).1)
  | .unlink name ok => some (semUnlink name ok s).2

/-- A process that has no semaphore open. No file is linked under two names. -/
def IsInit (s : State) : Prop :=
  (∀ n f, s.dir n = some f → f < s.files ∧ s.linkedAs f = n) ∧
    (∀ a, s.maps a = none) ∧ s.mappedSems = [] ∧ s.opened = []

/-- The process. -/
def machine : Lib.Machine State Call := ⟨IsInit, step⟩

end Hlpt.NamedSem
