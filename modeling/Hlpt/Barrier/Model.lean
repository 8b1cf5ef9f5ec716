import Hlpt.Base
import Hlpt.Lib.Sleepers
import Hlpt.Lib.Threads

/-!
# `Hlpt.Barrier.Model`: the barrier of `barrier.c`

Any number of threads call `pthread_barrier_wait` on one barrier, any number of times
each, and a thread may call `pthread_barrier_destroy`. Every atomic access and every
`gsync` call is one step of `exec`.

The sequence `lo` and the count `hi` are the limbs of `__seq_cnt`. They are read and
changed by 32-bit accesses, except for the 64-bit store of the thread that releases
the barrier.

A late arrival, whose count is above the total, waits once and then executes
`continue`. Inside `do ... while (0)` that statement goes to the condition, which is
0, so the loop ends and the call goes on to its return.

`arrivals` and `returned` are ghosts. The arrivals, which are the increments of the
count, are numbered from 0 in their order, and a call is named by its arrival.
-/

set_option autoImplicit false

namespace Hlpt.Barrier

open Hlpt.Lib

universe u

/-- What `pthread_barrier_wait` returns: 0 or `PTHREAD_BARRIER_SERIAL_THREAD`. -/
inductive WaitRet where
  | zero
  | serialThread
  deriving DecidableEq, Repr

/-- The functions that a thread may call. -/
inductive Call where
  | wait
  | destroy
  deriving DecidableEq, Repr

/-- The control points, each before one access. -/
inductive Pc where
  | idle
  /-- `atomic_add (&barp->__nrefs, 1)` -/
  | refsAdd
  /-- `seq = atomic_load (&barp->__seq_cnt.lo)` -/
  | seqLoad
  /-- `cnt = atomic_add (&barp->__seq_cnt.hi, 1)` -/
  | cntAdd (seq : BitVec 32)
  /-- `barp->__seq_cnt.lo == seq`, the condition of the inner loop -/
  | loopTest (seq : BitVec 32)
  /-- `lll_wait (&barp->__seq_cnt.lo, seq, pshared)` of the inner loop -/
  | loopWait (seq : BitVec 32)
  /-- Inside `gsync_wait`, for the inner loop. -/
  | loopAsleep (seq : BitVec 32)
  /-- The load of `barp->__seq_cnt.lo` for the new value of the pair. -/
  | relLoad
  /-- `atomic_storex (&barp->__seq_cnt.qv, ...)` -/
  | relStore (v : BitVec 32)
  /-- `lll_wake (&barp->__seq_cnt.lo, pshared | GSYNC_BROADCAST)` -/
  | relWake
  /-- `lll_wait (&barp->__seq_cnt.lo, seq, pshared)` of a late arrival -/
  | lateWait (seq : BitVec 32)
  /-- Inside `gsync_wait`, for a late arrival. -/
  | lateAsleep
  /-- `atomic_add (&barp->__nrefs, -1)` -/
  | refsDec (r : WaitRet)
  /-- `lll_wake (&barp->__nrefs, pshared)` -/
  | refsWake (r : WaitRet)
  /-- `pthread_barrier_wait` returns. -/
  | ret (r : WaitRet)
  /-- `refc = atomic_add (&barp->__nrefs, -1) - 1` -/
  | destDec
  /-- `lll_wait (&barp->__nrefs, refc, pshared)` -/
  | destWait (refc : BitVec 32)
  /-- Inside `gsync_wait`, for the destroyer. -/
  | destAsleep
  /-- `refc = atomic_load (&barp->__nrefs)` -/
  | destLoad
  /-- `pthread_barrier_destroy` returns 0. -/
  | destRet
  deriving DecidableEq, Repr

/-- A thread: its control point, and the number of its last arrival. -/
structure Local where
  pc : Pc
  arrival : ℕ
  deriving DecidableEq, Repr

/-- The fields of the barrier that change, its two queues, and the ghosts. -/
structure Mem (T : Type u) where
  lo : BitVec 32
  hi : BitVec 32
  nrefs : BitVec 32
  seqSleepers : Finset T
  refSleepers : Finset T
  arrivals : ℕ
  returned : ℕ → Option WaitRet

/-- What the environment chooses in a step: the function an idle thread calls, the
sleeper that a wake takes, and whether the sleep of the thread is interrupted. -/
structure Choice (T : Type u) where
  call : Call := .wait
  pick : Option T := none
  interrupt : Bool := false

variable {T : Type u} [DecidableEq T]

/-- `pthread_barrier_init`: the fields of the new barrier and its `__total`. -/
def pthreadBarrierInit (cnt : BitVec 32) : Except Code (Mem T × BitVec 32) :=
  if cnt = 0 then .error .einval
  else .ok (⟨0, 0, 1, ∅, ∅, 0, fun _ => none⟩, cnt - 1)

/-- Where a call goes after its arrival found the count `cnt`. -/
def afterAdd (total cnt seq : BitVec 32) : Pc :=
  if cnt < total then .loopTest seq
  else if cnt = total then .relLoad
  else .lateWait seq

/-- The next access of the thread `t`; `total` is the field `__total`. -/
def exec (total : BitVec 32) : Exec T (Choice T) (Mem T) Local := fun t c m l =>
  match l.pc with
  | .idle =>
      match c.call with
      | .wait => some (m, { l with pc := .refsAdd })
      | .destroy => some (m, { l with pc := .destDec })
  -- `pthread_barrier_wait`: the caller is counted twice.
  | .refsAdd => some ({ m with nrefs := m.nrefs + 1 }, { l with pc := .seqLoad })
  | .seqLoad => some (m, { l with pc := .cntAdd m.lo })
  | .cntAdd seq =>
      some ({ m with hi := m.hi + 1, arrivals := m.arrivals + 1 },
        ⟨afterAdd total m.hi seq, m.arrivals⟩)
  -- One of the first threads of a round sleeps until the sequence changes.
  | .loopTest seq =>
      some (m, { l with pc := if m.lo = seq then .loopWait seq else .refsDec .zero })
  | .loopWait seq =>
      if m.lo = seq then
        some ({ m with seqSleepers := insert t m.seqSleepers }, { l with pc := .loopAsleep seq })
      else some (m, { l with pc := .loopTest seq })
  | .loopAsleep seq =>
      if t ∈ m.seqSleepers ∧ !c.interrupt then none
      else some ({ m with seqSleepers := m.seqSleepers.erase t }, { l with pc := .loopTest seq })
  -- The last thread of a round bumps the sequence and wakes the others.
  | .relLoad => some (m, { l with pc := .relStore (m.lo + 1) })
  | .relStore v => some ({ m with lo := v, hi := 0 }, { l with pc := .relWake })
  | .relWake => some ({ m with seqSleepers := ∅ }, { l with pc := .refsDec .serialThread })
  -- A thread beyond the round sleeps once, and leaves with the code 0.
  | .lateWait seq =>
      if m.lo = seq then
        some ({ m with seqSleepers := insert t m.seqSleepers }, { l with pc := .lateAsleep })
      else some (m, { l with pc := .refsDec .zero })
  | .lateAsleep =>
      if t ∈ m.seqSleepers ∧ !c.interrupt then none
      else some ({ m with seqSleepers := m.seqSleepers.erase t }, { l with pc := .refsDec .zero })
  -- The last thread inside wakes the one that destroys the barrier.
  | .refsDec r =>
      some ({ m with nrefs := m.nrefs - 1 },
        { l with pc := if m.nrefs = 1 then .refsWake r else .ret r })
  | .refsWake r =>
      (wakeOne m.refSleepers c.pick).map fun q =>
        ({ m with refSleepers := q }, { l with pc := .ret r })
  | .ret r =>
      some ({ m with returned := Function.update m.returned l.arrival (some r) },
        { l with pc := .idle })
  -- `pthread_barrier_destroy`
  | .destDec =>
      some ({ m with nrefs := m.nrefs - 1 },
        { l with pc := if m.nrefs - 1 ≠ 0 then .destWait (m.nrefs - 1) else .destRet })
  | .destWait refc =>
      if m.nrefs = refc then
        some ({ m with refSleepers := insert t m.refSleepers }, { l with pc := .destAsleep })
      else some (m, { l with pc := .destLoad })
  | .destAsleep =>
      if t ∈ m.refSleepers ∧ !c.interrupt then none
      else some ({ m with refSleepers := m.refSleepers.erase t }, { l with pc := .destLoad })
  | .destLoad =>
      some (m, { l with pc := if m.nrefs ≠ 0 then .destWait m.nrefs else .destRet })
  | .destRet => some (m, { l with pc := .idle })

/-- A barrier that `pthread_barrier_init` made for `cnt` threads, before any call. -/
def IsInit (cnt : BitVec 32) (s : Global T (Mem T) Local) : Prop :=
  pthreadBarrierInit cnt = .ok (s.mem, cnt - 1) ∧ ∀ t, s.loc t = ⟨.idle, 0⟩

/-- The threads that share one barrier for `cnt` threads. -/
def machine (cnt : BitVec 32) : Machine (Global T (Mem T) Local) (T × Choice T) :=
  (exec (cnt - 1)).machine (IsInit cnt)

end Hlpt.Barrier
