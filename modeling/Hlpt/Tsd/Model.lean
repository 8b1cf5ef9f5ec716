import Hlpt.Base
import Mathlib.Data.List.FinRange
import Mathlib.Logic.Function.Basic

/-!
# `Hlpt.Tsd.Model`: the thread-specific data of `specific.c`

A key is an index into the global table `__pthread_keys`. The value of a thread for a
key lies in a table of two levels: `specific` points to blocks, and all but the first
of them are allocated by the first `pthread_setspecific` that needs them. A value
carries the sequence number that its key had when it was stored.

`dealloc` is `__pthread_dealloc_tsd`, which calls the destructors when a thread exits.
What a destructor does is up to the program, so it is an argument: a `Behaviour` says
which operations a call makes, with everything that happened before in view.

`keys` is a function on all indices. The entries from `PTHREAD_KEYS_MAX` on are no
entries of the table but what lies behind it in memory. No operation writes them.
-/

set_option autoImplicit false

namespace Hlpt.Tsd

/-- `PTHREAD_DESTRUCTION_ITERATIONS` -/
def PTHREAD_DESTRUCTION_ITERATIONS : ℕ := 4

/-- `PTHREAD_KEYS_MAX` -/
def PTHREAD_KEYS_MAX : ℕ := 512

/-- `PTHREAD_KEY_L2_SIZE`, the entries of a block. -/
def PTHREAD_KEY_L2_SIZE : ℕ := 16

/-- `PTHREAD_KEY_L1_SIZE`, the number of blocks. -/
def PTHREAD_KEY_L1_SIZE : ℕ :=
  (PTHREAD_KEYS_MAX + PTHREAD_KEY_L2_SIZE - 1) / PTHREAD_KEY_L2_SIZE

/-- An entry of `__pthread_keys`: its sequence number and its destructor. The null
pointer is 0. -/
structure Key where
  seq : BitVec 32
  destr : BitVec 32
  deriving DecidableEq, Repr

/-- An entry of a block: a value, and the sequence number of its key when it was
stored. -/
structure KeyData where
  seq : BitVec 32
  data : BitVec 32
  deriving DecidableEq, Repr

/-- `struct pthread_key_data [PTHREAD_KEY_L2_SIZE]` -/
abbrev Block := Fin PTHREAD_KEY_L2_SIZE → KeyData

/-- The zeroed block that `calloc` returns. -/
def Block.zero : Block := fun _ => ⟨0, 0⟩

/-- The fields of `struct pthread` for thread-specific data. -/
structure Thread where
  specific : Fin PTHREAD_KEY_L1_SIZE → Option Block
  specificUsed : Bool

/-- The table of the keys, and a thread. -/
structure State where
  keys : ℕ → Key
  thread : Thread

namespace Thread

/-- A thread that was just created: `specific[0]` is the block in the descriptor. -/
def init : Thread where
  specific cnt := if cnt.val = 0 then some Block.zero else none
  specificUsed := false

/-- The entry `inner` of the block `cnt`, which reads as zero when there is no block. -/
def entry (self : Thread) (cnt : Fin PTHREAD_KEY_L1_SIZE) (inner : Fin PTHREAD_KEY_L2_SIZE) :
    KeyData :=
  match self.specific cnt with
  | some blk => blk inner
  | none => ⟨0, 0⟩

/-- Store an entry of an allocated block. -/
def store (self : Thread) (cnt : Fin PTHREAD_KEY_L1_SIZE) (inner : Fin PTHREAD_KEY_L2_SIZE)
    (d : KeyData) : Thread :=
  { self with
    specific := Function.update self.specific cnt
      ((self.specific cnt).map fun blk => Function.update blk inner d) }

/-- Store an entry for `pthread_setspecific`: a value that is not NULL needs
destruction. -/
def put (self : Thread) (cnt : Fin PTHREAD_KEY_L1_SIZE) (inner : Fin PTHREAD_KEY_L2_SIZE)
    (d : KeyData) : Thread :=
  { self.store cnt inner d with specificUsed := self.specificUsed || d.data != 0 }

/-- Let `specific[cnt]` point to a new block. -/
def alloc (self : Thread) (cnt : Fin PTHREAD_KEY_L1_SIZE) : Thread :=
  { self with specific := Function.update self.specific cnt (some Block.zero) }

end Thread

/-! ### The operations -/

/-- `unused_p` -/
def unusedP (seq : BitVec 32) : Bool := seq % 2 == 0

/-- `key / PTHREAD_KEY_L2_SIZE` -/
def blockOf (key : ℕ) (h : key < PTHREAD_KEYS_MAX) : Fin PTHREAD_KEY_L1_SIZE :=
  ⟨key / PTHREAD_KEY_L2_SIZE, by
    simp only [PTHREAD_KEYS_MAX, PTHREAD_KEY_L1_SIZE, PTHREAD_KEY_L2_SIZE] at h ⊢
    omega⟩

/-- `key % PTHREAD_KEY_L2_SIZE` -/
def indexOf (key : ℕ) : Fin PTHREAD_KEY_L2_SIZE :=
  ⟨key % PTHREAD_KEY_L2_SIZE, Nat.mod_lt _ (by decide)⟩

/-- `pthread_key_create`: the code, the key and the new table. -/
def keyCreate (destr : BitVec 32) (keys : ℕ → Key) : Code × Option ℕ × (ℕ → Key) :=
  match (List.range PTHREAD_KEYS_MAX).find? fun i => unusedP (keys i).seq with
  | some i => (.ok, some i, Function.update keys i ⟨(keys i).seq + 1, destr⟩)
  | none => (.eagain, none, keys)

/-- `pthread_key_delete` -/
def keyDelete (key : ℕ) (keys : ℕ → Key) : Code × (ℕ → Key) :=
  if key ≥ PTHREAD_KEYS_MAX ∨ unusedP (keys key).seq then (.einval, keys)
  else (.ok, Function.update keys key ⟨(keys key).seq + 1, (keys key).destr⟩)

/-- `pthread_getspecific`: the value, and the thread. A value that is stale is
cleared. -/
def getspecific (key : ℕ) (keys : ℕ → Key) (self : Thread) : BitVec 32 × Thread :=
  if h : key < PTHREAD_KEYS_MAX then
    let lp := self.entry (blockOf key h) (indexOf key)
    if lp.data ≠ 0 ∧ lp.seq ≠ (keys key).seq then
      (0, self.store (blockOf key h) (indexOf key) ⟨lp.seq, 0⟩)
    else (lp.data, self)
  else (0, self)

/-- `pthread_setspecific`, where `mem` says whether `calloc` succeeds. -/
def setspecific (key : ℕ) (valp : BitVec 32) (mem : Bool) (keys : ℕ → Key)
    (self : Thread) : Code × Thread :=
  if h : key < PTHREAD_KEYS_MAX then
    let cnt := blockOf key h
    let d : KeyData := ⟨(keys key).seq, valp⟩
    if unusedP (keys key).seq then (.einval, self)
    else if (self.specific cnt).isSome then (.ok, self.put cnt (indexOf key) d)
    else if valp = 0 then (.ok, self)
    else if mem then (.ok, (self.alloc cnt).put cnt (indexOf key) d)
    else (.enomem, self)
  else (.einval, self)

/-- An operation on the keys or on the data of the thread. Operations on the keys may
also come from other threads. -/
inductive Op where
  | keyCreate (destr : BitVec 32)
  | keyDelete (key : ℕ)
  | setspecific (key : ℕ) (valp : BitVec 32) (mem : Bool)
  | getspecific (key : ℕ)
  deriving DecidableEq, Repr

/-- The state after an operation. -/
def Op.run (s : State) : Op → State
  | keyCreate destr => { s with keys := (Tsd.keyCreate destr s.keys).2.2 }
  | keyDelete key => { s with keys := (Tsd.keyDelete key s.keys).2 }
  | setspecific key valp mem =>
      { s with thread := (Tsd.setspecific key valp mem s.keys s.thread).2 }
  | getspecific key => { s with thread := (Tsd.getspecific key s.keys s.thread).2 }

/-- The state after a list of operations. -/
def run (ops : List Op) (s : State) : State := ops.foldl Op.run s

/-! ### The destruction -/

/-- What one turn of the inner loop did with a value that is not NULL. `holes` is a
ghost: the missing blocks that this pass has come across before. -/
structure Visit where
  cnt : Fin PTHREAD_KEY_L1_SIZE
  inner : Fin PTHREAD_KEY_L2_SIZE
  /-- The value, as it was before it was cleared. -/
  value : KeyData
  /-- The table when the value was tested, and the index `q` of the entry. -/
  keys : ℕ → Key
  q : ℕ
  /-- What is in the slot when the value is tested. -/
  slot : BitVec 32
  /-- The destructor that was called, and its argument. -/
  call : Option (BitVec 32 × BitVec 32)
  holes : ℕ

/-- What a call of a destructor does: the operations it makes, for each destructor and
argument, the visits before and the state at the call. -/
abbrev Behaviour := BitVec 32 → BitVec 32 → List Visit → State → List Op

/-- The loops of `__pthread_dealloc_tsd` at some point: the state, the index `q`, and
the ghosts. `passes` counts the passes that were started. -/
structure Walk where
  st : State
  q : ℕ
  holes : ℕ
  visits : List Visit
  passes : ℕ

namespace Walk

variable (w : Walk) (cnt : Fin PTHREAD_KEY_L1_SIZE) (inner : Fin PTHREAD_KEY_L2_SIZE)

/-- The entry of the turn. -/
def entry : KeyData := w.st.thread.entry cnt inner

/-- `l2[inner].data = NULL` -/
def clear : State :=
  { w.st with thread := w.st.thread.store cnt inner { w.entry cnt inner with data := 0 } }

/-- The test of a value that is not NULL, after its slot was cleared. -/
def record : Visit where
  cnt := cnt
  inner := inner
  value := w.entry cnt inner
  keys := (w.clear cnt inner).keys
  q := w.q
  slot := ((w.clear cnt inner).thread.entry cnt inner).data
  call :=
    let key : Key := (w.clear cnt inner).keys w.q
    if (w.entry cnt inner).seq = key.seq ∧ key.destr ≠ 0 then
      some (key.destr, (w.entry cnt inner).data)
    else none
  holes := w.holes

end Walk

/-- One turn of the inner loop. -/
def visit (B : Behaviour) (cnt : Fin PTHREAD_KEY_L1_SIZE) (w : Walk)
    (inner : Fin PTHREAD_KEY_L2_SIZE) : Walk :=
  if (w.entry cnt inner).data = 0 then { w with q := w.q + 1 }
  else
    let st := w.clear cnt inner
    let v := w.record cnt inner
    { w with
      st := match v.call with
        | some (destr, dp) => run (B destr dp w.visits st) st
        | none => st
      q := w.q + 1
      visits := w.visits ++ [v] }

/-- One turn of the outer loop. A missing block advances `q` by the number of
blocks. -/
def visitBlock (B : Behaviour) (w : Walk) (cnt : Fin PTHREAD_KEY_L1_SIZE) : Walk :=
  if (w.st.thread.specific cnt).isSome then
    (List.finRange PTHREAD_KEY_L2_SIZE).foldl (visit B cnt) w
  else { w with q := w.q + PTHREAD_KEY_L1_SIZE, holes := w.holes + 1 }

/-- One pass over all values. -/
def pass (B : Behaviour) (w : Walk) : Walk :=
  (List.finRange PTHREAD_KEY_L1_SIZE).foldl (visitBlock B)
    { w with
      st := { w.st with thread := { w.st.thread with specificUsed := false } }
      q := 0
      holes := 0
      passes := w.passes + 1 }

/-- The `do` loop, when at most `n` passes are left. -/
def passes (B : Behaviour) : ℕ → Walk → Walk
  | 0, w => w
  | n + 1, w =>
      let w' := pass B w
      if w'.st.thread.specificUsed then passes B n w' else w'

/-- The loops of `__pthread_dealloc_tsd`, from its first test to the end of the `do`
loop. -/
def walk (B : Behaviour) (s : State) : Walk :=
  let w : Walk := ⟨s, 0, 0, [], 0⟩
  if s.thread.specificUsed then passes B PTHREAD_DESTRUCTION_ITERATIONS w else w

/-- `__pthread_dealloc_tsd`: the loops, then the blocks are freed. -/
def dealloc (B : Behaviour) (s : State) : State :=
  if s.thread.specificUsed then { (walk B s).st with thread := Thread.init } else s

end Hlpt.Tsd
