import Hlpt.Lib.Threads
import Hlpt.Tsd.Model

/-!
# `Hlpt.Keys.Model`: the threads that create and delete keys, from `specific.c`

Any number of threads call `pthread_key_create` and `pthread_key_delete` on the table
`__pthread_keys`, and each access to a slot of the table is one step of `exec`. A call of
`pthread_key_create` takes its key with the compare-and-swap, and a call of
`pthread_key_delete` gives the key back with the addition. Both return 0 then.

`log k` is a ghost: which of the two happened to the slot `k`, the latest first.
-/

set_option autoImplicit false

namespace Hlpt.Keys

open Hlpt.Lib Hlpt.Tsd

universe u

/-- The control points, each before one access. -/
inductive Pc where
  /-- In no call. The last one returned this code, and `pthread_key_create` this key. -/
  | idle (last : Option (Code × Option ℕ))
  /-- `seq = __pthread_keys[i].seq` -/
  | load (i : ℕ) (destr : BitVec 32)
  /-- `atomic_cas_bool (&__pthread_keys[i].seq, seq, seq + 1)` -/
  | cas (i : ℕ) (seq destr : BitVec 32)
  /-- `__pthread_keys[i].destr = destr` -/
  | store (i : ℕ) (destr : BitVec 32)
  /-- `unused_p (__pthread_keys[key].seq)` in `pthread_key_delete` -/
  | check (key : ℕ)
  /-- `atomic_add (&__pthread_keys[key].seq, 1)` -/
  | add (key : ℕ)
  deriving DecidableEq, Repr

/-- What happens to a slot. -/
inductive Event where
  /-- A call of `pthread_key_create` that returns the key took the slot. -/
  | create
  /-- A call of `pthread_key_delete` that returns 0 made its addition. -/
  | delete
  deriving DecidableEq, Repr

/-- The table, and what happened to each slot. -/
structure Mem where
  keys : ℕ → Key
  log : ℕ → List Event

/-- The calls that a thread may make. -/
inductive Call where
  | create (destr : BitVec 32)
  | delete (key : ℕ)
  deriving DecidableEq, Repr

namespace Mem

/-- The slot `k` gets another sequence number, by what happens to it. -/
def write (m : Mem) (k : ℕ) (seq : BitVec 32) (e : Event) : Mem where
  keys := Function.update m.keys k ⟨seq, (m.keys k).destr⟩
  log := Function.update m.log k (e :: m.log k)

/-- `__pthread_keys[i].destr = destr` -/
def setDestr (m : Mem) (i : ℕ) (destr : BitVec 32) : Mem :=
  { m with keys := Function.update m.keys i ⟨(m.keys i).seq, destr⟩ }

@[simp] theorem setDestr_log (m : Mem) (i : ℕ) (destr : BitVec 32) :
    (m.setDestr i destr).log = m.log := rfl

@[simp] theorem setDestr_seq (m : Mem) (i : ℕ) (destr : BitVec 32) (k : ℕ) :
    ((m.setDestr i destr).keys k).seq = (m.keys k).seq := by
  by_cases h : k = i
  · subst h
    simp [setDestr]
  · simp [setDestr, h]

end Mem

/-- The loop of `pthread_key_create` goes on to the slot `i`, or fails. -/
def next (i : ℕ) (destr : BitVec 32) : Pc :=
  if i < PTHREAD_KEYS_MAX then .load i destr else .idle (some (.eagain, none))

variable {T : Type u}

/-- The next access of a thread. -/
def exec : Exec T Call Mem Pc := fun _ call m pc =>
  match pc with
  | .idle _ =>
      match call with
      | .create destr => some (m, .load 0 destr)
      | .delete key =>
          some (m, if key ≥ PTHREAD_KEYS_MAX then .idle (some (.einval, none)) else .check key)
  | .load i destr =>
      let seq := (m.keys i).seq
      some (m, if unusedP seq then .cas i seq destr else next (i + 1) destr)
  | .cas i seq destr =>
      if (m.keys i).seq = seq then some (m.write i (seq + 1) .create, .store i destr)
      else some (m, next (i + 1) destr)
  | .store i destr => some (m.setDestr i destr, .idle (some (.ok, some i)))
  | .check key =>
      some (m, if unusedP (m.keys key).seq then .idle (some (.einval, none)) else .add key)
  | .add key =>
      some (m.write key ((m.keys key).seq + 1) .delete, .idle (some (.ok, none)))

/-- The table is zero-filled, and no thread is in a call. -/
def IsInit (s : Global T Mem Pc) : Prop :=
  (∀ k, s.mem.keys k = ⟨0, 0⟩ ∧ s.mem.log k = []) ∧ ∀ t, s.loc t = .idle none

/-- All threads on the table. -/
def machine [DecidableEq T] : Machine (Global T Mem Pc) (T × Call) :=
  exec.machine IsInit

/-! ### What one step does -/

/-- What one step does to the sequence numbers, with the control points that matter. -/
inductive Effect (m : Mem) : Pc → Mem → Pc → Prop
  /-- No slot is created or deleted. A value that the compare-and-swap expects was unused,
  and the addition comes behind a look at a key in use. -/
  | quiet {pc pc' : Pc} {m' : Mem} (hpc : ∀ key, pc ≠ .add key)
      (hseq : ∀ k, (m'.keys k).seq = (m.keys k).seq) (hlog : m'.log = m.log)
      (hcas : ∀ i seq destr, pc' = .cas i seq destr → unusedP seq)
      (hadd : ∀ key, pc' = .add key → unusedP (m.keys key).seq = false) : Effect m pc m' pc'
  | create (i : ℕ) (destr : BitVec 32) :
      Effect m (.cas i (m.keys i).seq destr) (m.write i ((m.keys i).seq + 1) .create)
        (.store i destr)
  | delete (key : ℕ) : Effect m (.add key) (m.write key ((m.keys key).seq + 1) .delete)
      (.idle (some (.ok, none)))

/-- The loop does not go on with a write. -/
theorem next_cases (i : ℕ) (destr : BitVec 32) :
    next i destr = .load i destr ∨ next i destr = .idle (some (.eagain, none)) := by
  unfold next
  split
  · exact .inl rfl
  · exact .inr rfl

/-- A step of the loop of `pthread_key_create` that goes on to the next slot. -/
theorem effect_next (m : Mem) {pc : Pc} (hpc : ∀ key, pc ≠ .add key) (i : ℕ)
    (destr : BitVec 32) : Effect m pc m (next i destr) := by
  refine .quiet hpc (fun _ => rfl) rfl ?_ ?_
  · intro j seq destr' hcas
    rcases next_cases i destr with h | h <;> simp [h] at hcas
  · intro key hadd
    rcases next_cases i destr with h | h <;> simp [h] at hadd

theorem effect_of_exec {t : T} {call : Call} {m m' : Mem} {pc pc' : Pc}
    (h : exec t call m pc = some (m', pc')) : Effect m pc m' pc' := by
  cases pc with
  | idle last =>
      cases call with
      | create destr =>
          cases h
          exact .quiet (by simp) (fun _ => rfl) rfl (by simp) (by simp)
      | delete key =>
          cases h
          exact .quiet (by simp) (fun _ => rfl) rfl (by split <;> simp) (by split <;> simp)
  | load i destr =>
      simp only [exec] at h
      cases h
      split
      · rename_i hunused
        refine .quiet (by simp) (fun _ => rfl) rfl (fun j seq d hcas => ?_) (by simp)
        obtain ⟨-, rfl, -⟩ := Pc.cas.inj hcas
        exact hunused
      · exact effect_next m (by simp) _ _
  | cas i seq destr =>
      simp only [exec] at h
      split at h
      · rename_i heq
        subst heq
        cases h
        exact .create i destr
      · cases h
        exact effect_next m (by simp) _ _
  | store i destr =>
      cases h
      exact .quiet (by simp) (fun k => by simp) (by simp) (by simp) (by simp)
  | check key =>
      simp only [exec] at h
      cases h
      split
      · exact .quiet (by simp) (fun _ => rfl) rfl (by simp) (by simp)
      · rename_i hused
        apply Effect.quiet (by simp) (fun _ => rfl) rfl (by simp)
        intro k hadd
        obtain rfl := Pc.add.inj hadd
        simpa using hused
  | add key =>
      cases h
      exact .delete key

end Hlpt.Keys
