import Hlpt.Deadline
import Hlpt.NamedSem.Model

/-!
# `Hlpt.NamedSem.Contents`: what `sem_open` writes into a new file

`sem_open` has two branches and jumps between them. The branch that creates a semaphore
starts with the declaration of `tmp`, whose initialiser sets `hi` to zero and the flags to
`GSYNC_SHARED`. That initialiser runs only when the branch is entered from the top, which
takes `O_CREAT` and `O_EXCL`. The jump to `try_create` goes past it: `tmp` then has the bytes
that the stack had, but for `lo`, which is assigned after the label.

The directory belongs to all the processes. A file may appear or vanish between two
operations on it, so each operation has the outcome that the pass says.

* `writeFull_ok_iff`: a write that succeeds has written all of its bytes, in any pieces.
* `created_iff`: when the file that is linked has the right contents.
* `created_garbage`: a plain `O_CREAT` that links what the stack held.
-/

set_option autoImplicit false

namespace Hlpt.NamedSem.Contents

abbrev Byte := BitVec 8

/-- `sem_t`: the two halves of `__val_nw`, and `__flags`. -/
structure Sem where
  lo : BitVec 32
  hi : BitVec 32
  flags : BitVec 32
  deriving DecidableEq, Repr

/-- A word in memory, the low byte first. -/
def wordBytes (w : BitVec 32) : List Byte :=
  [w.extractLsb' 0 8, w.extractLsb' 8 8, w.extractLsb' 16 8, w.extractLsb' 24 8]

/-- A semaphore in memory. -/
def Sem.bytes (s : Sem) : List Byte := wordBytes s.lo ++ (wordBytes s.hi ++ wordBytes s.flags)

/-- What the Hurd does in one pass of `sem_open`, and the bytes of the stack where `tmp` is
when the pass jumps to `try_create`. A call that fails leaves its code in `errno`. `write`
has how many bytes each `io_write` takes, or that it fails. -/
structure Pass where
  lookup : Except Errno Unit
  stack : Sem
  anon : Bool
  write : List (Option ℕ)
  map : Bool
  link : Except Errno Unit

/-- How `sem_open` ends, up to `add_mapping`: with an error, with the file that was there,
or with a new file of these contents. -/
inductive Result where
  | error (e : Errno)
  | opened
  | created (contents : List Byte)
  deriving DecidableEq, Repr

/-! ### The functions -/

/-- `write_full`: the file `f` with the bytes at its end. There are as many results as it
calls `io_write`, and `io_write` never takes more bytes than it gets. -/
def writeFull : List (Option ℕ) → List Byte → List Byte → Option (Except Errno (List Byte))
  | [], _, _ => none
  | none :: _, _, _ => some (.error .other)
  | some num :: rs, datap, f =>
      if datap.length - num = 0 then some (.ok (f ++ datap.take num))
      else writeFull rs (datap.drop num) (f ++ datap.take num)

/-- `sem_open` from `try_create` on, with the `tmp` that is there. With `retry` it goes back
to `try_open`. -/
def tryCreate (oflag : Oflag) (value : BitVec 32) (p : Pass) (retry : Option Result)
    (tmp : Sem) : Option Result :=
  let tmp := { tmp with lo := value }
  if SEM_VALUE_MAX < tmp.lo then some (.error .einval)
  else if p.anon then
    match writeFull p.write tmp.bytes [] with
    | none => none
    | some (.error e) => some (.error e)
    | some (.ok contents) =>
        if p.map then
          match p.link with
          | .ok () => some (.created contents)
          | .error e => if oflag.excl = false ∧ e = .eexist then retry else some (.error e)
        else some (.error .other)
  else some (.error .other)

/-- `sem_open` from `try_open` on. -/
def tryOpen (oflag : Oflag) (value : BitVec 32) : List Pass → Option Result
  | [] => none
  | p :: ps =>
      match p.lookup with
      | .ok () => some .opened
      | .error e =>
          if oflag.creat = true ∧ e = .enoent then
            tryCreate oflag value p (tryOpen oflag value ps) p.stack
          else some (.error e)

/-- `sem_open` -/
def semOpen (name : Name) (oflag : Oflag) (value : BitVec 32) (ps : List Pass) :
    Option Result :=
  if validateName name then
    if oflag.creat = true ∧ oflag.excl = true then
      match ps with
      | [] => none
      | p :: ps => tryCreate oflag value p (tryOpen oflag value ps) ⟨0, 0, GSYNC_SHARED⟩
    else tryOpen oflag value ps
  else some (.error .einval)

/-! ### What it should write -/

/-- A file that was created has the semaphore that `sem_init` makes of a shared one. -/
def Initialised (value : BitVec 32) (r : Result) : Prop :=
  ∀ contents, r = .created contents → contents = Sem.bytes ⟨value, 0, GSYNC_SHARED⟩

/-- The calls of `io_write` take `size` bytes, and none of them fails before. -/
def Written : ℕ → List (Option ℕ) → Prop
  | _, [] => False
  | _, none :: _ => False
  | size, some num :: rs => size ≤ num ∨ Written (size - num) rs

/-- The pass finds no file, and creates one up to its link. -/
def Pass.Creates (p : Pass) : Prop :=
  p.lookup = .error .enoent ∧ p.anon = true ∧ Written 12 p.write ∧ p.map = true

/-- In the pass that links a file, if there is one, the stack has the missing part of `tmp`
by chance. Before it come the passes whose link found that there is a file now. -/
def LuckyStack : List Pass → Prop
  | [] => True
  | p :: ps =>
      p.Creates →
        (p.link = .ok () → p.stack.hi = 0 ∧ p.stack.flags = GSYNC_SHARED) ∧
          (p.link = .error .eexist → LuckyStack ps)

variable {name : Name} {oflag : Oflag} {value : BitVec 32}

/-! ### The bytes -/

theorem wordBytes_inj {v w : BitVec 32} (h : wordBytes v = wordBytes w) : v = w := by
  simp only [wordBytes, List.cons.injEq, and_true] at h
  obtain ⟨h0, h1, h2, h3⟩ := h
  have hb : ∀ (x : BitVec 32) (k : ℕ), (x.extractLsb' k 8).toNat = x.toNat / 2 ^ k % 2 ^ 8 := by
    intro x k
    rw [BitVec.extractLsb'_toNat, Nat.shiftRight_eq_div_pow]
  have e0 := congrArg BitVec.toNat h0
  have e1 := congrArg BitVec.toNat h1
  have e2 := congrArg BitVec.toNat h2
  have e3 := congrArg BitVec.toNat h3
  rw [hb, hb] at e0 e1 e2 e3
  apply BitVec.eq_of_toNat_eq
  have := v.isLt
  have := w.isLt
  omega

/-- Two semaphores in memory are the same if their bytes are. -/
theorem Sem.bytes_inj {s t : Sem} (h : s.bytes = t.bytes) : s = t := by
  obtain ⟨hlo, hrest⟩ := List.append_inj h rfl
  obtain ⟨hhi, hflags⟩ := List.append_inj hrest rfl
  cases s
  cases t
  rw [Sem.mk.injEq]
  exact ⟨wordBytes_inj hlo, wordBytes_inj hhi, wordBytes_inj hflags⟩

/-- `write_full` succeeds when the calls take all the bytes, and has then written them. -/
theorem writeFull_ok_iff {rs : List (Option ℕ)} {datap f c : List Byte} :
    writeFull rs datap f = some (.ok c) ↔ Written datap.length rs ∧ c = f ++ datap := by
  induction rs generalizing datap f with
  | nil => simp [writeFull, Written]
  | cons r rs ih =>
    cases r with
    | none => simp [writeFull, Written]
    | some num =>
      rw [writeFull, Written]
      by_cases h : datap.length - num = 0
      · -- The last piece has everything that is left.
        have hle : datap.length ≤ num := by omega
        rw [if_pos h, List.take_of_length_le hle]
        simp [hle, eq_comm]
      · have hle : ¬ datap.length ≤ num := by omega
        rw [if_neg h, ih, List.length_drop, List.append_assoc, List.take_append_drop]
        simp [hle]

/-! ### The passes -/

/-- From `try_create` on, a file is created by this pass, with the `tmp` that was there, or
by a later one. -/
theorem tryCreate_created_iff (hvalue : value ≤ SEM_VALUE_MAX) {p : Pass}
    {retry : Option Result} {tmp : Sem} {c : List Byte} :
    tryCreate oflag value p retry tmp = some (.created c) ↔
      p.anon = true ∧ Written 12 p.write ∧ p.map = true ∧
        ((p.link = .ok () ∧ c = Sem.bytes { tmp with lo := value }) ∨
          (p.link = .error .eexist ∧ oflag.excl = false ∧ retry = some (.created c))) := by
  have hmax : ¬ SEM_VALUE_MAX < value := BitVec.not_lt.mpr hvalue
  rw [tryCreate]
  simp only [hmax, if_false]
  by_cases hanon : p.anon = true
  · rw [if_pos hanon]
    have hw : ∀ c, writeFull p.write (Sem.bytes { tmp with lo := value }) [] = some (.ok c) ↔
        Written 12 p.write ∧ c = Sem.bytes { tmp with lo := value } :=
      fun c => writeFull_ok_iff
    split
    · next hnone => simp [hnone] at hw; simp [hw]
    · next hno => simp [hno] at hw; simp [hw]
    · next hok =>
      obtain ⟨hwritten, rfl⟩ := (hw _).mp hok
      have hc : Result.created (Sem.bytes { tmp with lo := value }) = .created c ↔
          c = Sem.bytes { tmp with lo := value } := by
        rw [Result.created.injEq]
        exact eq_comm
      cases hmap : p.map with
      | false => simp
      | true =>
        cases hlink : p.link with
        | ok u => simp [hanon, hwritten, hc]
        | error e =>
          simp only [if_true, hanon, hwritten, true_and, reduceCtorEq, false_and, false_or,
            Except.error.injEq]
          split
          · next h => simp [h.1, h.2]
          · next h => simp; intro he hx; exact absurd ⟨hx, he⟩ h
  · rw [if_neg hanon]
    simp [hanon]

/-- From `try_open` on, whatever is created is what the stack had when its pass started. -/
theorem tryOpen_initialised_iff (hcreat : oflag.creat = true) (hexcl : oflag.excl = false)
    (hvalue : value ≤ SEM_VALUE_MAX) (ps : List Pass) :
    (∀ c, tryOpen oflag value ps = some (.created c) →
      c = Sem.bytes ⟨value, 0, GSYNC_SHARED⟩) ↔ LuckyStack ps := by
  induction ps with
  | nil => simp [tryOpen, LuckyStack]
  | cons p ps ih =>
    have hpass : ∀ c, tryOpen oflag value (p :: ps) = some (.created c) ↔
        p.Creates ∧ ((p.link = .ok () ∧ c = Sem.bytes { p.stack with lo := value }) ∨
          (p.link = .error .eexist ∧ tryOpen oflag value ps = some (.created c))) := by
      intro c
      rw [tryOpen, Pass.Creates]
      cases hlookup : p.lookup with
      | ok u => simp
      | error e =>
        by_cases he : e = .enoent
        · simp only [hcreat, he, and_self, if_true, tryCreate_created_iff hvalue, hexcl, true_and,
            and_assoc]
        · simp [he]
    have hbytes : Sem.bytes { p.stack with lo := value } = Sem.bytes ⟨value, 0, GSYNC_SHARED⟩ ↔
        p.stack.hi = 0 ∧ p.stack.flags = GSYNC_SHARED := by
      constructor
      · intro h
        simpa using Sem.bytes_inj h
      · rintro ⟨hhi, hflags⟩
        simp only [hhi, hflags]
    rw [LuckyStack, ← ih, ← hbytes]
    constructor
    · intro h hcreates
      exact ⟨fun hlink => h _ ((hpass _).mpr ⟨hcreates, .inl ⟨hlink, rfl⟩⟩),
        fun hlink c hc => h c ((hpass c).mpr ⟨hcreates, .inr ⟨hlink, hc⟩⟩)⟩
    · intro h c hc
      obtain ⟨hcreates, ⟨hlink, rfl⟩ | ⟨hlink, hlater⟩⟩ := (hpass c).mp hc
      · exact (h hcreates).1 hlink
      · exact (h hcreates).2 hlink c hlater

/-! ### The contents of a new semaphore -/

/-- For every name, every flags with `O_CREAT`, every valid count and every sequence of
outcomes: a file that is created has the right contents exactly when the name was invalid,
so that there is none, or `O_EXCL` is set, or the stack had the right words by chance. -/
theorem created_iff (hcreat : oflag.creat = true) (hvalue : value ≤ SEM_VALUE_MAX)
    (ps : List Pass) :
    (∀ r, semOpen name oflag value ps = some r → Initialised value r) ↔
      validateName name = false ∨ oflag.excl = true ∨ LuckyStack ps := by
  have hform : (∀ r, semOpen name oflag value ps = some r → Initialised value r) ↔
      ∀ c, semOpen name oflag value ps = some (.created c) →
        c = Sem.bytes ⟨value, 0, GSYNC_SHARED⟩ := by
    constructor
    · exact fun h c hc => h _ hc c rfl
    · exact fun h r hr c hc => h c (hc ▸ hr)
  rw [hform]
  unfold semOpen
  by_cases hname : validateName name = true
  · by_cases hexcl : oflag.excl = true
    · -- The branch is entered from the top, and never again.
      simp only [hname, hcreat, hexcl, if_true, and_self, true_or, or_true, iff_true]
      cases ps with
      | nil => simp
      | cons p ps =>
        intro c hc
        obtain ⟨-, -, -, ⟨-, rfl⟩ | ⟨-, hx, -⟩⟩ := (tryCreate_created_iff hvalue).mp hc
        · rfl
        · simp [hexcl] at hx
    · rw [Bool.not_eq_true] at hexcl
      simp only [hname, hcreat, hexcl, if_true, Bool.false_eq_true, and_false, if_false,
        false_or, Bool.true_eq_false]
      exact tryOpen_initialised_iff hcreat hexcl hvalue ps
  · simp [hname]

/-- A pass that finds no file and creates one, writing it in two pieces. -/
def creating (stack : Sem) : Pass := ⟨.error .enoent, stack, true, [some 8, some 4], true, .ok ()⟩

/-- With `O_EXCL` the stack does not matter. -/
theorem created_iff_excl :
    semOpen ['/', 'a'] ⟨true, true⟩ 3 [creating ⟨5, 6, 7⟩] =
        some (.created (Sem.bytes ⟨3, 0, GSYNC_SHARED⟩)) ∧
      ∀ r, semOpen ['/', 'a'] ⟨true, true⟩ 3 [creating ⟨5, 6, 7⟩] = some r →
        Initialised 3 r := by
  have hcreat : (Oflag.mk true true).creat = true := rfl
  constructor
  · decide
  · exact (created_iff hcreat (by decide) _).mpr (.inr (.inl rfl))

/-- Without it, the waiters and the flags are what the stack had. -/
theorem created_garbage :
    semOpen ['/', 'a'] ⟨true, false⟩ 3 [creating ⟨5, 6, 7⟩] =
        some (.created (Sem.bytes ⟨3, 6, 7⟩)) ∧
      ¬ ∀ r, semOpen ['/', 'a'] ⟨true, false⟩ 3 [creating ⟨5, 6, 7⟩] = some r →
        Initialised 3 r := by
  have hrun : semOpen ['/', 'a'] ⟨true, false⟩ 3 [creating ⟨5, 6, 7⟩] =
      some (.created (Sem.bytes ⟨3, 6, 7⟩)) := by decide
  exact ⟨hrun, fun h => absurd (h _ hrun _ rfl) (by decide)⟩

end Hlpt.NamedSem.Contents
