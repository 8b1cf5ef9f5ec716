import Hlpt.Lib.Counter
import Hlpt.Lib.Machine
import Hlpt.Tsd.Destroy

/-!
# `Hlpt.Tsd.Map`: thread-specific data is a map from keys and threads to values

Any number of threads call the four operations, each call as a whole. What the calls
should return is read off the history of the calls before (`liveKeys`, `lookup`): which
keys live, and what a thread set last in the current lifetime of a key.

The code knows neither. A lifetime is a sequence number of the slot in the global table,
and a value of an earlier lifetime stays in the block of its thread until somebody looks
at it. The invariant `Inv` says that the number of a stored value is one that the slot
had at some time (`stored`), and that the slot goes on counting (`seq`), so a value of an
earlier lifetime never has the number of the current one.

The numbers have 32 bits, so this holds while no slot has gone through `2 ^ 31` lifetimes
(`Few`).
-/

set_option autoImplicit false

namespace Hlpt.Tsd

open Hlpt.Lib

universe u

/-! ### The calls of many threads -/

/-- What a call returns: the new key, a code, or a value. -/
inductive Result where
  | created (key : ℕ)
  | code (r : Code)
  | value (v : BitVec 32)
  deriving DecidableEq, Repr

/-- What `pthread_key_create` returns: the key that it stored, or its code. -/
def Result.ofCreate (r : Code) : Option ℕ → Result
  | some key => .created key
  | none => .code r

/-- A call that has returned. -/
structure Event (T : Type u) where
  thread : T
  op : Op
  result : Result
  deriving DecidableEq

/-- The table of the keys, the data of every thread, and the calls so far, the last one
first. -/
structure Config (T : Type u) where
  keys : ℕ → Key
  thread : T → Thread
  history : List (Event T)

variable {T : Type u} [DecidableEq T]

/-- One call of the thread `t`: what it returns, and what becomes of the table and of
the data of the thread. -/
def call (keys : ℕ → Key) (self : Thread) : Op → Result × (ℕ → Key) × Thread
  | .keyCreate destr =>
      (.ofCreate (keyCreate destr keys).1 (keyCreate destr keys).2.1,
        (keyCreate destr keys).2.2, self)
  | .keyDelete key => (.code (keyDelete key keys).1, (keyDelete key keys).2, self)
  | .setspecific key valp mem =>
      (.code (setspecific key valp mem keys self).1, keys, (setspecific key valp mem keys self).2)
  | .getspecific key => (.value (getspecific key keys self).1, keys, (getspecific key keys self).2)

/-- The state after a call of the thread `t`. -/
def Config.next (c : Config T) (t : T) (op : Op) : Config T :=
  let r := call c.keys (c.thread t) op
  { keys := r.2.1
    thread := Function.update c.thread t r.2.2
    history := ⟨t, op, r.1⟩ :: c.history }

/-- What a call of the thread `t` returns. -/
def Config.result (c : Config T) (t : T) (op : Op) : Result :=
  (call c.keys (c.thread t) op).1

/-- The threads of a process with its keys. The table starts zeroed. -/
def keyMachine : Machine (Config T) (T × Op) where
  init c := (∀ i < PTHREAD_KEYS_MAX, (c.keys i).seq = 0) ∧ (∀ t, c.thread t = Thread.init) ∧
    c.history = []
  step c a := some (c.next a.1 a.2)

/-! ### What the history says -/

/-- What a call did to the map. -/
inductive Change (T : Type u) where
  | create (key : ℕ)
  | delete (key : ℕ)
  | set (t : T) (key : ℕ) (v : BitVec 32)
  | none

/-- The change that a call made: it has to be successful. -/
def Event.change (e : Event T) : Change T :=
  match e.op, e.result with
  | .keyCreate _, .created key => .create key
  | .keyDelete key, .code .ok => .delete key
  | .setspecific key v _, .code .ok => .set e.thread key v
  | _, _ => .none

/-- The keys that were created and not deleted since. -/
def liveKeys : List (Event T) → List ℕ
  | [] => []
  | e :: h =>
      match e.change with
      | .create key => key :: liveKeys h
      | .delete key => (liveKeys h).erase key
      | _ => liveKeys h

/-- What the thread `t` set last for `key` in the current lifetime of the key, or NULL. -/
def lookup (t : T) (key : ℕ) : List (Event T) → BitVec 32
  | [] => 0
  | e :: h =>
      match e.change with
      | .create k => if k = key then 0 else lookup t key h
      | .delete k => if k = key then 0 else lookup t key h
      | .set u k v => if u = t ∧ k = key then v else lookup t key h
      | .none => lookup t key h

/-- How often `key` was created. -/
def births (key : ℕ) : List (Event T) → ℕ
  | [] => 0
  | e :: h =>
      match e.change with
      | .create k => if k = key then births key h + 1 else births key h
      | _ => births key h

/-- How often `key` was deleted. -/
def deaths (key : ℕ) : List (Event T) → ℕ
  | [] => 0
  | e :: h =>
      match e.change with
      | .delete k => if k = key then deaths key h + 1 else deaths key h
      | _ => deaths key h

/-- No slot has gone through `2 ^ 31` lifetimes. -/
def Few (c : Config T) : Prop := ∀ key < PTHREAD_KEYS_MAX, births key c.history < 2 ^ 31

instance (c : Config T) : Decidable (Few c) := Nat.decidableBallLT _ _

/-! ### The cell of a key -/

/-- The entry of `key` in the two levels of the table. -/
def Thread.cell (t : Thread) (key : ℕ) : KeyData :=
  if h : key < PTHREAD_KEYS_MAX then t.entry (blockOf key h) (indexOf key) else ⟨0, 0⟩

/-- What `pthread_getspecific` makes of a cell: a value of another lifetime is NULL. -/
def reading (d : KeyData) (seq : BitVec 32) : BitVec 32 :=
  if d.data ≠ 0 ∧ d.seq ≠ seq then 0 else d.data

variable {keys keys' : ℕ → Key} {self self' : Thread} {key k : ℕ} {d : KeyData} {op : Op}
  {t u : T}

/-- `pthread_getspecific` reads the cell of its key. -/
theorem getspecific_fst :
    (getspecific key keys self).1 = reading (self.cell key) (keys key).seq := by
  unfold getspecific Thread.cell reading
  by_cases hkey : key < PTHREAD_KEYS_MAX
  · simp only [hkey, ↓reduceDIte]
    split <;> rfl
  · simp [hkey]

/-- The cells of different keys are different. -/
theorem cell_index_inj (hk : k < PTHREAD_KEYS_MAX) (hkey : key < PTHREAD_KEYS_MAX) :
    blockOf k hk = blockOf key hkey ∧ indexOf k = indexOf key ↔ k = key := by
  constructor
  · rintro ⟨hblock, hindex⟩
    have hdiv : k / PTHREAD_KEY_L2_SIZE = key / PTHREAD_KEY_L2_SIZE := congrArg Fin.val hblock
    have hmod : k % PTHREAD_KEY_L2_SIZE = key % PTHREAD_KEY_L2_SIZE := congrArg Fin.val hindex
    rw [← Nat.div_add_mod k PTHREAD_KEY_L2_SIZE, hdiv, hmod, Nat.div_add_mod]
  · rintro rfl
    exact ⟨rfl, rfl⟩

/-- A store changes the cell of its key. -/
theorem cell_store (hkey : key < PTHREAD_KEYS_MAX)
    (hsome : (self.specific (blockOf key hkey)).isSome) :
    (self.store (blockOf key hkey) (indexOf key) d).cell k =
      if k = key then d else self.cell k := by
  by_cases hk : k < PTHREAD_KEYS_MAX
  · simp only [Thread.cell, hk, ↓reduceDIte]
    rw [Thread.entry_store hsome]
    simp only [cell_index_inj hk hkey]
  · have hne : k ≠ key := fun h => hk (h ▸ hkey)
    simp [Thread.cell, hk, hne]

/-- `pthread_getspecific` clears a stale cell and changes no other. -/
theorem cell_getspecific (key : ℕ) (keys : ℕ → Key) (self : Thread) (k : ℕ) :
    (getspecific key keys self).2.cell k = self.cell k ∨
    (((getspecific key keys self).2.cell k).data = 0 ∧ k = key ∧
      reading (self.cell k) (keys k).seq = 0) := by
  unfold getspecific
  split
  · rename_i hkey
    simp only
    split
    · rename_i hstale
      have hsome := Thread.isSome_of_entry hstale.1
      rw [cell_store hkey hsome]
      split
      · rename_i hk
        subst hk
        refine .inr ⟨rfl, rfl, ?_⟩
        simp only [reading, Thread.cell, hkey, ↓reduceDIte]
        exact if_pos hstale
      · exact .inl rfl
    · exact .inl rfl
  · exact .inl rfl

/-- A put changes the cell of its key. -/
theorem cell_put (hkey : key < PTHREAD_KEYS_MAX)
    (hsome : (self.specific (blockOf key hkey)).isSome) :
    (self.put (blockOf key hkey) (indexOf key) d).cell k =
      if k = key then d else self.cell k :=
  cell_store hkey hsome

/-- A new block changes no cell. -/
theorem cell_alloc {cnt : Fin PTHREAD_KEY_L1_SIZE} (h : self.specific cnt = none) :
    (self.alloc cnt).cell k = self.cell k := by
  simp only [Thread.cell, Thread.entry_alloc h]

/-- What `pthread_setspecific` returns and does. It succeeds for a key in use; then the
cell of the key gets the value and the number of the key, or stays without a block when
the value is NULL. It fails for other keys and for want of memory, and changes nothing. -/
inductive SetEffect (keys : ℕ → Key) (self : Thread) (key : ℕ) (valp : BitVec 32) (mem : Bool) :
    Code × Thread → Prop
  | stored {self' : Thread} (hkey : key < PTHREAD_KEYS_MAX)
      (hseq : unusedP (keys key).seq = false)
      (hcell : ∀ k, self'.cell k = if k = key then ⟨(keys key).seq, valp⟩ else self.cell k) :
      SetEffect keys self key valp mem (.ok, self')
  | skipped (hkey : key < PTHREAD_KEYS_MAX) (hseq : unusedP (keys key).seq = false)
      (hcell : (self.cell key).data = 0) (hv : valp = 0) :
      SetEffect keys self key valp mem (.ok, self)
  | einval (h : PTHREAD_KEYS_MAX ≤ key ∨ unusedP (keys key).seq = true) :
      SetEffect keys self key valp mem (.einval, self)
  | enomem (hkey : key < PTHREAD_KEYS_MAX) (hseq : unusedP (keys key).seq = false)
      (hmem : mem = false) : SetEffect keys self key valp mem (.enomem, self)

/-- Every call has one of these effects. -/
theorem setspecific_effect (key : ℕ) (valp : BitVec 32) (mem : Bool) (keys : ℕ → Key)
    (self : Thread) :
    SetEffect keys self key valp mem (setspecific key valp mem keys self) := by
  unfold setspecific
  by_cases hkey : key < PTHREAD_KEYS_MAX
  · simp only [hkey, ↓reduceDIte]
    cases hseq : unusedP (keys key).seq with
    | true => exact .einval (.inr hseq)
    | false =>
        cases hblk : self.specific (blockOf key hkey) with
        | some blk =>
            have hsome : (self.specific (blockOf key hkey)).isSome := by simp [hblk]
            exact .stored hkey hseq fun k => cell_put hkey hsome
        | none =>
            have hcell : (self.cell key).data = 0 := by
              simp [Thread.cell, hkey, Thread.entry, hblk]
            by_cases hv : valp = 0
            · rw [if_pos hv]
              exact .skipped hkey hseq hcell hv
            · rw [if_neg hv]
              cases mem with
              | false => exact .enomem hkey hseq rfl
              | true =>
                  have hsome : ((self.alloc (blockOf key hkey)).specific
                      (blockOf key hkey)).isSome := by simp [Thread.alloc]
                  apply SetEffect.stored hkey hseq
                  intro k
                  rw [cell_put hkey hsome, cell_alloc hblk]
  · simpa [hkey] using SetEffect.einval (.inl (Nat.le_of_not_lt hkey))

/-- What one call of a thread does to the table and to the cells of the thread. -/
inductive Effect (keys : ℕ → Key) (self : Thread) (t : T) :
    (ℕ → Key) → Thread → Change T → Prop
  | create {key : ℕ} {destr : BitVec 32} (hkey : key < PTHREAD_KEYS_MAX)
      (hseq : unusedP (keys key).seq = true) :
      Effect keys self t (Function.update keys key ⟨(keys key).seq + 1, destr⟩) self (.create key)
  | delete {key : ℕ} (hkey : key < PTHREAD_KEYS_MAX) (hseq : unusedP (keys key).seq = false) :
      Effect keys self t (Function.update keys key ⟨(keys key).seq + 1, (keys key).destr⟩) self
        (.delete key)
  | set {self' : Thread} {key : ℕ} {v : BitVec 32} (hkey : key < PTHREAD_KEYS_MAX)
      (hseq : unusedP (keys key).seq = false)
      (hcell : ∀ k, self'.cell k = if k = key then ⟨(keys key).seq, v⟩ else self.cell k) :
      Effect keys self t keys self' (.set t key v)
  | unset {key : ℕ} (hkey : key < PTHREAD_KEYS_MAX) (hcell : (self.cell key).data = 0) :
      Effect keys self t keys self (.set t key 0)
  | quiet {self' : Thread} (hcell : ∀ k, self'.cell k = self.cell k ∨
      (self'.cell k).data = 0 ∧ reading (self.cell k) (keys k).seq = 0) :
      Effect keys self t keys self' .none

/-- `pthread_key_create` takes an unused slot, or finds none. -/
theorem keyCreate_cases (destr : BitVec 32) (keys : ℕ → Key) :
    (∃ key < PTHREAD_KEYS_MAX, unusedP (keys key).seq = true ∧
      keyCreate destr keys =
        (.ok, some key, Function.update keys key ⟨(keys key).seq + 1, destr⟩)) ∨
    ((∀ key < PTHREAD_KEYS_MAX, unusedP (keys key).seq = false) ∧
      keyCreate destr keys = (.eagain, none, keys)) := by
  unfold keyCreate
  cases hfind : (List.range PTHREAD_KEYS_MAX).find? fun i => unusedP (keys i).seq with
  | some key =>
      have hmem := List.mem_range.mp (List.mem_of_find?_eq_some hfind)
      have hseq : unusedP (keys key).seq = true := by simpa using List.find?_some hfind
      exact .inl ⟨key, hmem, hseq, by simp only⟩
  | none =>
      refine .inr ⟨fun key hkey => ?_, by simp only⟩
      simpa using List.find?_eq_none.mp hfind key (List.mem_range.mpr hkey)

omit [DecidableEq T] in
/-- Every call has one of these effects. -/
theorem call_effect (keys : ℕ → Key) (self : Thread) (t : T) (op : Op) :
    Effect keys self t (call keys self op).2.1 (call keys self op).2.2
      (Event.change ⟨t, op, (call keys self op).1⟩) := by
  cases op with
  | keyCreate destr =>
      rcases keyCreate_cases destr keys with ⟨key, hkey, hseq, heq⟩ | ⟨-, heq⟩
      · simp only [call, heq]
        exact .create hkey hseq
      · simp only [call, heq]
        exact .quiet fun _ => .inl rfl
  | keyDelete key =>
      simp only [call, keyDelete]
      split
      · exact .quiet fun _ => .inl rfl
      · rename_i h
        push Not at h
        exact .delete h.1 (by simpa using h.2)
  | setspecific key valp mem =>
      have heff := setspecific_effect key valp mem keys self
      simp only [call]
      generalize setspecific key valp mem keys self = r at heff
      cases heff with
      | stored hkey hseq hcell => exact .set hkey hseq hcell
      | skipped hkey hseq hcell hv =>
          subst hv
          exact .unset hkey hcell
      | einval h => exact .quiet fun _ => .inl rfl
      | enomem hkey hseq hmem => exact .quiet fun _ => .inl rfl
  | getspecific key =>
      simp only [call, Event.change]
      apply Effect.quiet
      intro k
      rcases cell_getspecific key keys self k with h | ⟨h, -, h'⟩
      · exact .inl h
      · exact .inr ⟨h, h'⟩

/-! ### The invariant -/

/-- The number of lifetimes begun and ended by `key`. -/
def count (key : ℕ) (h : List (Event T)) : ℕ := births key h + deaths key h

/-- The table and the cells agree with the history. -/
structure Inv (c : Config T) : Prop where
  seq : ∀ key < PTHREAD_KEYS_MAX, (c.keys key).seq = BitVec.ofNat 32 (count key c.history)
  balance : ∀ key, births key c.history =
    deaths key c.history + if key ∈ liveKeys c.history then 1 else 0
  nodup : (liveKeys c.history).Nodup
  inside : ∀ key ∈ liveKeys c.history, key < PTHREAD_KEYS_MAX
  stored : ∀ t key, ((c.thread t).cell key).data ≠ 0 →
    ∃ n ≤ count key c.history, ((c.thread t).cell key).seq = BitVec.ofNat 32 n
  read : ∀ t key, reading ((c.thread t).cell key) (c.keys key).seq = lookup t key c.history

/-- An empty cell reads as NULL. -/
theorem reading_of_empty {seq : BitVec 32} (h : d.data = 0) : reading d seq = 0 := by
  simp [reading, h]

/-- A stale cell reads as NULL. -/
theorem reading_of_stale {seq : BitVec 32} (h : d.data ≠ 0 → d.seq ≠ seq) :
    reading d seq = 0 := by
  unfold reading
  split
  · rfl
  · rename_i hnot
    by_contra hdata
    exact hnot ⟨hdata, h hdata⟩

/-- A value that was stored under the current number is read back. -/
theorem reading_self (seq v : BitVec 32) : reading ⟨seq, v⟩ seq = v := by simp [reading]

/-- The parity of a small number. -/
theorem unusedP_ofNat {n : ℕ} (hn : n < 2 ^ 32) :
    unusedP (BitVec.ofNat 32 n) = true ↔ n % 2 = 0 := by
  rw [unusedP, beq_iff_eq, ← BitVec.toNat_inj, BitVec.toNat_umod, BitVec.toNat_ofNat,
    Nat.mod_eq_of_lt hn]
  rfl

section

variable {c : Config T}

/-- The count of a slot does not wrap at its next change. -/
theorem Inv.count_lt (hs : Inv c) (hfew : Few c) (hkey : key < PTHREAD_KEYS_MAX) :
    count key c.history + 1 < 2 ^ 32 := by
  have hbal := hs.balance key
  have hb := hfew key hkey
  unfold count
  omega

/-- A slot is unused when its key is not alive. -/
theorem Inv.unused_iff (hs : Inv c) (hfew : Few c) (hkey : key < PTHREAD_KEYS_MAX) :
    unusedP (c.keys key).seq = true ↔ key ∉ liveKeys c.history := by
  have hbal := hs.balance key
  rw [hs.seq key hkey, unusedP_ofNat (Nat.lt_of_succ_lt (hs.count_lt hfew hkey)), count]
  by_cases hlive : key ∈ liveKeys c.history
  · simp only [hlive, if_true] at hbal
    simp only [hlive, not_true_eq_false, iff_false]
    omega
  · simp only [hlive, if_false] at hbal
    simp only [hlive, not_false_eq_true, iff_true]
    omega

/-- When the number of a slot moves on, every cell of its key reads as NULL. -/
theorem Inv.reading_next (hs : Inv c) (hfew : Few c) (hkey : key < PTHREAD_KEYS_MAX) (t : T) :
    reading ((c.thread t).cell key) ((c.keys key).seq + 1) = 0 := by
  apply reading_of_stale
  intro hdata heq
  obtain ⟨n, hn, hseq⟩ := hs.stored t key hdata
  have hlt := hs.count_lt hfew hkey
  have hsucc : (c.keys key).seq + 1 = BitVec.ofNat 32 (count key c.history + 1) := by
    rw [hs.seq key hkey, BitVec.ofNat_add]
    rfl
  rw [hseq, hsucc] at heq
  have := (ofNat_eq_iff (by omega) hlt).mp heq
  omega

/-- A call that moves the number of a slot on, and with it ends or begins a lifetime. -/
theorem Inv.advance (hs : Inv c) (hfew : Few c) {e : Event T} {entry : Key}
    (hkey : key < PTHREAD_KEYS_MAX) (hentry : entry.seq = (c.keys key).seq + 1)
    (hcount : ∀ k, count k (e :: c.history) =
      if k = key then count k c.history + 1 else count k c.history)
    (hlookup : ∀ t k, lookup t k (e :: c.history) = if k = key then 0 else lookup t k c.history)
    (hbalance : ∀ k, births k (e :: c.history) =
      deaths k (e :: c.history) + if k ∈ liveKeys (e :: c.history) then 1 else 0)
    (hnodup : (liveKeys (e :: c.history)).Nodup)
    (hinside : ∀ k ∈ liveKeys (e :: c.history), k < PTHREAD_KEYS_MAX) :
    Inv ⟨Function.update c.keys key entry, c.thread, e :: c.history⟩ where
  seq k hk := by
    rw [hcount]
    by_cases hkk : k = key
    · subst hkk
      simp only [Function.update_self, if_true, hentry, hs.seq k hk, BitVec.ofNat_add]
      rfl
    · simp only [Function.update_of_ne hkk, hkk, if_false, hs.seq k hk]
  balance := hbalance
  nodup := hnodup
  inside := hinside
  stored t k hd := by
    obtain ⟨n, hn, hseq⟩ := hs.stored t k hd
    refine ⟨n, hn.trans ?_, hseq⟩
    rw [hcount]
    split <;> omega
  read t k := by
    rw [hlookup]
    by_cases hkk : k = key
    · subst hkk
      simp only [Function.update_self, hentry, if_true]
      exact hs.reading_next hfew hkey t
    · simp only [Function.update_of_ne hkk, hkk, if_false]
      exact hs.read t k

/-- A call that creates a key. -/
theorem Inv.create (hs : Inv c) (hfew : Few c) {e : Event T} {destr : BitVec 32}
    (hkey : key < PTHREAD_KEYS_MAX) (hseq : unusedP (c.keys key).seq = true)
    (hch : e.change = .create key) :
    Inv ⟨Function.update c.keys key ⟨(c.keys key).seq + 1, destr⟩, c.thread, e :: c.history⟩ := by
  have hdead : key ∉ liveKeys c.history := (hs.unused_iff hfew hkey).mp hseq
  refine hs.advance hfew hkey rfl (fun k => ?_) (fun t k => ?_) (fun k => ?_) ?_ fun k hk => ?_
  · by_cases hk : key = k
    · simp only [count, births, deaths, hch, hk, if_true]
      omega
    · simp [count, births, deaths, hch, hk, Ne.symm hk]
  · simp only [lookup, hch, eq_comm]
  · have hbal := hs.balance k
    by_cases hk : key = k
    · subst hk
      simp only [hdead, if_false] at hbal
      simp [births, deaths, liveKeys, hch, hbal]
    · simpa [births, deaths, liveKeys, hch, hk, Ne.symm hk] using hbal
  · simp only [liveKeys, hch]
    exact List.nodup_cons.mpr ⟨hdead, hs.nodup⟩
  · simp only [liveKeys, hch, List.mem_cons] at hk
    rcases hk with rfl | hk
    · exact hkey
    · exact hs.inside k hk

/-- A call that deletes a key. -/
theorem Inv.delete (hs : Inv c) (hfew : Few c) {e : Event T} {destr : BitVec 32}
    (hkey : key < PTHREAD_KEYS_MAX) (hseq : unusedP (c.keys key).seq = false)
    (hch : e.change = .delete key) :
    Inv ⟨Function.update c.keys key ⟨(c.keys key).seq + 1, destr⟩, c.thread, e :: c.history⟩ := by
  have hlive : key ∈ liveKeys c.history := by
    by_contra hdead
    rw [(hs.unused_iff hfew hkey).mpr hdead] at hseq
    cases hseq
  refine hs.advance hfew hkey rfl (fun k => ?_) (fun t k => ?_) (fun k => ?_) ?_ fun k hk => ?_
  · by_cases hk : key = k
    · simp only [count, births, deaths, hch, hk, if_true]
      omega
    · simp [count, births, deaths, hch, hk, Ne.symm hk]
  · simp only [lookup, hch, eq_comm]
  · have hbal := hs.balance k
    by_cases hk : key = k
    · subst hk
      simp only [hlive, if_true] at hbal
      simp [births, deaths, liveKeys, hch, hbal, hs.nodup.not_mem_erase]
    · simpa [births, deaths, liveKeys, hch, hk, List.mem_erase_of_ne (Ne.symm hk)] using hbal
  · simp only [liveKeys, hch]
    exact hs.nodup.erase key
  · simp only [liveKeys, hch] at hk
    exact hs.inside k (List.mem_of_mem_erase hk)

/-- A call that leaves the table as it is. The cells of its thread `t` agree with the
history again. -/
theorem Inv.local (hs : Inv c) {e : Event T} {self' : Thread}
    (hcount : ∀ k, births k (e :: c.history) = births k c.history ∧
      deaths k (e :: c.history) = deaths k c.history)
    (hlive : liveKeys (e :: c.history) = liveKeys c.history)
    (hother : ∀ u k, u ≠ t → lookup u k (e :: c.history) = lookup u k c.history)
    (hstored : ∀ k, (self'.cell k).data ≠ 0 → self'.cell k = (c.thread t).cell k ∨
      k < PTHREAD_KEYS_MAX ∧ (self'.cell k).seq = (c.keys k).seq)
    (hread : ∀ k, reading (self'.cell k) (c.keys k).seq = lookup t k (e :: c.history)) :
    Inv ⟨c.keys, Function.update c.thread t self', e :: c.history⟩ where
  seq k hk := by simpa only [count, hcount] using hs.seq k hk
  balance k := by simpa only [hcount, hlive] using hs.balance k
  nodup := by simpa only [hlive] using hs.nodup
  inside k hk := hs.inside k (by simpa only [hlive] using hk)
  stored u k hd := by
    simp only [count, hcount] at hd ⊢
    by_cases hu : u = t
    · subst hu
      simp only [Function.update_self] at hd ⊢
      rcases hstored k hd with heq | ⟨hk, heq⟩
      · rw [heq] at hd ⊢
        exact hs.stored u k hd
      · exact ⟨_, le_rfl, heq.trans (hs.seq k hk)⟩
    · simp only [Function.update_of_ne hu] at hd ⊢
      exact hs.stored u k hd
  read u k := by
    by_cases hu : u = t
    · subst hu
      simp only [Function.update_self]
      exact hread k
    · simp only [Function.update_of_ne hu]
      rw [hother u k hu]
      exact hs.read u k

/-- Every call keeps the invariant. -/
theorem Inv.next (hs : Inv c) (hfew : Few c) (t : T) (op : Op) : Inv (c.next t op) := by
  have heff := call_effect c.keys (c.thread t) t op
  simp only [Config.next]
  generalize call c.keys (c.thread t) op = r at heff
  obtain ⟨res, keys', self'⟩ := r
  simp only at heff ⊢
  generalize hch : Event.change ⟨t, op, res⟩ = ch at heff
  -- The data of the thread do not change when only the table does.
  have hsame : c.thread = Function.update c.thread t (c.thread t) :=
    (Function.update_eq_self t c.thread).symm
  cases heff with
  | create hkey hseq =>
      rw [← hsame]
      exact hs.create hfew hkey hseq hch
  | delete hkey hseq =>
      rw [← hsame]
      exact hs.delete hfew hkey hseq hch
  | @set _ key v hkey hseq hcell =>
      refine hs.local (fun k => ?_) ?_ (fun u k hu => ?_) (fun k hd => ?_) fun k => ?_
      · simp only [births, deaths, hch, and_self]
      · simp only [liveKeys, hch]
      · simp only [lookup, hch, Ne.symm hu, false_and, if_false]
      · rw [hcell]
        by_cases hk : k = key
        · subst hk
          rw [if_pos rfl]
          exact .inr ⟨hkey, rfl⟩
        · rw [if_neg hk]
          exact .inl rfl
      · rw [hcell]
        by_cases hk : k = key
        · subst hk
          simp only [if_true, lookup, hch, and_self]
          exact reading_self _ v
        · simp only [hk, Ne.symm hk, if_false, lookup, hch, and_false]
          exact hs.read t k
  | @unset key hkey hcell =>
      refine hs.local (fun k => ?_) ?_ (fun u k hu => ?_) (fun k hd => .inl rfl) fun k => ?_
      · simp only [births, deaths, hch, and_self]
      · simp only [liveKeys, hch]
      · simp only [lookup, hch, Ne.symm hu, false_and, if_false]
      · by_cases hk : k = key
        · subst hk
          simp only [if_true, lookup, hch, and_self]
          exact reading_of_empty hcell
        · simp only [Ne.symm hk, if_false, lookup, hch, and_false]
          exact hs.read t k
  | quiet hcell =>
      refine hs.local (fun k => ?_) ?_ (fun u k hu => ?_) (fun k hd => ?_) fun k => ?_
      · simp only [births, deaths, hch, and_self]
      · simp only [liveKeys, hch]
      · simp only [lookup, hch]
      · exact (hcell k).imp_right fun h => absurd h.1 hd
      · simp only [lookup, hch, ← hs.read t k]
        rcases hcell k with h | ⟨h, h'⟩
        · rw [h]
        · rw [h', reading_of_empty h]

end

/-- A new thread has empty cells. -/
theorem cell_init (key : ℕ) : (Thread.init.cell key).data = 0 := by
  unfold Thread.cell
  split
  · exact Thread.init_data _ _
  · rfl

/-- The invariant holds when the table is zeroed, every cell is empty and nothing has
happened. -/
theorem Inv.start {c : Config T} (hkeys : ∀ key < PTHREAD_KEYS_MAX, (c.keys key).seq = 0)
    (hcell : ∀ t key, ((c.thread t).cell key).data = 0) (hhist : c.history = []) : Inv c where
  seq key hkey := by
    rw [hkeys key hkey, hhist]
    rfl
  balance := by simp [hhist, births, deaths, liveKeys]
  nodup := by simp [hhist, liveKeys]
  inside := by simp [hhist, liveKeys]
  stored t key hd := absurd (hcell t key) hd
  read t key := by
    rw [reading_of_empty (hcell t key), hhist]
    rfl

/-- The invariant holds in every state that is reached before a slot goes through
`2 ^ 31` lifetimes. -/
theorem inv_of_reach {c : Config T} (h : keyMachine.ReachVia (fun c _ => Few c) c) : Inv c := by
  refine h.invariant (fun c hc => ?_) fun c a c' hs hfew hstep => ?_
  · obtain ⟨hkeys, hthread, hhist⟩ := hc
    exact .start hkeys (fun t key => hthread t ▸ cell_init key) hhist
  · cases hstep
    exact hs.next hfew a.1 a.2

/-! ### The map -/

/-- What `pthread_getspecific (key)` returns in the thread `t`. -/
def Config.reads (c : Config T) (t : T) (key : ℕ) : BitVec 32 :=
  (getspecific key c.keys (c.thread t)).1

/-- The key that an operation is about. `pthread_key_create` is about the key that it
returns. -/
def Op.about : Op → Result → Option ℕ
  | .keyCreate _, .created key => some key
  | .keyCreate _, _ => none
  | .keyDelete key, _ => some key
  | .setspecific key _ _, _ => some key
  | .getspecific key, _ => some key

/-- The operation creates or deletes a key, for all threads. -/
def Op.isGlobal : Op → Bool
  | .keyCreate _ | .keyDelete _ => true
  | .setspecific .. | .getspecific _ => false

/-- A call says nothing about other keys, nor about other threads unless it creates or
deletes a key. -/
theorem lookup_cons_of_ne {h : List (Event T)} {e : Event T}
    (hne : e.op.about e.result ≠ some k ∨ e.op.isGlobal = false ∧ u ≠ e.thread) :
    lookup u k (e :: h) = lookup u k h := by
  rcases e with ⟨t, op, r⟩
  cases op with
  | keyCreate destr =>
      cases r with
      | created key =>
          have hk : key ≠ k := by simpa [Op.about, Op.isGlobal] using hne
          simp [lookup, Event.change, hk]
      | code r => rfl
      | value v => rfl
  | keyDelete key =>
      have hk : key ≠ k := by simpa [Op.about, Op.isGlobal] using hne
      cases r with
      | code r => cases r <;> simp [lookup, Event.change, hk]
      | created key' => rfl
      | value v => rfl
  | setspecific key v mem =>
      have hk : ¬ (t = u ∧ key = k) := by
        rintro ⟨rfl, rfl⟩
        simp [Op.about] at hne
      cases r with
      | code r => cases r <;> simp [lookup, Event.change, hk]
      | created key' => rfl
      | value v => rfl
  | getspecific key => cases r <;> rfl

/-- The live keys fill the table when no slot is unused. -/
theorem Inv.length_liveKeys {c : Config T} (hs : Inv c) (hfew : Few c)
    (hfull : ∀ key < PTHREAD_KEYS_MAX, unusedP (c.keys key).seq = false) :
    (liveKeys c.history).length = PTHREAD_KEYS_MAX := by
  have hperm : (liveKeys c.history).Perm (List.range PTHREAD_KEYS_MAX) := by
    apply (List.perm_ext_iff_of_nodup hs.nodup List.nodup_range).mpr
    intro key
    rw [List.mem_range]
    refine ⟨hs.inside key, ?_⟩
    intro hkey
    by_contra hdead
    have hunused := (hs.unused_iff hfew hkey).mpr hdead
    rw [hfull key hkey] at hunused
    cases hunused
  rw [hperm.length_eq, List.length_range]

/-- Thread-specific data is a map from keys and threads to values, as long as no slot has
gone through `2 ^ 31` lifetimes. The live keys are distinct. A new key is not alive, and
there is none only when `PTHREAD_KEYS_MAX` keys are alive. `pthread_getspecific` returns
what its thread set last in the current lifetime of the key. The other two operations
succeed for live keys, except for want of memory. A call changes nothing that is read of
other keys, and nothing that other threads read unless it creates or deletes a key. -/
theorem tsd_refines_map {c : Config T} (h : keyMachine.ReachVia (fun c _ => Few c) c)
    (hfew : Few c) :
    (liveKeys c.history).Nodup ∧
    (∀ t destr, (∃ key < PTHREAD_KEYS_MAX, key ∉ liveKeys c.history ∧
        c.result t (.keyCreate destr) = .created key) ∨
      (c.result t (.keyCreate destr) = .code .eagain ∧
        (liveKeys c.history).length = PTHREAD_KEYS_MAX)) ∧
    (∀ t key, c.result t (.getspecific key) = .value (lookup t key c.history)) ∧
    (∀ t key, c.result t (.keyDelete key) =
      .code (if key ∈ liveKeys c.history then .ok else .einval)) ∧
    (∀ t key v mem,
      if key ∈ liveKeys c.history then
        c.result t (.setspecific key v mem) = .code .ok ∨
          (c.result t (.setspecific key v mem) = .code .enomem ∧ mem = false)
      else c.result t (.setspecific key v mem) = .code .einval) ∧
    (∀ t op u k, op.about (c.result t op) ≠ some k ∨ op.isGlobal = false ∧ u ≠ t →
      (c.next t op).reads u k = c.reads u k) := by
  have hs := inv_of_reach h
  have hlive : ∀ key, key ∈ liveKeys c.history ↔
      key < PTHREAD_KEYS_MAX ∧ unusedP (c.keys key).seq = false := by
    intro key
    constructor
    · intro hmem
      have hkey := hs.inside key hmem
      refine ⟨hkey, ?_⟩
      by_contra hunused
      exact (hs.unused_iff hfew hkey).mp (by simpa using hunused) hmem
    · rintro ⟨hkey, hseq⟩
      by_contra hdead
      rw [(hs.unused_iff hfew hkey).mpr hdead] at hseq
      cases hseq
  have hreads : ∀ (c : Config T), Inv c → ∀ t key, c.reads t key = lookup t key c.history :=
    fun c hs t key => getspecific_fst.trans (hs.read t key)
  refine ⟨hs.nodup, fun t destr => ?_, fun t key => ?_, fun t key => ?_, fun t key v mem => ?_,
    fun t op u k hne => ?_⟩
  · rcases keyCreate_cases destr c.keys with ⟨key, hkey, hseq, heq⟩ | ⟨hfull, heq⟩
    · refine .inl ⟨key, hkey, (hs.unused_iff hfew hkey).mp hseq, ?_⟩
      simp only [Config.result, call, heq, Result.ofCreate]
    · refine .inr ⟨?_, hs.length_liveKeys hfew hfull⟩
      simp only [Config.result, call, heq, Result.ofCreate]
  · exact congrArg Result.value (hreads c hs t key)
  · simp only [Config.result, call, keyDelete, hlive]
    by_cases hkey : key < PTHREAD_KEYS_MAX
    · have hle : ¬ PTHREAD_KEYS_MAX ≤ key := Nat.not_le_of_lt hkey
      cases hseq : unusedP (c.keys key).seq <;> simp [hkey, hle]
    · simp [hkey, Nat.le_of_not_lt hkey]
  · have heff := setspecific_effect key v mem c.keys (c.thread t)
    simp only [Config.result, call, hlive]
    generalize setspecific key v mem c.keys (c.thread t) = r at heff
    cases heff with
    | stored hkey hseq hcell => simp [hkey, hseq]
    | skipped hkey hseq hcell hv => simp [hkey, hseq]
    | einval h =>
        have hnot : ¬ (key < PTHREAD_KEYS_MAX ∧ unusedP (c.keys key).seq = false) := by
          rintro ⟨hkey, hseq⟩
          rcases h with h | h
          · omega
          · rw [hseq] at h
            cases h
        rw [if_neg hnot]
    | enomem hkey hseq hmem => simp [hkey, hseq, hmem]
  · rw [hreads _ (hs.next hfew t op), hreads c hs]
    exact lookup_cons_of_ne hne

/-- A run in which a key is created, set by two threads, deleted and created again. -/
theorem tsd_refines_map_two : ∃ c : Config (Fin 2),
    (keyMachine.ReachVia (fun c _ => Few c) c ∧ Few c) ∧
    (c.reads 0 0 = 0 ∧ c.reads 1 0 = 9) ∧
    (liveKeys c.history).Nodup ∧
    (∀ t destr, (∃ key < PTHREAD_KEYS_MAX, key ∉ liveKeys c.history ∧
        c.result t (.keyCreate destr) = .created key) ∨
      (c.result t (.keyCreate destr) = .code .eagain ∧
        (liveKeys c.history).length = PTHREAD_KEYS_MAX)) ∧
    (∀ t key, c.result t (.getspecific key) = .value (lookup t key c.history)) ∧
    (∀ t key, c.result t (.keyDelete key) =
      .code (if key ∈ liveKeys c.history then .ok else .einval)) ∧
    (∀ t key v mem,
      if key ∈ liveKeys c.history then
        c.result t (.setspecific key v mem) = .code .ok ∨
          (c.result t (.setspecific key v mem) = .code .enomem ∧ mem = false)
      else c.result t (.setspecific key v mem) = .code .einval) ∧
    (∀ t op u k, op.about (c.result t op) ≠ some k ∨ op.isGlobal = false ∧ u ≠ t →
      (c.next t op).reads u k = c.reads u k) := by
  obtain ⟨c, hc, hfew, hp⟩ := (keyMachine (T := Fin 2)).exists_reachVia (fun c _ => Few c)
    (s := ⟨fun _ => ⟨0, 0⟩, fun _ => Thread.init, []⟩) ⟨fun _ _ => rfl, fun _ => rfl, rfl⟩
    [(0, .keyCreate 0), (0, .setspecific 0 5 true), (1, .setspecific 0 7 true),
      (1, .keyDelete 0), (1, .keyCreate 0), (1, .setspecific 0 9 true)]
    (fun c => Few c ∧ c.reads 0 0 = 0 ∧ c.reads 1 0 = 9) (by decide +kernel)
  exact ⟨c, ⟨hc, hfew⟩, hp, tsd_refines_map hc hfew⟩

end Hlpt.Tsd
