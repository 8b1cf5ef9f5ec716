import Hlpt.Tsd.Map

/-!
# `Hlpt.Tsd.Fork`: thread-specific data across a fork

In the child of a fork, `pt_atfork_child` clears `__pthread_keys`, so the slots of the
table count from 0 again. It does not touch the blocks of the thread that survives, and
what lies there has a sequence number of the old table. The new table reaches every one
of these numbers some day (`exists_seq`), and then the old value is valid again.

* `fork_clean_iff`: the values of the parent stay out of the child exactly when the
  thread that forks has no value at all.
* `fork_leaks`: a value of the parent that the first key of the child has, and that goes
  to the destructor of this key.

The actions of a process are calls, exits of threads with their destructors, and forks, in
any order.
-/

set_option autoImplicit false

namespace Hlpt.Tsd

open Hlpt.Lib

universe u

variable {T : Type u} [DecidableEq T]

/-! ### Processes that fork -/

/-- What a thread of a process does: it calls an operation, exits with destructors that do
what `B` says, or forks, where the run goes on in the child. -/
inductive Action (T : Type u) where
  | call (t : T) (op : Op)
  | exit (t : T) (B : Behaviour)
  | fork (t : T)

/-- The child of a fork by `t`. The table is cleared, the data of `t` stay, and every
other thread of the child will be a new one. The history is the one of the child. -/
def Config.fork (c : Config T) (t : T) : Config T where
  keys i := if i < PTHREAD_KEYS_MAX then ⟨0, 0⟩ else c.keys i
  thread := Function.update (fun _ => Thread.init) t (c.thread t)
  history := []

/-- The state after an action. -/
def Config.act (c : Config T) : Action T → Config T
  | .call t op => c.next t op
  | .exit t B =>
      let s := dealloc B ⟨c.keys, c.thread t⟩
      { c with keys := s.keys, thread := Function.update c.thread t s.thread }
  | .fork t => c.fork t

/-- The state after a list of actions. -/
def Config.acts (c : Config T) (as : List (Action T)) : Config T := as.foldl Config.act c

/-- A process that forks any number of times, followed into the child each time. The
table starts zeroed. -/
def processMachine : Machine (Config T) (Action T) where
  init := keyMachine.init
  step c a := some (c.act a)

/-! ### What the child should see -/

/-- One of the actions is a call of the thread `u` that stores `v` for `key`. -/
def Stores (as : List (Action T)) (u : T) (key : ℕ) (v : BitVec 32) : Prop :=
  ∃ mem, .call u (.setspecific key v mem) ∈ as

/-- A destructor stores `v` for `key`. -/
def Behaviour.Stores (B : Behaviour) (key : ℕ) (v : BitVec 32) : Prop :=
  ∃ destr dp visits s mem, Op.setspecific key v mem ∈ B destr dp visits s

/-- The action is a call. -/
def Action.isCall : Action T → Bool
  | .call .. => true
  | .exit .. | .fork _ => false

/-- In every continuation from the state `c`, only values that are stored in the course of
it are seen. `pthread_getspecific` returns what its thread has stored for the key, and so
NULL before; through as many lifetimes of the keys as their numbers can tell apart, it was
stored in the current one. A destructor gets what its thread or a destructor has stored
for the key. -/
structure NoLeak (c : Config T) : Prop where
  read : ∀ as u key, (c.acts as).reads u key ≠ 0 → Stores as u key ((c.acts as).reads u key)
  lifetime : ∀ as, (∀ a ∈ as, a.isCall) → Few (c.acts as) →
    ∀ u key, (c.acts as).reads u key = lookup u key (c.acts as).history
  destroy : ∀ as u B, ∀ v ∈ (walk B ⟨(c.acts as).keys, (c.acts as).thread u⟩).visits,
    ∀ destr dp, v.call = some (destr, dp) → Stores as u v.key dp ∨ B.Stores v.key dp

/-! ### Values of one origin -/

/-- Every value of the thread is one that `P` allows for its key. -/
def Thread.Holds (P : ℕ → BitVec 32 → Prop) (self : Thread) : Prop :=
  ∀ key, (self.cell key).data ≠ 0 → P key (self.cell key).data

/-- The operation stores nothing but what `P` allows. -/
def Op.Allowed (P : ℕ → BitVec 32 → Prop) : Op → Prop
  | .setspecific key v _ => P key v
  | _ => True

variable {P : ℕ → BitVec 32 → Prop} {self : Thread} {s : State} {key : ℕ}

theorem Thread.Holds.mono {P' : ℕ → BitVec 32 → Prop} (h : self.Holds P)
    (himp : ∀ key v, P key v → P' key v) : self.Holds P' :=
  fun key hd => himp _ _ (h key hd)

/-- A thread with empty cells holds no value. -/
theorem Thread.holds_of_empty (h : ∀ key, (self.cell key).data = 0) : self.Holds P :=
  fun key hd => absurd (h key) hd

/-- What is read is a value of the thread. -/
theorem Thread.Holds.getspecific {keys : ℕ → Key} (h : self.Holds P)
    (hne : (getspecific key keys self).1 ≠ 0) : P key (getspecific key keys self).1 := by
  rw [getspecific_fst] at hne ⊢
  unfold reading at hne ⊢
  split at hne
  · exact absurd rfl hne
  · rename_i hvalid
    rw [if_neg hvalid]
    exact h key hne

/-- An operation brings only the value that it stores. -/
theorem Op.run_holds {op : Op} (hs : s.thread.Holds P) (hop : op.Allowed P) :
    (op.run s).thread.Holds P := by
  cases op with
  | keyCreate destr | keyDelete key =>
      simp only [Op.run]
      exact hs
  | getspecific key =>
      intro k hd
      rcases cell_getspecific key s.keys s.thread k with h | ⟨h, -⟩
      · simp only [Op.run, h] at hd ⊢
        exact hs k hd
      · exact absurd h hd
  | setspecific key v mem =>
      have heff := setspecific_effect key v mem s.keys s.thread
      simp only [Op.run]
      generalize Tsd.setspecific key v mem s.keys s.thread = r at heff
      cases heff with
      | stored hkey hseq hcell =>
          intro k hd
          rw [hcell] at hd ⊢
          by_cases hk : k = key
          · subst hk
            rw [if_pos rfl]
            exact hop
          · rw [if_neg hk] at hd ⊢
            exact hs k hd
      | skipped | einval | enomem => exact hs

/-- A list of operations. -/
theorem run_holds {ops : List Op} (hs : s.thread.Holds P) (hops : ∀ op ∈ ops, op.Allowed P) :
    (run ops s).thread.Holds P := by
  induction ops generalizing s with
  | nil => exact hs
  | cons op ops ih =>
      obtain ⟨hop, hops⟩ := List.forall_mem_cons.mp hops
      exact ih (Op.run_holds hs hop) hops

/-! ### Values that go to destructors -/

/-- The entry of an index is the cell of its key. -/
theorem cell_slotIndex (self : Thread) (cnt : Fin PTHREAD_KEY_L1_SIZE)
    (inner : Fin PTHREAD_KEY_L2_SIZE) : self.cell (slotIndex cnt inner) = self.entry cnt inner := by
  have hlt : slotIndex cnt inner < PTHREAD_KEYS_MAX := slotIndex_lt cnt inner
  have hblock : blockOf (slotIndex cnt inner) hlt = cnt := by
    apply Fin.ext
    show (PTHREAD_KEY_L2_SIZE * cnt.val + inner.val) / PTHREAD_KEY_L2_SIZE = cnt.val
    rw [Nat.mul_add_div (by decide), Nat.div_eq_of_lt inner.isLt, Nat.add_zero]
  have hindex : indexOf (slotIndex cnt inner) = inner := by
    apply Fin.ext
    show (PTHREAD_KEY_L2_SIZE * cnt.val + inner.val) % PTHREAD_KEY_L2_SIZE = inner.val
    rw [Nat.mul_add_mod, Nat.mod_eq_of_lt inner.isLt]
  unfold Thread.cell
  rw [dif_pos hlt, hblock, hindex]

/-- A cell that is cleared holds nothing, the others what they held. -/
theorem Thread.Holds.clear {cnt : Fin PTHREAD_KEY_L1_SIZE} {inner : Fin PTHREAD_KEY_L2_SIZE}
    {seq : BitVec 32} (h : self.Holds P) (hsome : (self.specific cnt).isSome) :
    (self.store cnt inner ⟨seq, 0⟩).Holds P := by
  have hcell : ∀ key, (self.store cnt inner ⟨seq, 0⟩).cell key = self.cell key ∨
      ((self.store cnt inner ⟨seq, 0⟩).cell key).data = 0 := by
    intro key
    unfold Thread.cell
    split
    · rw [Thread.entry_store hsome]
      split
      · exact .inr rfl
      · exact .inl rfl
    · exact .inl rfl
  intro key hd
  rcases hcell key with heq | hempty
  · rw [heq] at hd ⊢
    exact h key hd
  · exact absurd hempty hd

/-- The invariant of the loops: `P` allows what is left, and what went to destructors. -/
structure Walk.Holds (P : ℕ → BitVec 32 → Prop) (w : Walk) : Prop where
  thread : w.st.thread.Holds P
  calls : ∀ v ∈ w.visits, ∀ destr dp, v.call = some (destr, dp) → P v.key dp

/-- Every operation of a destructor is allowed. -/
def Behaviour.Allowed (P : ℕ → BitVec 32 → Prop) (B : Behaviour) : Prop :=
  ∀ destr dp visits s, ∀ op ∈ B destr dp visits s, op.Allowed P

variable {B : Behaviour} {w : Walk}

/-- One turn of the inner loop. -/
theorem Walk.Holds.visit {cnt : Fin PTHREAD_KEY_L1_SIZE} {inner : Fin PTHREAD_KEY_L2_SIZE}
    (hB : B.Allowed P) (hw : w.Holds P) : (visit B cnt w inner).Holds P := by
  unfold Tsd.visit
  split
  · exact ⟨hw.thread, hw.calls⟩
  · rename_i hd
    have hclear : (w.clear cnt inner).thread.Holds P :=
      hw.thread.clear (Thread.isSome_of_entry hd)
    constructor
    · dsimp only
      split
      · exact run_holds hclear (hB _ _ _ _)
      · exact hclear
    · intro v hv destr dp hcall
      rcases List.mem_append.mp hv with hv | hv
      · exact hw.calls v hv destr dp hcall
      · -- The visit of this turn: its argument is the value of the cell.
        obtain rfl := List.mem_singleton.mp hv
        have hdp : dp = (w.entry cnt inner).data := by
          simp only [Walk.record] at hcall
          split at hcall
          · exact (Prod.mk.inj (Option.some.inj hcall)).2.symm
          · cases hcall
        have hcell := cell_slotIndex w.st.thread cnt inner
        show P (slotIndex cnt inner) dp
        rw [hdp, Walk.entry, ← hcell]
        exact hw.thread _ (by rwa [hcell])

/-- One turn of the outer loop. -/
theorem Walk.Holds.visitBlock {cnt : Fin PTHREAD_KEY_L1_SIZE} (hB : B.Allowed P)
    (hw : w.Holds P) : (visitBlock B w cnt).Holds P := by
  unfold Tsd.visitBlock
  split
  · exact finRange_loop (P := fun _ (w : Walk) => w.Holds P) hw fun _ _ hw => hw.visit hB
  · exact ⟨hw.thread, hw.calls⟩

/-- The `do` loop. -/
theorem Walk.Holds.passes (hB : B.Allowed P) (n : ℕ) (hw : w.Holds P) :
    (Tsd.passes B n w).Holds P := by
  induction n generalizing w with
  | zero => exact hw
  | succ n ih =>
      have hpass : (pass B w).Holds P :=
        finRange_loop (P := fun _ (w : Walk) => w.Holds P) ⟨hw.thread, hw.calls⟩
          fun _ _ hw => hw.visitBlock hB
      simp only [Tsd.passes]
      split
      · exact ih hpass
      · exact hpass

/-- The loops of `__pthread_dealloc_tsd`, on a thread whose values `P` allows. -/
theorem walk_holds (hB : B.Allowed P) (hs : s.thread.Holds P) : (walk B s).Holds P := by
  have hstart : Walk.Holds P ⟨s, 0, 0, [], 0⟩ :=
    ⟨hs, fun v hv => absurd hv List.not_mem_nil⟩
  unfold walk
  dsimp only
  split
  · exact hstart.passes hB _
  · exact hstart

/-! ### The actions of a process -/

/-- A value in a cell was stored for a key in use. -/
theorem cell_used (hs : self.Stored) (hd : (self.cell key).data ≠ 0) :
    key < PTHREAD_KEYS_MAX ∧ unusedP (self.cell key).seq = false := by
  unfold Thread.cell at hd ⊢
  split at hd
  · rename_i hkey
    simp only [hkey, ↓reduceDIte, true_and]
    exact hs _ _ hd
  · exact absurd rfl hd

omit [DecidableEq T] in
/-- The effect of a call on the data of its thread is that of its operation. -/
theorem call_thread (keys : ℕ → Key) (self : Thread) (op : Op) :
    (call keys self op).2.2 = (op.run ⟨keys, self⟩).thread := by
  cases op <;> rfl

/-- A property of the data of the threads: new threads have it and operations keep it, so
every action keeps it. -/
theorem act_thread {Q : T → Thread → Prop} {c : Config T} {a : Action T}
    (hinit : ∀ u, Q u Thread.init) (hc : ∀ u, Q u (c.thread u))
    (hcall : ∀ u op, a = .call u op → Q u (op.run ⟨c.keys, c.thread u⟩).thread) (u : T) :
    Q u ((c.act a).thread u) := by
  cases a with
  | call t op =>
      show Q u (Function.update c.thread t (call c.keys (c.thread t) op).2.2 u)
      by_cases hu : u = t
      · subst hu
        rw [Function.update_self, call_thread]
        exact hcall u op rfl
      · rw [Function.update_of_ne hu]
        exact hc u
  | exit t B =>
      show Q u (Function.update c.thread t (dealloc B ⟨c.keys, c.thread t⟩).thread u)
      by_cases hu : u = t
      · subst hu
        rw [Function.update_self]
        unfold dealloc
        split
        · exact hinit u
        · exact hc u
      · rw [Function.update_of_ne hu]
        exact hc u
  | fork t =>
      show Q u (Function.update (fun _ => Thread.init) t (c.thread t) u)
      by_cases hu : u = t
      · subst hu
        rw [Function.update_self]
        exact hc u
      · rw [Function.update_of_ne hu]
        exact hinit u

/-- After any actions, a thread holds what `P` allowed before and what it has stored. -/
theorem acts_holds {P : T → ℕ → BitVec 32 → Prop} {as : List (Action T)} {c : Config T}
    (hc : ∀ u, (c.thread u).Holds (P u))
    (has : ∀ u key v, Stores as u key v → P u key v) (u : T) :
    ((c.acts as).thread u).Holds (P u) := by
  induction as generalizing c with
  | nil => exact hc u
  | cons a as ih =>
      refine ih (act_thread (Q := fun u => Thread.Holds (P u))
        (fun u => Thread.holds_of_empty cell_init) hc fun u op ha => ?_)
        fun u key v ⟨mem, hmem⟩ => ?_
      · refine Op.run_holds (hc u) ?_
        cases op with
        | setspecific key v mem => exact has u key v ⟨mem, ha ▸ List.mem_cons_self⟩
        | keyCreate | keyDelete | getspecific => trivial
      · exact has u key v ⟨mem, List.mem_cons_of_mem _ hmem⟩

/-- A thread of a process has no value with the number of an unused key. -/
theorem stored_of_reach {c : Config T} (h : processMachine.Reach c) (t : T) :
    (c.thread t).Stored := by
  have hinit : Thread.init.Stored := fun cnt inner hd => absurd (Thread.init_data cnt inner) hd
  refine h.invariant (P := fun c => ∀ t, (c.thread t).Stored) (fun c hc t => ?_)
    (fun c a c' hs _ hstep t => ?_) t
  · rw [hc.2.1 t]
    exact hinit
  · cases hstep
    exact act_thread (Q := fun _ => Thread.Stored) (fun _ => hinit) hs
      (fun u op _ => (op.run_later (hs u)).2) t

/-- Calls only add to the number of lifetimes. -/
theorem births_acts_le {as : List (Action T)} {c : Config T} (has : ∀ a ∈ as, a.isCall) :
    births key c.history ≤ births key (c.acts as).history := by
  induction as generalizing c with
  | nil => exact le_rfl
  | cons a as ih =>
      obtain ⟨ha, has⟩ := List.forall_mem_cons.mp has
      refine le_trans ?_ (ih has)
      cases a with
      | call t op =>
          show births key c.history ≤ births key (_ :: c.history)
          simp only [births]
          split
          · split <;> omega
          · exact le_rfl
      | exit | fork => cases ha

/-- Calls keep the invariant of the keys while their numbers tell the lifetimes apart. -/
theorem Inv.acts {as : List (Action T)} {c : Config T} (hs : Inv c)
    (has : ∀ a ∈ as, a.isCall) (hfew : Few (c.acts as)) : Inv (c.acts as) := by
  induction as generalizing c with
  | nil => exact hs
  | cons a as ih =>
      have hfew' : Few c := fun key hkey => lt_of_le_of_lt (births_acts_le has) (hfew key hkey)
      obtain ⟨ha, hrest⟩ := List.forall_mem_cons.mp has
      cases a with
      | call t op => exact ih (hs.next hfew' t op) hrest hfew
      | exit | fork => cases ha

/-- A thread without values leaks none into the child. -/
theorem noLeak_of_clean {c : Config T} {t : T}
    (hclean : ∀ key, ((c.thread t).cell key).data = 0) : NoLeak (c.fork t) := by
  have hempty : ∀ u key, (((c.fork t).thread u).cell key).data = 0 := by
    intro u key
    show ((Function.update (fun _ => Thread.init) t (c.thread t) u).cell key).data = 0
    by_cases hu : u = t
    · subst hu
      rw [Function.update_self]
      exact hclean key
    · rw [Function.update_of_ne hu]
      exact cell_init key
  constructor
  · intro as u key hne
    exact (acts_holds (P := fun u => Stores as u) (fun u => Thread.holds_of_empty (hempty u))
      (fun _ _ _ h => h) u).getspecific hne
  · intro as has hfew u key
    have hinv : Inv (c.fork t) := .start (fun key hkey => ?_) hempty rfl
    · exact getspecific_fst.trans ((hinv.acts has hfew).read u key)
    · show (if key < PTHREAD_KEYS_MAX then (⟨0, 0⟩ : Key) else c.keys key).seq = 0
      rw [if_pos hkey]
  · intro as u B
    have hholds := acts_holds (P := fun u => Stores as u)
      (fun u => Thread.holds_of_empty (hempty u)) (fun _ _ _ h => h) u
    refine (walk_holds (P := fun key v => Stores as u key v ∨ B.Stores key v) ?_
      (hholds.mono fun _ _ => .inl)).calls
    intro destr dp visits s op hop
    cases op with
    | setspecific key v mem => exact .inr ⟨destr, dp, visits, s, mem, hop⟩
    | keyCreate | keyDelete | getspecific => trivial

/-! ### The numbers of the new table -/

/-- An unused slot has an even number. -/
theorem unusedP_iff (seq : BitVec 32) : unusedP seq = true ↔ seq.toNat % 2 = 0 := by
  rw [unusedP, beq_iff_eq, ← BitVec.toNat_inj, BitVec.toNat_umod]
  rfl

/-- The next number has the other parity. -/
theorem unusedP_add_one (seq : BitVec 32) : unusedP (seq + 1) = !unusedP seq := by
  have hlt := seq.isLt
  rw [Bool.eq_iff_iff, Bool.not_eq_true', ← Bool.not_eq_true, unusedP_iff, unusedP_iff,
    BitVec.toNat_add]
  show (seq.toNat + 1) % 2 ^ 32 % 2 = 0 ↔ _
  omega

variable {c : Config T} {as as' : List (Action T)} {t : T}

/-- `pthread_key_create` takes the lowest slot that is unused. -/
theorem act_create (hkey : key < PTHREAD_KEYS_MAX) (hseq : unusedP (c.keys key).seq = true)
    (hbelow : ∀ i < key, unusedP (c.keys i).seq = false) :
    (c.act (.call t (.keyCreate 0))).keys =
        Function.update c.keys key ⟨(c.keys key).seq + 1, 0⟩ ∧
      (c.act (.call t (.keyCreate 0))).thread = c.thread := by
  have hfind : (List.range PTHREAD_KEYS_MAX).find? (fun i => unusedP (c.keys i).seq) = some key :=
    List.find?_range_eq_some.mpr ⟨hseq, List.mem_range.mpr hkey, fun i hi => by
      rw [hbelow i hi]
      rfl⟩
  have hcreate : keyCreate 0 c.keys =
      (.ok, some key, Function.update c.keys key ⟨(c.keys key).seq + 1, 0⟩) := by
    unfold keyCreate
    rw [hfind]
  constructor
  · simp only [Config.act, Config.next, call, hcreate]
  · exact Function.update_eq_self t c.thread

/-- `pthread_key_delete`, for a key in use. -/
theorem act_delete (hkey : key < PTHREAD_KEYS_MAX) (hseq : unusedP (c.keys key).seq = false) :
    (c.act (.call t (.keyDelete key))).keys =
        Function.update c.keys key ⟨(c.keys key).seq + 1, (c.keys key).destr⟩ ∧
      (c.act (.call t (.keyDelete key))).thread = c.thread := by
  constructor
  · have hnot : ¬ (key ≥ PTHREAD_KEYS_MAX ∨ unusedP (c.keys key).seq = true) := by
      rw [hseq]
      simpa using hkey
    show (keyDelete key c.keys).2 = _
    rw [keyDelete, if_neg hnot]
  · exact Function.update_eq_self t c.thread

theorem acts_append : c.acts (as ++ as') = (c.acts as).acts as' := List.foldl_append

/-- No action stores a value. -/
def Storeless (as : List (Action T)) : Prop := ∀ u key v, ¬ Stores as u key v

omit [DecidableEq T] in
theorem Storeless.nil : Storeless ([] : List (Action T)) :=
  fun _ _ _ ⟨_, h⟩ => absurd h List.not_mem_nil

omit [DecidableEq T] in
theorem Storeless.append (h : Storeless as) (h' : Storeless as') : Storeless (as ++ as') := by
  rintro u key v ⟨mem, hmem⟩
  rcases List.mem_append.mp hmem with hmem | hmem
  · exact h u key v ⟨mem, hmem⟩
  · exact h' u key v ⟨mem, hmem⟩

/-- The first `n` slots are used once, the others never. -/
def Filled (n : ℕ) (keys : ℕ → Key) : Prop :=
  ∀ i < PTHREAD_KEYS_MAX, (keys i).seq = if i < n then 1 else 0

/-- Creations fill a cleared table from below. -/
theorem exists_filled (t : T) (hzero : Filled 0 c.keys) {n : ℕ} (hn : n ≤ PTHREAD_KEYS_MAX) :
    ∃ as : List (Action T), Storeless as ∧ Filled n (c.acts as).keys ∧
      (c.acts as).thread = c.thread := by
  induction n with
  | zero => exact ⟨[], .nil, hzero, rfl⟩
  | succ n ih =>
      obtain ⟨as, hstore, hfill, hthread⟩ := ih (Nat.le_of_succ_le hn)
      have hnext : ((c.acts as).keys n).seq = 0 := by
        rw [hfill n hn, if_neg (lt_irrefl n)]
      obtain ⟨hkeys, hsame⟩ := act_create (c := c.acts as) (t := t) hn
        (by rw [hnext]; decide)
        (fun i hi => by rw [hfill i (hi.trans hn), if_pos hi]; decide)
      refine ⟨as ++ [.call t (.keyCreate 0)], hstore.append ?_, fun i hi => ?_, ?_⟩
      · rintro u key v ⟨mem, hmem⟩
        simp at hmem
      · rw [acts_append]
        show (((c.acts as).act (.call t (.keyCreate 0))).keys i).seq = _
        rw [hkeys]
        by_cases hin : i = n
        · subst hin
          rw [Function.update_self, hnext, if_pos (Nat.lt_succ_self i)]
          rfl
        · rw [Function.update_of_ne hin, hfill i hi]
          have hiff : i < n ↔ i < n + 1 := by omega
          simp only [hiff]
      · rw [acts_append]
        exact hsame.trans hthread

/-- When a key is deleted and created again, its number grows by 2. -/
theorem exists_renewed (t : T) (hkey : key < PTHREAD_KEYS_MAX)
    (hused : ∀ i ≤ key, unusedP (c.keys i).seq = false) (n : ℕ) :
    ∃ as : List (Action T), Storeless as ∧
      ((c.acts as).keys key).seq = (c.keys key).seq + BitVec.ofNat 32 (2 * n) ∧
      (∀ i ≤ key, unusedP ((c.acts as).keys i).seq = false) ∧
      (c.acts as).thread = c.thread := by
  induction n with
  | zero => exact ⟨[], .nil, by simp [Config.acts], hused, rfl⟩
  | succ n ih =>
      obtain ⟨as, hstore, hseq, hused', hthread⟩ := ih
      obtain ⟨hkeys₁, hsame₁⟩ :=
        act_delete (c := c.acts as) (t := t) hkey (hused' key le_rfl)
      generalize hc₁ : (c.acts as).act (.call t (.keyDelete key)) = c₁ at hkeys₁ hsame₁
      have hseq₁ : (c₁.keys key).seq = ((c.acts as).keys key).seq + 1 := by
        rw [hkeys₁, Function.update_self]
      obtain ⟨hkeys₂, hsame₂⟩ := act_create (c := c₁) (t := t) hkey
        (by rw [hseq₁, unusedP_add_one, hused' key le_rfl]; rfl)
        (fun i hi => by rw [hkeys₁, Function.update_of_ne hi.ne]; exact hused' i hi.le)
      generalize hc₂ : c₁.act (.call t (.keyCreate 0)) = c₂ at hkeys₂ hsame₂
      have hseq₂ : (c₂.keys key).seq = (c₁.keys key).seq + 1 := by
        rw [hkeys₂, Function.update_self]
      have hacts : c.acts (as ++ [.call t (.keyDelete key), .call t (.keyCreate 0)]) = c₂ := by
        rw [acts_append, ← hc₂, ← hc₁]
        rfl
      refine ⟨as ++ [.call t (.keyDelete key), .call t (.keyCreate 0)], hstore.append ?_, ?_⟩
      · rintro u k v ⟨mem, hmem⟩
        simp at hmem
      rw [hacts]
      refine ⟨?_, fun i hi => ?_, ?_⟩
      · rw [hseq₂, hseq₁, hseq]
        bv_omega
      · by_cases hik : i = key
        · subst hik
          rw [hseq₂, hseq₁, unusedP_add_one, unusedP_add_one, Bool.not_not]
          exact hused' i hi
        · rw [hkeys₂, Function.update_of_ne hik, hkeys₁, Function.update_of_ne hik]
          exact hused' i hi
      · rw [hsame₂, hsame₁, hthread]

/-- The table of a child gives any key any number of a key in use, and the child stores
nothing for it. -/
theorem exists_seq (t : T) (hzero : Filled 0 c.keys) (hkey : key < PTHREAD_KEYS_MAX)
    {seq : BitVec 32} (hseq : unusedP seq = false) :
    ∃ as : List (Action T), Storeless as ∧ ((c.acts as).keys key).seq = seq ∧
      (c.acts as).thread = c.thread := by
  obtain ⟨as, hstore, hfill, hthread⟩ := exists_filled t hzero (Nat.succ_le_of_lt hkey)
  obtain ⟨as', hstore', hseq', -, hthread'⟩ := exists_renewed (c := c.acts as) t hkey
    (fun i hi => by
      rw [hfill i (lt_of_le_of_lt hi hkey), if_pos (Nat.lt_succ_of_le hi)]
      decide) (seq.toNat / 2)
  refine ⟨as ++ as', hstore.append hstore', ?_, ?_⟩
  · rw [acts_append, hseq', hfill key hkey, if_pos (Nat.lt_succ_self key)]
    have hodd := unusedP_iff seq
    rw [hseq] at hodd
    have hlt := seq.isLt
    rw [← BitVec.toNat_inj, BitVec.toNat_add, BitVec.toNat_ofNat]
    show (1 + 2 * (seq.toNat / 2) % 2 ^ 32) % 2 ^ 32 = seq.toNat
    have hodd' : seq.toNat % 2 ≠ 0 := by simpa using hodd
    omega
  · rw [acts_append, hthread', hthread]

/-! ### The children of a process -/

/-- The values that the parent stored stay out of the child exactly when the thread that
forks has none in any of its slots, whatever the threads of the parent did before. -/
theorem fork_clean_iff (h : processMachine.Reach c) (t : T) :
    NoLeak (c.fork t) ↔ ∀ key, ((c.thread t).cell key).data = 0 := by
  constructor
  · intro hleak key
    by_contra hd
    have hzero : Filled 0 (c.fork t).keys := by
      intro i hi
      show (if i < PTHREAD_KEYS_MAX then (⟨0, 0⟩ : Key) else c.keys i).seq = _
      rw [if_pos hi, if_neg (Nat.not_lt_zero i)]
    have hsame : (c.fork t).thread t = c.thread t := by
      show Function.update (fun _ => Thread.init) t (c.thread t) t = c.thread t
      rw [Function.update_self]
    obtain ⟨hkey, hused⟩ := cell_used (stored_of_reach h t) hd
    obtain ⟨as, hstore, hseq, hthread⟩ := exists_seq t hzero hkey hused
    -- The key has the number of the old value now, and so the old value is valid.
    have hread : ((c.fork t).acts as).reads t key = ((c.thread t).cell key).data := by
      show (getspecific key _ _).1 = _
      rw [getspecific_fst, hthread, hsame, hseq]
      exact reading_self _ _
    refine hstore t key _ (hleak.read as t key ?_)
    rw [hread]
    exact hd
  · exact noLeak_of_clean

/-- A process before its first call. -/
def Config.start : Config T := ⟨fun _ => ⟨0, 0⟩, fun _ => Thread.init, []⟩

/-- Actions of a process lead to a state that is reached. -/
theorem reach_start (as : List (Action T)) :
    processMachine.Reach ((Config.start : Config T).acts as) := by
  induction as using List.reverseRecOn with
  | nil => exact .init ⟨fun _ _ => rfl, fun _ => rfl, rfl⟩
  | append_singleton as a ih =>
      rw [acts_append]
      exact ih.step (a := a) trivial rfl

/-- A parent that creates a key and sets it. -/
def setKey : List (Action Unit) :=
  [.call () (.keyCreate 1), .call () (.setspecific 0 7 true)]

/-- When the parent sets the key back to NULL before it forks, the child is clean. -/
theorem fork_clean_after_reset :
    NoLeak ((Config.start.acts (setKey ++ [.call () (.setspecific 0 0 true)])).fork ()) := by
  apply (fork_clean_iff (reach_start _) ()).mpr
  intro key
  by_cases hkey : key < PTHREAD_KEYS_MAX
  · revert key
    decide +kernel
  · simp only [Thread.cell, hkey, ↓reduceDIte]

/-- The child creates its first key. -/
def firstKey : List (Action Unit) := [.call () (.keyCreate 9)]

/-- When the parent sets its key to 7 and forks, the first key of the child reads 7, which
the child has not stored, and the destructor of this key gets it. -/
theorem fork_leaks :
    (((Config.start.acts setKey).fork ()).acts firstKey).reads () 0 = 7 ∧
    (walk (fun _ _ _ _ => []) ⟨(((Config.start.acts setKey).fork ()).acts firstKey).keys,
        (((Config.start.acts setKey).fork ()).acts firstKey).thread ()⟩).visits.map
      (fun v => (v.key, v.call)) = [(0, some (9, 7))] ∧
    ¬ NoLeak ((Config.start.acts setKey).fork ()) := by
  have hread : (((Config.start.acts setKey).fork ()).acts firstKey).reads () 0 = 7 := by
    decide +kernel
  refine ⟨hread, by decide +kernel, fun h => ?_⟩
  have hstored := h.read firstKey () 0
  rw [hread] at hstored
  obtain ⟨mem, hmem⟩ := hstored (by decide)
  simp [firstKey] at hmem

end Hlpt.Tsd
