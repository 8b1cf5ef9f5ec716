import Hlpt.Keys.Model

/-!
# `Hlpt.Keys.Paired`: creations and deletions of a key take turns

A slot is in use when its sequence number is odd. `pthread_key_create` makes it odd with a
compare-and-swap from an even value. `pthread_key_delete` looks whether it is odd and adds
one later, whatever is there then. When two calls look at the same key before either of
them adds, the second addition takes the slot for nobody.

* `inv_step`: the two take turns as long as every addition meets a key in use.
* `deletedTwice_of_add`: an addition that does not is the second one behind a creation.
* `keys_paired_iff`: so this is the exact condition on a run.
* `deletes_overlap`: two calls that delete one key, both with the result 0.
-/

set_option autoImplicit false

namespace Hlpt.Keys

open Hlpt.Lib Hlpt.Tsd

universe u

/-! ### Events that take turns -/

/-- The events of a slot take turns, beginning with a creation. The second argument says
whether the slot is in use after them. -/
inductive Alternates : List Event → Bool → Prop
  | nil : Alternates [] false
  | create {log : List Event} (h : Alternates log false) : Alternates (.create :: log) true
  | delete {log : List Event} (h : Alternates log true) : Alternates (.delete :: log) false

/-- Between two creations there is a deletion. -/
theorem Alternates.between_creates {log : List Event} {used : Bool} (h : Alternates log used)
    {l₁ l₂ l₃ : List Event} (heq : log = l₁ ++ .create :: (l₂ ++ .create :: l₃)) :
    .delete ∈ l₂ := by
  induction h generalizing l₁ with
  | nil => simp at heq
  | @create log h ih =>
      cases l₁ with
      | nil =>
          -- The event before this creation is a deletion.
          obtain ⟨-, rfl⟩ := List.cons.inj heq
          cases l₂ with
          | nil => nomatch h
          | cons e l₂ =>
              cases h
              exact List.mem_cons_self
      | cons e l₁ => exact ih (List.cons.inj heq).2
  | @delete log h ih =>
      cases l₁ with
      | nil => cases (List.cons.inj heq).1
      | cons e l₁ => exact ih (List.cons.inj heq).2

/-- Between two deletions there is a creation. -/
theorem Alternates.between_deletes {log : List Event} {used : Bool} (h : Alternates log used)
    {l₁ l₂ l₃ : List Event} (heq : log = l₁ ++ .delete :: (l₂ ++ .delete :: l₃)) :
    .create ∈ l₂ := by
  induction h generalizing l₁ with
  | nil => simp at heq
  | @create log h ih =>
      cases l₁ with
      | nil => cases (List.cons.inj heq).1
      | cons e l₁ => exact ih (List.cons.inj heq).2
  | @delete log h ih =>
      cases l₁ with
      | nil =>
          -- The event before this deletion is a creation.
          obtain ⟨-, rfl⟩ := List.cons.inj heq
          cases l₂ with
          | nil => nomatch h
          | cons e l₂ =>
              cases h
              exact List.mem_cons_self
      | cons e l₁ => exact ih (List.cons.inj heq).2

/-- After a deletion the slot is not in use. -/
theorem Alternates.unused_of_delete {log : List Event} {used : Bool}
    (h : Alternates (.delete :: log) used) : used = false := by
  cases h
  rfl

/-! ### The property of the table -/

/-- No two creations of a key without a deletion in between, no two deletions without a
creation in between, and a key that was deleted stays unused until it is created. -/
structure Paired (m : Mem) : Prop where
  creates : ∀ k l₁ l₂ l₃, m.log k = l₁ ++ .create :: (l₂ ++ .create :: l₃) → .delete ∈ l₂
  deletes : ∀ k l₁ l₂ l₃, m.log k = l₁ ++ .delete :: (l₂ ++ .delete :: l₃) → .create ∈ l₂
  unused : ∀ k log, m.log k = .delete :: log → unusedP (m.keys k).seq

/-- In every slot the events take turns, and its sequence number tells whose turn it is. -/
def Counted (m : Mem) : Prop :=
  ∀ k, Alternates (m.log k) (!unusedP (m.keys k).seq)

theorem Counted.paired {m : Mem} (h : Counted m) : Paired m where
  creates k _ _ _ heq := (h k).between_creates heq
  deletes k _ _ _ heq := (h k).between_deletes heq
  unused k log heq := by
    have hk := h k
    rw [heq] at hk
    simpa using hk.unused_of_delete

/-- The next sequence number is used when this one is not. -/
theorem unusedP_add_one (seq : BitVec 32) : unusedP (seq + 1) = !unusedP seq := by
  have hiff : ∀ x : BitVec 32, unusedP x = true ↔ x.toNat % 2 = 0 := by
    intro x
    rw [unusedP, beq_iff_eq, ← BitVec.toNat_inj, BitVec.toNat_umod]
    rfl
  have hnext : (seq + 1).toNat = (seq.toNat + 1) % 2 ^ 32 := BitVec.toNat_add seq 1
  by_cases h : seq.toNat % 2 = 0
  · rw [(hiff seq).mpr h, Bool.not_true, ← Bool.not_eq_true, hiff, hnext]
    omega
  · rw [Bool.eq_false_iff.mpr (mt (hiff seq).mp h), Bool.not_false, hiff, hnext]
    omega

/-- What happens to one slot leaves the others. -/
theorem Counted.write {m : Mem} (h : Counted m) {k : ℕ} {seq : BitVec 32} {e : Event}
    (hk : Alternates (e :: m.log k) (!unusedP seq)) : Counted (m.write k seq e) := by
  intro j
  by_cases hj : j = k
  · subst hj
    simpa [Mem.write] using hk
  · simpa [Mem.write, hj] using h j

variable {T : Type u}

/-- The addition of `pthread_key_delete`, if this is the next access, meets a key that is in
use. -/
def InUse (m : Mem) : Pc → Prop
  | .add key => unusedP (m.keys key).seq = false
  | _ => True

instance (m : Mem) (pc : Pc) : Decidable (InUse m pc) :=
  match pc with
  | .add key => inferInstanceAs (Decidable (unusedP (m.keys key).seq = false))
  | .idle _ | .load _ _ | .cas _ _ _ | .store _ _ | .check _ => isTrue trivial

/-- The condition on a step. -/
def AddsInUse (s : Global T Mem Pc) (a : T × Call) : Prop :=
  InUse s.mem (s.loc a.1)

instance (s : Global T Mem Pc) (a : T × Call) : Decidable (AddsInUse s a) :=
  inferInstanceAs (Decidable (InUse s.mem (s.loc a.1)))

/-- What a thread remembers of a slot: the compare-and-swap expects an even value, and the
addition is for a key that was created. -/
def Remembers (m : Mem) : Pc → Prop
  | .cas _ seq _ => unusedP seq
  | .add key => m.log key ≠ []
  | _ => True

/-- Every slot is counted, and the threads remember it. -/
structure Inv (s : Global T Mem Pc) : Prop where
  counted : Counted s.mem
  remembers : ∀ t, Remembers s.mem (s.loc t)

/-- The log only grows, so what a thread remembers stays true. -/
theorem Remembers.write {m : Mem} {pc : Pc} (h : Remembers m pc) (k : ℕ) (seq : BitVec 32)
    (e : Event) : Remembers (m.write k seq e) pc := by
  cases pc with
  | add key =>
      show (Function.update m.log k (e :: m.log k)) key ≠ []
      by_cases hk : key = k
      · subst hk
        simp
      · rw [Function.update_of_ne hk]
        exact h
  | _ => exact h

theorem Remembers.congr {m m' : Mem} {pc : Pc} (h : Remembers m pc) (hlog : m'.log = m.log) :
    Remembers m' pc := by
  cases pc with
  | add key =>
      show m'.log key ≠ []
      rw [hlog]
      exact h
  | _ => exact h

theorem inv_init {s : Global T Mem Pc} (h : IsInit s) : Inv s := by
  refine ⟨fun k => ?_, fun t => ?_⟩
  · obtain ⟨hkey, hlog⟩ := h.1 k
    rw [hkey, hlog]
    exact .nil
  · rw [h.2 t]
    trivial

/-- A slot in use was created. -/
theorem Counted.ne_nil {m : Mem} (h : Counted m) {k : ℕ} (hused : unusedP (m.keys k).seq = false) :
    m.log k ≠ [] := by
  intro hnil
  have hk := h k
  rw [hnil, hused] at hk
  nomatch hk

variable [DecidableEq T]

/-- One step keeps the invariant, when an addition in it meets a key in use. -/
theorem inv_step {s : Global T Mem Pc} {t : T} {call : Call} {m : Mem} {pc : Pc} (hs : Inv s)
    (hok : AddsInUse s (t, call)) (h : exec t call s.mem (s.loc t) = some (m, pc)) :
    Inv ⟨m, Function.update s.loc t pc⟩ := by
  have hself := hs.remembers t
  have heffect := effect_of_exec h
  have hok : InUse s.mem (s.loc t) := hok
  generalize s.loc t = p at heffect hself hok
  cases heffect with
  | quiet hpc hseq hlog hcas hadd =>
      refine ⟨fun k => ?_, forall_loc_iff.mpr ⟨?_, fun u _ => ?_⟩⟩
      · rw [hlog, hseq]
        exact hs.counted k
      · cases pc with
        | cas i seq destr => exact hcas i seq destr rfl
        | add key =>
            show m.log key ≠ []
            rw [hlog]
            exact hs.counted.ne_nil (hadd key rfl)
        | _ => trivial
      · exact (hs.remembers u).congr hlog
  | create i destr =>
      have hunused : unusedP (s.mem.keys i).seq = true := hself
      have hlog := hs.counted i
      rw [hunused] at hlog
      refine ⟨hs.counted.write ?_, forall_loc_iff.mpr ⟨trivial, fun u _ => ?_⟩⟩
      · rw [unusedP_add_one, hunused]
        exact .create hlog
      · exact (hs.remembers u).write _ _ _
  | delete key =>
      have hused : unusedP (s.mem.keys key).seq = false := hok
      have hlog := hs.counted key
      rw [hused] at hlog
      refine ⟨hs.counted.write ?_, forall_loc_iff.mpr ⟨trivial, fun u _ => ?_⟩⟩
      · rw [unusedP_add_one, hused]
        exact .delete hlog
      · exact (hs.remembers u).write _ _ _

/-! ### An addition that comes too late -/

/-- A key was deleted twice, with no creation in between. -/
def DeletedTwice (m : Mem) : Prop :=
  ∃ k l₁ l₂, m.log k = l₁ ++ .delete :: .delete :: l₂

omit [DecidableEq T] in
theorem DeletedTwice.not_paired {m : Mem} (h : DeletedTwice m) : ¬ Paired m := by
  intro hpaired
  obtain ⟨k, l₁, l₂, heq⟩ := h
  exact List.not_mem_nil (hpaired.deletes k l₁ [] l₂ heq)

omit [DecidableEq T] in
/-- What happens later does not undo it. -/
theorem DeletedTwice.write {m : Mem} (h : DeletedTwice m) (k : ℕ) (seq : BitVec 32)
    (e : Event) : DeletedTwice (m.write k seq e) := by
  obtain ⟨j, l₁, l₂, heq⟩ := h
  by_cases hj : j = k
  · subst hj
    refine ⟨j, e :: l₁, l₂, ?_⟩
    simp [Mem.write, heq]
  · refine ⟨j, l₁, l₂, ?_⟩
    simp [Mem.write, hj, heq]

omit [DecidableEq T] in
/-- An addition to a key that is not in use is the second one: the event before it in the
slot was a deletion, too. -/
theorem deletedTwice_of_add {s : Global T Mem Pc} {t : T} {call : Call} {m : Mem} {pc : Pc}
    (hs : Inv s) (hnot : ¬ AddsInUse s (t, call))
    (h : exec t call s.mem (s.loc t) = some (m, pc)) : DeletedTwice m := by
  have hself := hs.remembers t
  have heffect := effect_of_exec h
  have hnot : ¬ InUse s.mem (s.loc t) := hnot
  generalize s.loc t = p at heffect hself hnot
  cases heffect with
  | quiet hpc hseq hlog hcas hadd =>
      exfalso
      cases p with
      | add key => exact hpc key rfl
      | _ => exact hnot trivial
  | create i destr => exact absurd trivial hnot
  | delete key =>
      have hunused : unusedP (s.mem.keys key).seq = true := by
        simpa [InUse] using hnot
      have hne : s.mem.log key ≠ [] := hself
      have hlog := hs.counted key
      rw [hunused] at hlog
      generalize heq : s.mem.log key = log at hlog hne
      cases hlog with
      | nil => exact absurd rfl hne
      | @delete log hlog => exact ⟨key, [], log, by simp [Mem.write, heq]⟩

omit [DecidableEq T] in
theorem DeletedTwice.step {t : T} {call : Call} {m m' : Mem} {pc pc' : Pc}
    (hm : DeletedTwice m) (h : exec t call m pc = some (m', pc')) : DeletedTwice m' := by
  cases effect_of_exec h with
  | quiet hpc hseq hlog hcas hadd =>
      unfold DeletedTwice
      rw [hlog]
      exact hm
  | create i destr => exact hm.write _ _ _
  | delete key => exact hm.write _ _ _

/-- In every run, the creations and the deletions of every key take turns if and only if each
addition of `pthread_key_delete` meets a key that is in use. -/
theorem keys_paired_iff {s s' : Global T Mem Pc} (hinit : IsInit s) {as : List (T × Call)}
    (hrun : machine.run s as = some s') :
    Paired s'.mem ↔ machine.runVia AddsInUse s as = some s' := by
  have hok : ∀ (s : Global T Mem Pc) a s', Inv s → AddsInUse s a →
      machine.step s a = some s' → Inv s' := by
    intro s a s' hs hok hstep
    obtain ⟨m, pc, hexec, rfl⟩ := Exec.machine_step_eq_some.mp hstep
    exact inv_step hs hok hexec
  have hnot : ∀ (s : Global T Mem Pc) a s', Inv s → ¬ AddsInUse s a → machine.step s a = some s' →
      DeletedTwice s'.mem := by
    intro s a s' hs hnot hstep
    obtain ⟨m, pc, hexec, rfl⟩ := Exec.machine_step_eq_some.mp hstep
    exact deletedTwice_of_add hs hnot hexec
  have hkeep : ∀ (s : Global T Mem Pc) a s', DeletedTwice s.mem → machine.step s a = some s' →
      DeletedTwice s'.mem := by
    intro s a s' hs hstep
    obtain ⟨m, pc, hexec, rfl⟩ := Exec.machine_step_eq_some.mp hstep
    exact DeletedTwice.step hs hexec
  rcases Machine.run_cases hok hnot hkeep (inv_init hinit) hrun with ⟨hvia, hinv⟩ | ⟨hvia, htwice⟩
  · exact iff_of_true hinv.counted.paired hvia
  · rw [hvia]
    exact iff_of_false htwice.not_paired (Option.some_ne_none s').symm

/-! ### Two calls that overlap -/

/-- The table at the start, with two threads. -/
def start : Global Bool Mem Pc :=
  ⟨⟨fun _ => ⟨0, 0⟩, fun _ => []⟩, fun _ => .idle none⟩

theorem start_isInit : IsInit start :=
  ⟨fun _ => ⟨rfl, rfl⟩, fun _ => rfl⟩

/-- A thread creates a key, looks whether it is in use, and deletes it. -/
def createDelete : List (Bool × Call) :=
  (false, .create 0) :: List.replicate 3 (false, .delete 0) ++ List.replicate 3 (false, .delete 0)

theorem keys_paired_create_delete :
    ∃ s, machine.run start createDelete = some s ∧ Paired s.mem := by
  have hsome : (machine.run start createDelete).isSome = true := by decide
  obtain ⟨s, hs⟩ := Option.isSome_iff_exists.mp hsome
  have hvia : machine.runVia AddsInUse start createDelete = machine.run start createDelete := rfl
  exact ⟨s, hs, (keys_paired_iff start_isInit hs).mpr (hvia.trans hs)⟩

/-- Both threads look at the key 0 before either of them adds. Both calls return 0, and the
key is in use afterwards, with nobody who created it. -/
theorem deletes_overlap :
    ∃ s : Global Bool Mem Pc, machine.Reach s ∧ s.loc true = .idle (some (.ok, none)) ∧
      s.loc false = .idle (some (.ok, none)) ∧ s.mem.log 0 = [.delete, .delete, .create] ∧
      unusedP (s.mem.keys 0).seq = false ∧ ¬ Paired s.mem := by
  have hrun : ∃ s : Global Bool Mem Pc, machine.Reach s ∧
      (s.loc true = .idle (some (.ok, none)) ∧ s.loc false = .idle (some (.ok, none)) ∧
        s.mem.log 0 = [.delete, .delete, .create] ∧ unusedP (s.mem.keys 0).seq = false) :=
    machine.exists_reach start_isInit
      ((false, .create 0) :: List.replicate 3 (false, .delete 0) ++
        [(false, .delete 0), (false, .delete 0), (true, .delete 0), (true, .delete 0),
          (false, .delete 0), (true, .delete 0)]) _ (by decide)
  obtain ⟨s, hs, htrue, hfalse, hlog, hused⟩ := hrun
  have htwice : DeletedTwice s.mem := ⟨0, [], [.create], hlog⟩
  exact ⟨s, hs, htrue, hfalse, hlog, hused, htwice.not_paired⟩

end Hlpt.Keys
