import Hlpt.Lib.Machine
import Mathlib.Algebra.BigOperators.Fin
import Mathlib.Algebra.Order.BigOperators.Group.Finset
import Mathlib.Logic.Function.Basic

/-!
# `Hlpt.Lib.Threads`: threads that interleave over a shared memory

A `Program` gives the atomic step of one thread: from the shared memory and the
thread's local state to the next ones. `exec t c m l` is `none` when the thread
`t` cannot move under the choice `c` of its environment. The `machine` of a
program runs the steps of all threads in any order.

The invariants of such machines speak about all threads at once. These rules
reduce them to the thread that moved:

* `forall_loc_iff`: a statement about every thread after one local state changed, and
  `exists_loc_update`: one about some other thread.
* `unique_update`: a property that at most one thread has.
* `sum_update`: how a count over the threads changes.
-/

set_option autoImplicit false

namespace Hlpt.Lib

universe u v w x

/-- The state of a machine of threads: the shared memory and one local state for
each thread. -/
structure Global (T : Type u) (μ : Type v) (l : Type w) where
  mem : μ
  loc : T → l

/-- One atomic step of a thread. `none` means that the thread cannot move. -/
abbrev Exec (T : Type u) (ε : Type x) (μ : Type v) (l : Type w) :=
  T → ε → μ → l → Option (μ × l)

section Machine

variable {T : Type u} {ε : Type x} {μ : Type v} {l : Type w} [DecidableEq T]

/-- The machine whose actions are the steps of the single threads. -/
def Exec.machine (exec : Exec T ε μ l) (init : Global T μ l → Prop) :
    Machine (Global T μ l) (T × ε) where
  init := init
  step s a := (exec a.1 a.2 s.mem (s.loc a.1)).map fun r =>
    ⟨r.1, Function.update s.loc a.1 r.2⟩

/-- What a step of the machine does: the thread that moves gets its new local
state, and every other thread keeps its own. -/
theorem Exec.machine_step_eq_some {exec : Exec T ε μ l} {init : Global T μ l → Prop}
    {s s' : Global T μ l} {a : T × ε} :
    (exec.machine init).step s a = some s' ↔
      ∃ m p, exec a.1 a.2 s.mem (s.loc a.1) = some (m, p) ∧
        s' = ⟨m, Function.update s.loc a.1 p⟩ := by
  simp only [Exec.machine, Option.map_eq_some_iff, Prod.exists]
  constructor
  · rintro ⟨m, p, h, rfl⟩
    exact ⟨m, p, h, rfl⟩
  · rintro ⟨m, p, h, rfl⟩
    exact ⟨m, p, h, rfl⟩

/-- The induction rule of a machine of threads: an invariant is shown for the
initial states and for each step of one thread. `Q` is what is already known of
every reached state. -/
theorem Exec.invariant_of {exec : Exec T ε μ l} {init : Global T μ l → Prop}
    {ok : Global T μ l → T × ε → Prop} {P Q : Global T μ l → Prop} {s : Global T μ l}
    (hQ : ∀ s, (exec.machine init).ReachVia ok s → Q s)
    (hinit : ∀ s, init s → P s)
    (hstep : ∀ (s : Global T μ l) (t : T) (c : ε) (m : μ) (p : l), Q s → P s →
      ok s (t, c) → exec t c s.mem (s.loc t) = some (m, p) →
      P ⟨m, Function.update s.loc t p⟩)
    (h : (exec.machine init).ReachVia ok s) : P s := by
  apply h.invariant_of hQ hinit
  intro s a s' hq hp ha hs
  obtain ⟨m, p, he, rfl⟩ := Exec.machine_step_eq_some.mp hs
  exact hstep s a.1 a.2 m p hq hp ha he

/-- The induction rule without a known invariant. -/
theorem Exec.invariant {exec : Exec T ε μ l} {init : Global T μ l → Prop}
    {ok : Global T μ l → T × ε → Prop} {P : Global T μ l → Prop} {s : Global T μ l}
    (hinit : ∀ s, init s → P s)
    (hstep : ∀ (s : Global T μ l) (t : T) (c : ε) (m : μ) (p : l), P s →
      ok s (t, c) → exec t c s.mem (s.loc t) = some (m, p) →
      P ⟨m, Function.update s.loc t p⟩)
    (h : (exec.machine init).ReachVia ok s) : P s :=
  Exec.invariant_of (Q := fun _ => True) (fun _ _ => trivial) hinit
    (fun s t c m p _ => hstep s t c m p) h

/-! ### A thread that moves alone -/

/-- What the memory and the thread `t` become when it takes a step for each choice, and
no other thread moves. -/
def Exec.alone (exec : Exec T ε μ l) (t : T) : List ε → μ × l → Option (μ × l)
  | [], x => some x
  | c :: cs, x => (exec t c x.1 x.2).bind (alone exec t cs)

omit [DecidableEq T] in
/-- A step, and then a run. -/
theorem Exec.alone_cons {exec : Exec T ε μ l} {t : T} {c : ε} {cs : List ε} {m : μ} {p : l}
    {y : μ × l} {r : Option (μ × l)} (h : exec t c m p = some y) (h' : exec.alone t cs y = r) :
    exec.alone t (c :: cs) (m, p) = r := by
  rw [Exec.alone, h, Option.bind_some]
  exact h'

omit [DecidableEq T] in
/-- Two runs of one thread alone, one after the other. -/
theorem Exec.alone_append {exec : Exec T ε μ l} {t : T} {cs cs' : List ε} {x y : μ × l}
    {r : Option (μ × l)} (h : exec.alone t cs x = some y) (h' : exec.alone t cs' y = r) :
    exec.alone t (cs ++ cs') x = r := by
  induction cs generalizing x with
  | nil =>
      cases h
      exact h'
  | cons c cs ih =>
      obtain ⟨z, hz, hrest⟩ := Option.bind_eq_some_iff.mp h
      rw [List.cons_append, Exec.alone, hz, Option.bind_some]
      exact ih hrest

/-- A run of the steps of one thread is what the thread does alone. -/
theorem Exec.run_alone {exec : Exec T ε μ l} {init : Global T μ l → Prop} {t : T} (cs : List ε)
    (s : Global T μ l) :
    (exec.machine init).run s (cs.map (t, ·)) =
      (exec.alone t cs (s.mem, s.loc t)).map fun r => ⟨r.1, Function.update s.loc t r.2⟩ := by
  induction cs generalizing s with
  | nil =>
      show some s = some (Global.mk s.mem (Function.update s.loc t (s.loc t)))
      rw [Function.update_eq_self]
  | cons c cs ih =>
      rw [List.map_cons, Machine.run, Machine.runVia, if_pos trivial, Exec.alone]
      show ((exec t c s.mem (s.loc t)).map _).bind _ = _
      cases exec t c s.mem (s.loc t) with
      | none => rfl
      | some r =>
          refine (ih ⟨r.1, Function.update s.loc t r.2⟩).trans ?_
          simp only [Function.update_self, Function.update_idem]
          rfl

/-- A reached state is left by the steps of one thread alone, if its choices meet the
condition in every state. -/
theorem Exec.reachVia_alone {exec : Exec T ε μ l} {init : Global T μ l → Prop}
    {ok : Global T μ l → T × ε → Prop} {t : T} {cs : List ε} {s : Global T μ l} {m : μ}
    {p p' : l} (hs : (exec.machine init).ReachVia ok s) (hp : s.loc t = p)
    (hok : ∀ c ∈ cs, ∀ s, ok s (t, c)) (h : exec.alone t cs (s.mem, p) = some (m, p')) :
    (exec.machine init).ReachVia ok ⟨m, Function.update s.loc t p'⟩ := by
  subst hp
  induction cs generalizing s with
  | nil =>
      simp only [Exec.alone, Option.some.injEq, Prod.mk.injEq] at h
      obtain ⟨rfl, rfl⟩ := h
      rwa [Function.update_eq_self]
  | cons c cs ih =>
      obtain ⟨⟨m₁, p₁⟩, h₁, h₂⟩ := Option.bind_eq_some_iff.mp h
      have hstep : (exec.machine init).step s (t, c) =
          some ⟨m₁, Function.update s.loc t p₁⟩ :=
        Exec.machine_step_eq_some.mpr ⟨m₁, p₁, h₁, rfl⟩
      have hc : ok s (t, c) := hok c List.mem_cons_self s
      have hrest : ∀ d ∈ cs, ∀ s, ok s (t, d) := fun d hd => hok d (List.mem_cons_of_mem c hd)
      have hnext := ih (hs.step hc hstep) hrest (by simpa using h₂)
      rwa [Function.update_idem] at hnext

/-- A reachable state is left by the steps of one thread alone. -/
theorem Exec.reach_alone {exec : Exec T ε μ l} {init : Global T μ l → Prop} {t : T}
    {cs : List ε} {s : Global T μ l} {m : μ} {p p' : l} (hs : (exec.machine init).Reach s)
    (hp : s.loc t = p) (h : exec.alone t cs (s.mem, p) = some (m, p')) :
    (exec.machine init).Reach ⟨m, Function.update s.loc t p'⟩ :=
  Exec.reachVia_alone hs hp (fun _ _ _ => trivial) h

end Machine

/-! ### Statements about every thread -/

section Update

variable {T : Type u} {l : Type w} [DecidableEq T]

/-- A statement about every thread after `t` moved: about `t` with its new local
state, and about every other thread as before. -/
theorem forall_loc_iff {P : T → l → Prop} {f : T → l} {t : T} {p : l} :
    (∀ u, P u (Function.update f t p u)) ↔ P t p ∧ ∀ u, u ≠ t → P u (f u) :=
  Function.forall_update_iff f P

/-- The induction rule for a property of the single local states. -/
theorem Exec.invariant_loc {ε : Type x} {μ : Type v} {exec : Exec T ε μ l}
    {init : Global T μ l → Prop} {ok : Global T μ l → T × ε → Prop} {P : l → Prop}
    {s : Global T μ l} (hinit : ∀ s t, init s → P (s.loc t))
    (hstep : ∀ t c m p m' p', P p → exec t c m p = some (m', p') → P p')
    (h : (exec.machine init).ReachVia ok s) (t : T) : P (s.loc t) := by
  revert t
  refine Exec.invariant (P := fun s => ∀ t, P (s.loc t)) (fun s hs t => hinit s t hs) ?_ h
  intro s t c m p hp _ he
  exact forall_loc_iff.mpr ⟨hstep t c s.mem (s.loc t) m p (hp t) he, fun u _ => hp u⟩

/-- A thread that has a property keeps it when another one moves. -/
theorem exists_loc_update {P : T → l → Prop} {f : T → l} {t : T} {p : l}
    (h : ∃ u, P u (f u)) (ht : ¬ P t (f t)) : ∃ u, u ≠ t ∧ P u (Function.update f t p u) := by
  obtain ⟨u, hu⟩ := h
  have hne : u ≠ t := by
    rintro rfl
    exact ht hu
  exact ⟨u, hne, by rwa [Function.update_of_ne hne]⟩

/-- At most one thread has the property, after a move that gives it only to a thread
that had it, or when no other thread has it. -/
theorem unique_update {P : l → Prop} {f : T → l} {t : T} {p : l}
    (h : ∀ u v, P (f u) → P (f v) → u = v)
    (hp : P p → P (f t) ∨ ∀ u, u ≠ t → ¬ P (f u)) {u v : T}
    (hu : P (Function.update f t p u)) (hv : P (Function.update f t p v)) : u = v := by
  -- The thread that moved is the only one.
  have halone : ∀ w, P p → P (f w) → w = t := by
    intro w hpp hw
    rcases hp hpp with ht | hnone
    · exact h w t hw ht
    · by_contra hne
      exact hnone w hne hw
  by_cases hut : u = t <;> by_cases hvt : v = t
  · rw [hut, hvt]
  · subst hut
    rw [Function.update_self] at hu
    rw [Function.update_of_ne hvt] at hv
    exact (halone v hu hv).symm
  · subst hvt
    rw [Function.update_self] at hv
    rw [Function.update_of_ne hut] at hu
    exact halone u hv hu
  · rw [Function.update_of_ne hut] at hu
    rw [Function.update_of_ne hvt] at hv
    exact h u v hu hv

/-! ### Counts over the threads -/

variable [Fintype T]

/-- A sum over the threads after one local state changed. -/
theorem sum_update (g : l → ℕ) (f : T → l) (t : T) (p : l) :
    (∑ u, g (Function.update f t p u)) + g (f t) = (∑ u, g (f u)) + g p := by
  rw [← Finset.add_sum_erase _ _ (Finset.mem_univ t),
    ← Finset.add_sum_erase (a := t) _ (fun u => g (f u)) (Finset.mem_univ t)]
  have hrest : ∀ u ∈ Finset.univ.erase t, g (Function.update f t p u) = g (f u) :=
    fun u hu => by rw [Function.update_of_ne (Finset.ne_of_mem_erase hu)]
  rw [Finset.sum_congr rfl hrest, Function.update_self]
  omega

/-- Two different threads' shares fit into the sum together. -/
theorem add_le_sum_loc (g : l → ℕ) (f : T → l) {t u : T} (h : t ≠ u) :
    g (f t) + g (f u) ≤ ∑ u, g (f u) := by
  rw [← Finset.add_sum_erase _ _ (Finset.mem_univ t)]
  exact Nat.add_le_add_left
    (Finset.single_le_sum (f := fun u => g (f u)) (fun _ _ => Nat.zero_le _)
      (Finset.mem_erase.mpr ⟨h.symm, Finset.mem_univ u⟩)) _

end Update

section Sum

variable {T : Type u} {l : Type w} [Fintype T]

/-- One thread's share is at most the sum. -/
theorem le_sum_loc (g : l → ℕ) (f : T → l) (t : T) : g (f t) ≤ ∑ u, g (f u) :=
  Finset.single_le_sum (f := fun u => g (f u)) (fun _ _ => Nat.zero_le _) (Finset.mem_univ t)

/-- When every other thread has no share, the sum is the share of the one. -/
theorem sum_loc_eq_of_alone {g : l → ℕ} {f : T → l} {t : T}
    (h : ∀ u, u ≠ t → g (f u) = 0) : ∑ u, g (f u) = g (f t) :=
  Finset.sum_eq_single t (fun u _ hu => h u hu) fun ht => absurd (Finset.mem_univ t) ht

end Sum

/-! ### The threads of a concrete run -/

-- With these instances the numbers of the threads are the same terms in every module.
instance neZero_two : NeZero 2 := ⟨by decide⟩
instance neZero_three : NeZero 3 := ⟨by decide⟩
instance neZero_four : NeZero 4 := ⟨by decide⟩

/-- The ids 1 and 2 are distinct. -/
theorem ids_inj_two :
    ∀ t u : Fin 2, BitVec.ofNat 32 (t + 1) = BitVec.ofNat 32 (u + 1) → t = u := by decide

/-- The ids 1, 2 and 3 are distinct. -/
theorem ids_inj_three :
    ∀ t u : Fin 3, BitVec.ofNat 32 (t + 1) = BitVec.ofNat 32 (u + 1) → t = u := by decide

/-- The ids 1, 2 and 3 are not null. -/
theorem ids_ne_three : ∀ t : Fin 3, BitVec.ofNat 32 (t + 1) ≠ 0 := by decide

theorem first_ne_three : ∀ t : Fin 3, (if t = 0 then 1 else 2 : BitVec 32) ≠ 0 := by decide

theorem last_ne_three : ∀ t : Fin 3, (if t = 2 then 2 else 1 : BitVec 32) ≠ 0 := by decide

theorem id_one_ne : (1 : BitVec 32) ≠ 0 := by decide

end Hlpt.Lib
