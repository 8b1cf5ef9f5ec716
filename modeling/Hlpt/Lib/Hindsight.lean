import Hlpt.Lib.Linear

/-!
# `Hlpt.Lib.Hindsight`: results that are decided after their instant

A call that fails often finds out late: it read a word, and what it read would have been a
reason to fail at that time, but whether the call fails depends on what it meets afterwards.
By then the reason may be gone. Its instant is in the past.

A result that changes nothing may have its instant at any point since the invocation at
which the object allowed it (`Object.Seen`). No other call notices.

* `Object.Marked.insert`: such a result can be marked at its instant afterwards.
* `Exec.History.linearizable_of_past`: the rule of `Hlpt.Lib.Linear`, where a step may
  also end its call with a result that was seen.
-/

set_option autoImplicit false

namespace Hlpt.Lib

universe u v w x y z k

variable {T : Type w} {σ : Type x} {Op : Type u} {Res : Type v} [DecidableEq T]

/-- The marks of two parts. -/
theorem marksOf_append (t : T) (L L' : List (T × Mark Op Res)) :
    marksOf t (L ++ L') = marksOf t L ++ marksOf t L' := List.filterMap_append

/-- The mark of one thread is no mark of another one. -/
theorem marksOf_cons_of_ne {t u : T} (h : u ≠ t) (x : Mark Op Res) (L : List (T × Mark Op Res)) :
    marksOf u ((t, x) :: L) = marksOf u L := by
  have hx : (fun y : T × Mark Op Res => if y.1 = u then some y.2 else none) (t, x) = none :=
    if_neg h.symm
  exact List.filterMap_cons_none hx

theorem marksOf_map_of_ne {t u : T} (h : u ≠ t) (K : List (Mark Op Res)) :
    marksOf u (K.map (t, ·)) = [] := by
  induction K with
  | nil => rfl
  | cons x K ih => exact (marksOf_cons_of_ne h x _).trans ih

omit [DecidableEq T] in
/-- An effect is no event. -/
theorem events_insert (t : T) (o : Op) (r : Res) (L L' : List (T × Mark Op Res)) :
    events (L ++ (t, .eff o r) :: L') = events (L ++ L') := by
  rw [events, events, List.filterMap_append, List.filterMap_append]
  rfl

variable {O : Object T σ Op Res} {L L' : List (T × Mark Op Res)} {a a' : σ}
  {f f' : T → Phase Op Res} {t u : T} {o o' : Op} {r r' : Res}

/-- The call of `t` could have had the result `r` at some instant since its invocation, and
would have changed nothing. -/
def Object.Seen (O : Object T σ Op Res) (L : List (T × Mark Op Res)) (t : T) (o : Op)
    (r : Res) : Prop :=
  ∃ L₁ L₂ a f, L = L₁ ++ L₂ ∧ marksOf t L₂ = [] ∧ O.Marked L₁ a f ∧ f t = .called o ∧
    O.apply t o r a = some a

/-- It could have it now. -/
theorem Object.Marked.seen (h : O.Marked L a f) (ht : f t = .called o)
    (ha : O.apply t o r a = some a) : O.Seen L t o r :=
  ⟨L, [], a, f, (List.append_nil L).symm, rfl, h, ht, ha⟩

/-- It still could, after marks of other threads. -/
theorem Object.Seen.append (h : O.Seen L t o r) (hL' : marksOf t L' = []) :
    O.Seen (L ++ L') t o r := by
  obtain ⟨L₁, L₂, a, f, rfl, hL₂, hmarked, ht, ha⟩ := h
  refine ⟨L₁, L₂ ++ L', a, f, List.append_assoc _ _ _, ?_, hmarked, ht, ha⟩
  rw [marksOf_append, hL₂, hL', List.append_nil]

/-- There is one state to begin with. -/
def Object.OneStart (O : Object T σ Op Res) : Prop := ∀ a b, O.init a → O.init b → a = b

/-- An operation in between that changes nothing. -/
theorem run_insert (hO : O.OneStart) (hL : O.Marked L a f) (h : O.Marked (L ++ L') a' f')
    (ha : O.apply t o r a = some a) :
    ∃ a₀, O.init a₀ ∧ O.run a₀ (effects (L ++ (t, .eff o r) :: L')) = some a' := by
  obtain ⟨a₀, h₀, hrun⟩ := hL.legal
  obtain ⟨b₀, hb₀, hrun'⟩ := h.legal
  obtain rfl := hO a₀ b₀ h₀ hb₀
  refine ⟨a₀, h₀, ?_⟩
  rw [effects, List.filterMap_append, Object.run_append] at hrun'
  have happend : effects (L ++ (t, .eff o r) :: L') = effects L ++ (t, o, r) :: effects L' := by
    rw [effects, List.filterMap_append]
    rfl
  rw [happend, Object.run_append, hrun]
  rw [effects] at hrun
  rw [hrun] at hrun'
  show (O.apply t o r a).bind _ = some a'
  rw [ha]
  exact hrun'

/-- A result that changes nothing is marked at its instant, before the marks `L'` of the
other threads. -/
theorem Object.Marked.insertAt (hO : O.OneStart) (h : O.Marked (L ++ L') a' f')
    (hL : O.Marked L a f) (ht : f t = .called o) (hL' : marksOf t L' = [])
    (ha : O.apply t o r a = some a) :
    O.Marked (L ++ (t, .eff o r) :: L') a' (Function.update f' t (.done r)) := by
  have hmarks : ∀ u, marksOf u (L ++ (t, .eff o r) :: L') =
      if t = u then marksOf u L ++ [.eff o r] else marksOf u (L ++ L') := by
    intro u
    rw [List.append_cons, marksOf_append, marksOf_concat]
    split
    · next htu =>
      subst htu
      rw [hL', List.append_nil]
    · rw [marksOf_append]
  refine ⟨forall_loc_iff.mpr ⟨?_, fun u hu => ?_⟩, run_insert hO hL h ha⟩
  · rw [hmarks, if_pos rfl]
    exact (hL.calls t).concat (ht ▸ .eff o r)
  · rw [hmarks, if_neg hu.symm]
    exact h.calls u

/-- A result that was seen is marked at its instant. What the other threads have seen, they
have seen. -/
theorem Object.Marked.insert (hO : O.OneStart) (h : O.Marked L a f) (hseen : O.Seen L t o r) :
    ∃ L', events L' = events L ∧ O.Marked L' a (Function.update f t (.done r)) ∧
      ∀ u o' r', u ≠ t → O.Seen L u o' r' → O.Seen L' u o' r' := by
  obtain ⟨L₁, L₂, a₁, f₁, rfl, hL₂, hmarked, ht, ha⟩ := hseen
  refine ⟨L₁ ++ (t, .eff o r) :: L₂, events_insert t o r L₁ L₂,
    h.insertAt hO hmarked ht hL₂ ha, ?_⟩
  rintro u o' r' hu ⟨K₁, K₂, b, g, hK, hK₂, hmarked', hu', hb⟩
  -- The instant of `u` is before the one of `t`, or behind it.
  rcases List.append_eq_append_iff.mp hK with ⟨M, rfl, rfl⟩ | ⟨M, rfl, rfl⟩
  · refine ⟨L₁ ++ (t, .eff o r) :: M, K₂, b, Function.update g t (.done r), ?_, hK₂, ?_, ?_, hb⟩
    · rw [List.append_assoc]
      rfl
    · rw [marksOf_append] at hL₂
      exact hmarked'.insertAt hO hmarked ht (List.append_eq_nil_iff.mp hL₂).1 ha
    · rw [Function.update_of_ne hu]
      exact hu'
  · refine ⟨K₁, M ++ (t, .eff o r) :: L₂, b, g, List.append_assoc _ _ _, ?_, hmarked', hu', hb⟩
    rw [marksOf_append] at hK₂ ⊢
    rw [marksOf_cons_of_ne hu]
    exact hK₂

section History

variable {ε : Type y} {μ : Type z} {l : Type k} {exec : Exec T ε μ l}
  {init : Global T μ l → Prop} {ok : Global T μ l → T × ε → Prop}
  {label : ε → l → Option (Event Op Res)} {H : List (T × Event Op Res)} {s : Global T μ l}

/-- The simulation that the rule below asks for. `may s t o r` says that `t` is in a call of
`o` that could have had the result `r`. It begins in a state in which the object allows this
result, and a step may end the call with it. -/
structure Exec.SimulatesPast (exec : Exec T ε μ l) (init : Global T μ l → Prop)
    (ok : Global T μ l → T × ε → Prop) (label : ε → l → Option (Event Op Res))
    (O : Object T σ Op Res) (phase : l → Phase Op Res) (Q : Global T μ l → Prop)
    (R : Global T μ l → σ → Prop) (may : Global T μ l → T → Op → Res → Prop) : Prop where
  init : ∀ s, init s → (∃ a, O.init a ∧ R s a) ∧ ∀ t, phase (s.loc t) = .idle
  called : ∀ s t o r, may s t o r → phase (s.loc t) = .called o
  step : ∀ (s : Global T μ l) (t : T) (c : ε) (m : μ) (p : l) (a : σ),
    Q s → R s a → ok s (t, c) → exec t c s.mem (s.loc t) = some (m, p) →
    ∃ a', (O.Moves t (label c (s.loc t)) (phase (s.loc t)) a (phase p) a' ∨
        label c (s.loc t) = none ∧ a' = a ∧ ∃ o r, may s t o r ∧ phase p = .done r) ∧
      R ⟨m, Function.update s.loc t p⟩ a' ∧
      ∀ u o r, may ⟨m, Function.update s.loc t p⟩ u o r →
        may s u o r ∨ O.apply u o r a' = some a'

/-- The run of the atomic object that belongs to a run of the program. -/
theorem Exec.History.marked_of_past {O : Object T σ Op Res} {phase : l → Phase Op Res}
    {Q : Global T μ l → Prop} {R : Global T μ l → σ → Prop}
    {may : Global T μ l → T → Op → Res → Prop} (hO : O.OneStart)
    (hQ : ∀ s, (exec.machine init).ReachVia ok s → Q s)
    (hsim : exec.SimulatesPast init ok label O phase Q R may)
    (h : exec.History init ok label H s) :
    ∃ L a, events L = H ∧ R s a ∧ O.Marked L a (fun t => phase (s.loc t)) ∧
      ∀ t o r, may s t o r → O.Seen L t o r := by
  induction h with
  | @init s h =>
      obtain ⟨⟨a, ha, hR⟩, hidle⟩ := hsim.init s h
      refine ⟨[], a, rfl, hR, ?_, fun t o r hmay => ?_⟩
      · rw [funext hidle]
        exact .nil ha
      · cases (hidle t).symm.trans (hsim.called s t o r hmay)
  | @step H s t c m p hs ha he ih =>
      obtain ⟨L, a, rfl, hR, hL, hseen⟩ := ih
      obtain ⟨a', hmove, hR', hmay⟩ := hsim.step s t c m p a (hQ s hs.reach) hR ha he
      have hphase : (fun u => phase (Function.update s.loc t p u)) =
          Function.update (fun u => phase (s.loc u)) t (phase p) :=
        Function.comp_update phase s.loc t p
      -- It is enough to mark the step and to keep what was seen before it.
      suffices hnext : ∃ L', events L' = events L ++ (label c (s.loc t)).toList.map (t, ·) ∧
          O.Marked L' a' (Function.update (fun u => phase (s.loc u)) t (phase p)) ∧
          ∀ u o r, may s u o r → (u = t → phase p = .called o) → O.Seen L' u o r by
        obtain ⟨L', hevents, hmarked, hkeep⟩ := hnext
        rw [← hphase] at hmarked
        refine ⟨L', a', hevents, hR', hmarked, fun u o r hu => ?_⟩
        have hcalled : phase (Function.update s.loc t p u) = .called o := hsim.called _ u o r hu
        rcases hmay u o r hu with hold | hnow
        · refine hkeep u o r hold ?_
          rintro rfl
          rwa [Function.update_self] at hcalled
        · exact hmarked.seen hcalled hnow
      rcases hmove with hmove | ⟨hlabel, rfl, o, r, hpast, hp⟩
      · obtain ⟨K, hK, hmarked, hnone⟩ := hL.moves hmove
        refine ⟨_, hK, hmarked, fun u o r hold hself => ?_⟩
        by_cases hu : u = t
        · subst hu
          rw [hnone o o (hsim.called s u o r hold) (hself rfl), List.map_nil, List.append_nil]
          exact hseen u o r hold
        · exact (hseen u o r hold).append (marksOf_map_of_ne hu K)
      · obtain ⟨L', hevents, hmarked, hkeep⟩ := hL.insert hO (hseen t o r hpast)
        refine ⟨L', ?_, hp ▸ hmarked, fun u o' r' hold hself => ?_⟩
        · rw [hlabel, hevents]
          exact (List.append_nil _).symm
        · refine hkeep u o' r' ?_ (hseen u o' r' hold)
          intro hu
          cases (hself hu).symm.trans hp

/-- The rule: a program that simulates the atomic object, and decides some of its results
after their instant, has only linearizable histories. -/
theorem Exec.History.linearizable_of_past {O : Object T σ Op Res} {phase : l → Phase Op Res}
    {Q : Global T μ l → Prop} {R : Global T μ l → σ → Prop}
    {may : Global T μ l → T → Op → Res → Prop} (hO : O.OneStart)
    (hQ : ∀ s, (exec.machine init).ReachVia ok s → Q s)
    (hsim : exec.SimulatesPast init ok label O phase Q R may)
    (h : exec.History init ok label H s) : O.Linearizable H := by
  obtain ⟨L, a, hL, -, hmarked, -⟩ := h.marked_of_past hO hQ hsim
  obtain ⟨a₀, h₀, hrun⟩ := hmarked.legal
  exact ⟨L, hL, fun t => ⟨_, hmarked.calls t⟩, a₀, a, h₀, hrun⟩

end History

end Hlpt.Lib
