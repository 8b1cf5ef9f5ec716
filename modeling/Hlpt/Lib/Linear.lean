import Hlpt.Lib.Threads

/-!
# `Hlpt.Lib.Linear`: calls that take effect at one instant

The threads of a machine call the operations of an object, and every call takes many
steps. A caller sees the invocation of its call and the result, which make up the
`History` of a run. The object is specified by an `Object`: the result and the next state
of every operation when it is done in one step. An `apply` that is `none` is a result that
the operation cannot give in this state, so a blocking operation waits where it has no
result.

* `Object.Linearizable`: one instant can be chosen for each call, between its invocation
  and its return, such that the operations done at these instants are a run of the object
  with the results that the callers got.
* `History.linearizable`: the rule to prove it. Each step of a thread is matched by what
  the atomic object does (`Object.Moves`): nothing, or the one step in which the call takes
  effect.
-/

set_option autoImplicit false

namespace Hlpt.Lib

universe u v w x y z k

/-- What a caller sees of a call. -/
inductive Event (Op : Type u) (Res : Type v) where
  | inv (o : Op)
  | res (r : Res)
  deriving DecidableEq

/-- The events, and the instant at which a call takes effect. -/
inductive Mark (Op : Type u) (Res : Type v) where
  | inv (o : Op)
  | eff (o : Op) (r : Res)
  | res (r : Res)

/-- How far a thread is with its call. -/
inductive Phase (Op : Type u) (Res : Type v) where
  | idle
  | called (o : Op)
  | done (r : Res)
  deriving DecidableEq

/-- An object whose operations take one step: `apply t o r a` is the state after the
thread `t` did `o` in the state `a` with the result `r`. -/
structure Object (T : Type w) (σ : Type x) (Op : Type u) (Res : Type v) where
  init : σ → Prop
  apply : T → Op → Res → σ → Option σ

variable {T : Type w} {σ : Type x} {Op : Type u} {Res : Type v}

/-- The part of a mark that a caller sees. -/
def Mark.event : Mark Op Res → Option (Event Op Res)
  | inv o => some (.inv o)
  | eff _ _ => none
  | res r => some (.res r)

/-- The operation that a mark does. -/
def Mark.effect : Mark Op Res → Option (Op × Res)
  | eff o r => some (o, r)
  | _ => none

/-- The events of marked calls. -/
def events (L : List (T × Mark Op Res)) : List (T × Event Op Res) :=
  L.filterMap fun x => x.2.event.map (x.1, ·)

/-- The operations of marked calls, in the order of their instants. -/
def effects (L : List (T × Mark Op Res)) : List (T × Op × Res) :=
  L.filterMap fun x => x.2.effect.map (x.1, ·)

/-- The marks of one thread. -/
def marksOf [DecidableEq T] (t : T) (L : List (T × Mark Op Res)) : List (Mark Op Res) :=
  L.filterMap fun x => if x.1 = t then some x.2 else none

/-- The order in which a thread marks a call: it is invoked, takes effect with a result,
and returns this result. -/
inductive Phase.Step : Phase Op Res → Mark Op Res → Phase Op Res → Prop
  | inv (o : Op) : Step .idle (.inv o) (.called o)
  | eff (o : Op) (r : Res) : Step (.called o) (.eff o r) (.done r)
  | res (r : Res) : Step (.done r) (.res r) .idle

/-- The marks of the calls of one thread, and its phase after them. The last call may not
be over. -/
inductive Calls : List (Mark Op Res) → Phase Op Res → Prop
  | nil : Calls [] .idle
  | concat {L : List (Mark Op Res)} {x : Mark Op Res} {p p' : Phase Op Res} (h : Calls L p)
      (hs : p.Step x p') : Calls (L ++ [x]) p'

/-- The last mark of a thread, and its phase before it. -/
theorem Calls.exists_of_concat {L : List (Mark Op Res)} {x : Mark Op Res} {p' : Phase Op Res}
    (h : Calls (L ++ [x]) p') : ∃ p, Calls L p ∧ p.Step x p' := by
  generalize hL : L ++ [x] = L' at h
  cases h with
  | nil => simp at hL
  | @concat L₁ y p _ h hs =>
      obtain ⟨rfl, hx⟩ := List.append_inj' hL rfl
      cases hx
      exact ⟨p, h, hs⟩

namespace Object

/-- The object after a list of operations. -/
def run (O : Object T σ Op Res) : σ → List (T × Op × Res) → Option σ
  | a, [] => some a
  | a, (t, o, r) :: es => (O.apply t o r a).bind fun a' => run O a' es

/-- The history is linearizable: with one instant for the effect of each call, the
operations at these instants, in their order, are a run of the object. -/
def Linearizable [DecidableEq T] (O : Object T σ Op Res) (H : List (T × Event Op Res)) :
    Prop :=
  ∃ L : List (T × Mark Op Res), events L = H ∧ (∀ t, ∃ p, Calls (marksOf t L) p) ∧
    ∃ a a', O.init a ∧ O.run a (effects L) = some a'

/-- What the atomic object and a thread in its phase do, and what a caller sees of it. -/
inductive Moves (O : Object T σ Op Res) (t : T) :
    Option (Event Op Res) → Phase Op Res → σ → Phase Op Res → σ → Prop
  | stutter {p : Phase Op Res} {a : σ} : Moves O t none p a p a
  | inv {a : σ} (o : Op) : Moves O t (some (.inv o)) .idle a (.called o) a
  | eff {a a' : σ} {o : Op} {r : Res} (h : O.apply t o r a = some a') :
      Moves O t none (.called o) a (.done r) a'
  | res {a : σ} (r : Res) : Moves O t (some (.res r)) (.done r) a .idle a
  | invEff {a a' : σ} {o : Op} {r : Res} (h : O.apply t o r a = some a') :
      Moves O t (some (.inv o)) .idle a (.done r) a'

variable {O : Object T σ Op Res}

/-- Operations one after the other. -/
theorem run_append {a : σ} {es es' : List (T × Op × Res)} :
    O.run a (es ++ es') = (O.run a es).bind fun a' => O.run a' es' := by
  induction es generalizing a with
  | nil => rfl
  | cons e es ih =>
      show (O.apply e.1 e.2.1 e.2.2 a).bind _ = ((O.apply e.1 e.2.1 e.2.2 a).bind _).bind _
      rw [Option.bind_assoc]
      exact congrArg _ (funext fun a' => ih)

end Object

/-- The events of one more mark. -/
theorem events_concat (t : T) (x : Mark Op Res) (L : List (T × Mark Op Res)) :
    events (L ++ [(t, x)]) = events L ++ (x.event.map (t, ·)).toList := by
  rw [events, List.filterMap_append]
  cases x <;> rfl

/-! ### Marked runs of the atomic object -/

section Marked

variable [DecidableEq T] {O : Object T σ Op Res}

/-- The calls `L` with their instants, the object in the state `a` and the threads in the
phases `f` after them. -/
structure Object.Marked (O : Object T σ Op Res) (L : List (T × Mark Op Res)) (a : σ)
    (f : T → Phase Op Res) : Prop where
  calls : ∀ t, Calls (marksOf t L) (f t)
  legal : ∃ a₀, O.init a₀ ∧ O.run a₀ (effects L) = some a

/-- The marks of a thread after one more mark. -/
theorem marksOf_concat (t u : T) (L : List (T × Mark Op Res)) (x : Mark Op Res) :
    marksOf u (L ++ [(t, x)]) = if t = u then marksOf u L ++ [x] else marksOf u L := by
  rw [marksOf, List.filterMap_append]
  by_cases h : t = u <;> simp [h, marksOf]

/-- Before any call. -/
theorem Object.Marked.nil {a : σ} (h : O.init a) : O.Marked [] a fun _ => .idle :=
  ⟨fun _ => .nil, a, h, rfl⟩

/-- One more mark of the thread `t`, which changes the phase of `t` only. -/
theorem Object.Marked.concat {L : List (T × Mark Op Res)} {a a' : σ} {f : T → Phase Op Res}
    {t : T} {x : Mark Op Res} {p : Phase Op Res} (h : O.Marked L a f) (hs : (f t).Step x p)
    (hrun : O.run a (effects [(t, x)]) = some a') :
    O.Marked (L ++ [(t, x)]) a' (Function.update f t p) := by
  refine ⟨?_, ?_⟩
  · refine forall_loc_iff.mpr ⟨?_, fun u hu => ?_⟩
    · rw [marksOf_concat, if_pos rfl]
      exact (h.calls t).concat hs
    · rw [marksOf_concat, if_neg hu.symm]
      exact h.calls u
  · obtain ⟨a₀, h₀, hlegal⟩ := h.legal
    refine ⟨a₀, h₀, ?_⟩
    rw [effects, List.filterMap_append]
    exact Object.run_append.trans (by rw [effects] at hlegal; rw [hlegal]; exact hrun)

omit [DecidableEq T] in
/-- The one operation of an effect. -/
theorem run_effect {a a' : σ} {t : T} {o : Op} {r : Res} (h : O.apply t o r a = some a') :
    O.run a (effects [(t, .eff o r)]) = some a' := by
  show (O.apply t o r a).bind _ = _
  rw [h]
  rfl

/-- What the object does in one step is marked. A call that goes on gets no mark. -/
theorem Object.Marked.moves {L : List (T × Mark Op Res)} {a a' : σ} {f : T → Phase Op Res}
    {t : T} {e : Option (Event Op Res)} {p : Phase Op Res} (h : O.Marked L a f)
    (hm : O.Moves t e (f t) a p a') :
    ∃ K : List (Mark Op Res), events (L ++ K.map (t, ·)) = events L ++ e.toList.map (t, ·) ∧
      O.Marked (L ++ K.map (t, ·)) a' (Function.update f t p) ∧
      ∀ o o', f t = .called o → p = .called o' → K = [] := by
  generalize hp : f t = p₀ at hm
  cases hm with
  | stutter =>
      refine ⟨[], ?_, ?_, fun _ _ _ _ => rfl⟩
      · rw [List.map_nil, List.append_nil]
        exact (List.append_nil _).symm
      · rw [List.map_nil, List.append_nil, ← hp, Function.update_eq_self]
        exact h
  | inv o =>
      have hs : (f t).Step (.inv o) (.called o) := hp ▸ .inv o
      exact ⟨[.inv o], by rw [List.map_singleton, events_concat]; rfl, h.concat hs rfl, nofun⟩
  | @eff _ _ o r ha =>
      have hs : (f t).Step (.eff o r) (.done r) := hp ▸ .eff o r
      exact ⟨[.eff o r], by rw [List.map_singleton, events_concat]; rfl,
        h.concat hs (run_effect ha), nofun⟩
  | res r =>
      have hs : (f t).Step (.res r) .idle := hp ▸ .res r
      exact ⟨[.res r], by rw [List.map_singleton, events_concat]; rfl, h.concat hs rfl, nofun⟩
  | @invEff _ _ o r ha =>
      have hs : (f t).Step (.inv o) (.called o) := hp ▸ .inv o
      have hs' : (Function.update f t (.called o) t).Step (.eff o r) (.done r) := by
        rw [Function.update_self]
        exact .eff o r
      -- One step with two marks: the call, and at once its effect.
      have hmarked := (h.concat hs rfl).concat hs' (run_effect ha)
      rw [Function.update_idem, List.append_assoc] at hmarked
      refine ⟨[.inv o, .eff o r], ?_, hmarked, nofun⟩
      have hmap : L ++ [Mark.inv o, .eff o r].map (t, ·) =
          (L ++ [(t, .inv o)]) ++ [(t, .eff o r)] := by
        rw [List.append_assoc]
        rfl
      rw [hmap, events_concat, events_concat]
      exact List.append_nil _

/-- The induction rule of marked calls, from one mark to the next. -/
theorem Object.Marked.induction {P : List (T × Mark Op Res) → σ → (T → Phase Op Res) → Prop}
    (hnil : ∀ a, O.init a → P [] a fun _ => .idle)
    (hconcat : ∀ L a f t x p a', P L a f → (f t).Step x p →
      O.run a (effects [(t, x)]) = some a' → P (L ++ [(t, x)]) a' (Function.update f t p))
    {L : List (T × Mark Op Res)} {a : σ} {f : T → Phase Op Res} (h : O.Marked L a f) :
    P L a f := by
  induction L using List.reverseRecOn generalizing a f with
  | nil =>
      obtain ⟨a₀, h₀, hrun⟩ := h.legal
      cases hrun
      -- Without marks nobody has called anything.
      have hf : f = fun _ => .idle := by
        funext t
        generalize hp : f t = p
        have hcalls : Calls (marksOf t []) p := hp ▸ h.calls t
        generalize hL : marksOf t [] = L at hcalls
        cases hcalls with
        | nil => rfl
        | concat => simp [marksOf] at hL
      rw [hf]
      exact hnil a h₀
  | append_singleton L tx ih =>
      rcases tx with ⟨t, x⟩
      obtain ⟨a₀, h₀, hrun⟩ := h.legal
      rw [effects, List.filterMap_append] at hrun
      obtain ⟨a₁, h₁, h₂⟩ := Option.bind_eq_some_iff.mp (Object.run_append.symm.trans hrun)
      have ht := h.calls t
      rw [marksOf_concat, if_pos rfl] at ht
      obtain ⟨p, hp, hs⟩ := ht.exists_of_concat
      -- Before the mark, `t` was in the phase `p` and everyone else where they are.
      have hbefore : O.Marked L a₁ (Function.update f t p) := by
        refine ⟨forall_loc_iff.mpr ⟨hp, fun u hu => ?_⟩, a₀, h₀, h₁⟩
        have hu' := h.calls u
        rwa [marksOf_concat, if_neg hu.symm] at hu'
      have hnext := hconcat L a₁ _ t x (f t) a (ih hbefore)
        (by rwa [Function.update_self]) h₂
      rwa [Function.update_idem, Function.update_eq_self] at hnext

/-- A linearizable history comes from marked calls. -/
theorem Object.Linearizable.exists_marked {H : List (T × Event Op Res)}
    (h : O.Linearizable H) : ∃ L a f, events L = H ∧ O.Marked L a f := by
  obtain ⟨L, hL, hcalls, a₀, a, h₀, hrun⟩ := h
  choose f hf using hcalls
  exact ⟨L, a, f, hL, hf, a₀, h₀, hrun⟩

end Marked

/-! ### Histories of programs -/

section History

variable {ε : Type y} {μ : Type z} {l : Type k} [DecidableEq T]

/-- The runs of a program with what the callers see: `label c p` is the event of a step
with the choice `c` from the local state `p`. -/
inductive Exec.History (exec : Exec T ε μ l) (init : Global T μ l → Prop)
    (ok : Global T μ l → T × ε → Prop) (label : ε → l → Option (Event Op Res)) :
    List (T × Event Op Res) → Global T μ l → Prop
  | init {s : Global T μ l} (h : init s) : History exec init ok label [] s
  | step {H : List (T × Event Op Res)} {s : Global T μ l} {t : T} {c : ε} {m : μ} {p : l}
      (hs : History exec init ok label H s) (ha : ok s (t, c))
      (he : exec t c s.mem (s.loc t) = some (m, p)) :
      History exec init ok label (H ++ (label c (s.loc t)).toList.map (t, ·))
        ⟨m, Function.update s.loc t p⟩

variable {exec : Exec T ε μ l} {init : Global T μ l → Prop}
  {ok : Global T μ l → T × ε → Prop} {label : ε → l → Option (Event Op Res)}
  {H : List (T × Event Op Res)} {s : Global T μ l}

/-- A run with its history is a run. -/
theorem Exec.History.reach (h : exec.History init ok label H s) :
    (exec.machine init).ReachVia ok s := by
  induction h with
  | init h => exact .init h
  | step _ ha he ih => exact ih.step ha (Exec.machine_step_eq_some.mpr ⟨_, _, he, rfl⟩)

/-- Every run has a history. -/
theorem Exec.exists_history (label : ε → l → Option (Event Op Res))
    (h : (exec.machine init).ReachVia ok s) : ∃ H, exec.History init ok label H s := by
  induction h with
  | init h => exact ⟨[], .init h⟩
  | step _ ha hstep ih =>
      obtain ⟨H, hH⟩ := ih
      obtain ⟨m, p, he, rfl⟩ := Exec.machine_step_eq_some.mp hstep
      exact ⟨_, hH.step ha he⟩

/-- The history of an evaluated run, and the state after it. It is `none` when an action is
not enabled or does not meet `ok`. -/
def Exec.runHistory (exec : Exec T ε μ l) (ok : Global T μ l → T × ε → Prop)
    [∀ s a, Decidable (ok s a)] (label : ε → l → Option (Event Op Res)) :
    Global T μ l → List (T × ε) → Option (List (T × Event Op Res) × Global T μ l)
  | s, [] => some ([], s)
  | s, (t, c) :: as =>
      if ok s (t, c) then
        (exec t c s.mem (s.loc t)).bind fun r =>
          (runHistory exec ok label ⟨r.1, Function.update s.loc t r.2⟩ as).map fun x =>
            ((label c (s.loc t)).toList.map (t, ·) ++ x.1, x.2)
      else none

/-- An evaluated run extends a history. -/
theorem Exec.History.runHistory [∀ s a, Decidable (ok s a)] {as : List (T × ε)}
    {H' : List (T × Event Op Res)} {s' : Global T μ l} (h : exec.History init ok label H s)
    (hrun : exec.runHistory ok label s as = some (H', s')) :
    exec.History init ok label (H ++ H') s' := by
  induction as generalizing H s H' with
  | nil =>
      cases hrun
      rwa [List.append_nil]
  | cons a as ih =>
      rcases a with ⟨t, c⟩
      rw [Exec.runHistory] at hrun
      split at hrun
      · next ha =>
        obtain ⟨⟨m, p⟩, he, hrest⟩ := Option.bind_eq_some_iff.mp hrun
        obtain ⟨⟨H₂, s₂⟩, h₂, heq⟩ := Option.map_eq_some_iff.mp hrest
        cases heq
        rw [← List.append_assoc]
        exact ih (h.step ha he) h₂
      · cases hrun

/-- A history that was evaluated from an initial state. -/
theorem Exec.exists_history_run [∀ s a, Decidable (ok s a)] (h₀ : init s) (as : List (T × ε))
    (hrun : (exec.runHistory ok label s as).map Prod.fst = some H) :
    ∃ s', exec.History init ok label H s' := by
  obtain ⟨⟨H', s'⟩, h', rfl⟩ := Option.map_eq_some_iff.mp hrun
  exact ⟨s', (Exec.History.init h₀).runHistory h'⟩

/-- The simulation that the rule below asks for: `phase` relates the local state of a thread
to its phase, and `R` the state of the machine to that of the object. A step may use what is
already known of every reached state. -/
structure Exec.Simulates (exec : Exec T ε μ l) (init : Global T μ l → Prop)
    (ok : Global T μ l → T × ε → Prop) (label : ε → l → Option (Event Op Res))
    (O : Object T σ Op Res) (phase : l → Phase Op Res → Prop) (Q : Global T μ l → Prop)
    (R : Global T μ l → σ → Prop) : Prop where
  init : ∀ s, init s → (∃ a, O.init a ∧ R s a) ∧ ∀ t, phase (s.loc t) .idle
  step : ∀ (s : Global T μ l) (t : T) (c : ε) (m : μ) (p : l) (a : σ) (q : Phase Op Res),
    Q s → R s a → phase (s.loc t) q → ok s (t, c) → exec t c s.mem (s.loc t) = some (m, p) →
    ∃ a' q', O.Moves t (label c (s.loc t)) q a q' a' ∧ phase p q' ∧
      R ⟨m, Function.update s.loc t p⟩ a'

/-- The run of the atomic object that belongs to a run of the program. -/
theorem Exec.History.marked {O : Object T σ Op Res} {phase : l → Phase Op Res → Prop}
    {Q : Global T μ l → Prop} {R : Global T μ l → σ → Prop}
    (hQ : ∀ s, (exec.machine init).ReachVia ok s → Q s)
    (hsim : exec.Simulates init ok label O phase Q R)
    (h : exec.History init ok label H s) :
    ∃ L a f, events L = H ∧ R s a ∧ (∀ t, phase (s.loc t) (f t)) ∧ O.Marked L a f := by
  induction h with
  | @init s h =>
      obtain ⟨⟨a, ha, hR⟩, hidle⟩ := hsim.init s h
      exact ⟨[], a, fun _ => .idle, rfl, hR, hidle, .nil ha⟩
  | @step H s t c m p hs ha he ih =>
      obtain ⟨L, a, f, rfl, hR, hf, hL⟩ := ih
      obtain ⟨a', q', hmove, hq', hR'⟩ :=
        hsim.step s t c m p a (f t) (hQ s hs.reach) hR (hf t) ha he
      obtain ⟨K, hK, hmarked, -⟩ := hL.moves hmove
      refine ⟨_, a', _, hK, hR', fun u => ?_, hmarked⟩
      by_cases hu : u = t
      · subst hu
        simpa using hq'
      · simpa [hu] using hf u

/-- The rule: a program that simulates the atomic object step by step has only
linearizable histories. -/
theorem Exec.History.linearizable {O : Object T σ Op Res} {phase : l → Phase Op Res → Prop}
    {Q : Global T μ l → Prop} {R : Global T μ l → σ → Prop}
    (hQ : ∀ s, (exec.machine init).ReachVia ok s → Q s)
    (hsim : exec.Simulates init ok label O phase Q R)
    (h : exec.History init ok label H s) : O.Linearizable H := by
  obtain ⟨L, a, f, hL, -, -, hmarked⟩ := h.marked hQ hsim
  obtain ⟨a₀, h₀, hrun⟩ := hmarked.legal
  exact ⟨L, hL, fun t => ⟨_, hmarked.calls t⟩, a₀, a, h₀, hrun⟩

end History

end Hlpt.Lib
