import Hlpt.Lib.Linear

/-!
# `Hlpt.Lib.Lock`: what a linearizable lock gives to its callers

Some operations of an object take a lock, depending on their result, and some free it.
The callers see only their own invocations and results: a thread holds the lock from the
return of a call that took it to the next invocation of one that frees it (`Client`).

* `Object.Linearizable.exclusion`: if the history of a lock is linearizable and nobody
  frees a lock that it does not hold, then at most one thread holds the lock, as the
  callers see it.
-/

set_option autoImplicit false

namespace Hlpt.Lib

universe u v w x

variable {T : Type w} {σ : Type x} {Op : Type u} {Res : Type v}

/-- Which operations take a lock, and which free it. -/
structure LockUse (Op : Type u) (Res : Type v) where
  takes : Op → Res → Bool
  frees : Op → Bool

/-- A lock as one of its callers sees it: the call that is not over, and whether the
caller holds the lock. -/
structure Client (Op : Type u) where
  call : Option Op
  holds : Bool

namespace LockUse

variable (U : LockUse Op Res)

/-- A caller after one of its events. -/
def next (c : Client Op) : Event Op Res → Client Op
  | .inv o => ⟨some o, c.holds && !U.frees o⟩
  | .res r => ⟨none, c.holds || c.call.any (U.takes · r)⟩

/-- The thread `t` after a history. -/
def clientOf [DecidableEq T] (t : T) (H : List (T × Event Op Res)) : Client Op :=
  H.foldl (fun c e => if e.1 = t then U.next c e.2 else c) ⟨none, false⟩

/-- Whether a caller may do its next event: it frees the lock only when it holds it. -/
def allowed (c : Client Op) : Event Op Res → Bool
  | .inv o => !U.frees o || c.holds
  | .res _ => true

/-- Nobody frees the lock without holding it. -/
def Disciplined [DecidableEq T] (H : List (T × Event Op Res)) : Prop :=
  ∀ i : Fin H.length, U.allowed (U.clientOf (H.get i).1 (H.take i)) (H.get i).2 = true

instance [DecidableEq T] (H : List (T × Event Op Res)) : Decidable (U.Disciplined H) :=
  Nat.decidableForallFin _

variable {U}

/-- A caller after one more event of the history. -/
theorem clientOf_concat [DecidableEq T] (t u : T) (e : Event Op Res)
    (H : List (T × Event Op Res)) :
    U.clientOf u (H ++ [(t, e)]) =
      if t = u then U.next (U.clientOf u H) e else U.clientOf u H := by
  rw [clientOf, List.foldl_append]
  rfl

/-- The last event of a disciplined history was allowed, and those before it were. -/
theorem Disciplined.of_concat [DecidableEq T] {H : List (T × Event Op Res)} {t : T}
    {e : Event Op Res} (h : U.Disciplined (H ++ [(t, e)])) :
    U.Disciplined H ∧ U.allowed (U.clientOf t H) e = true := by
  constructor
  · intro i
    have hi : (i : ℕ) < (H ++ [(t, e)]).length := by
      rw [List.length_append]
      omega
    have := h ⟨i, hi⟩
    simp only [List.get_eq_getElem, List.getElem_append_left i.isLt,
      List.take_append_of_le_length i.isLt.le] at this
    exact this
  · have := h ⟨H.length, by simp⟩
    simpa using this

end LockUse

/-- The object is a lock: a call that takes it finds it free, one that frees it leaves it
free, and the others do not touch it. -/
structure Object.IsLock (O : Object T σ Op Res) (U : LockUse Op Res) (locked : σ → Bool) :
    Prop where
  init : ∀ a, O.init a → locked a = false
  takes : ∀ t o r a a', O.apply t o r a = some a' → U.takes o r = true →
    locked a = false ∧ locked a' = true ∧ U.frees o = false
  frees : ∀ t o r a a', O.apply t o r a = some a' → U.frees o = true → locked a' = false
  other : ∀ t o r a a', O.apply t o r a = some a' → U.takes o r = false →
    U.frees o = false → locked a' = locked a

/-- The thread owns the lock, as a caller and its phase tell: it holds it, its call took
it and has not returned, or its call is about to free it. -/
def Owns (U : LockUse Op Res) (c : Client Op) : Phase Op Res → Prop
  | .idle => c.holds = true
  | .called o => c.holds = true ∨ U.frees o = true
  | .done r => c.holds = true ∨ ∃ o, c.call = some o ∧ U.takes o r = true

/-- The caller is in the call of its phase, and it gave up the lock when it called an
operation that frees it. -/
def Tracks (U : LockUse Op Res) (c : Client Op) : Phase Op Res → Prop
  | .idle => c.call = none
  | .called o => c.call = some o ∧ (U.frees o = true → c.holds = false)
  | .done _ => ∃ o, c.call = some o

/-- The callers and the lock agree: it is locked exactly when a thread owns it, and at
most one does. -/
structure Agree [DecidableEq T] (U : LockUse Op Res) (locked : σ → Bool)
    (H : List (T × Event Op Res)) (a : σ) (f : T → Phase Op Res) : Prop where
  tracks : ∀ t, Tracks U (U.clientOf t H) (f t)
  locked : locked a = true ↔ ∃ t, Owns U (U.clientOf t H) (f t)
  unique : ∀ t u, Owns U (U.clientOf t H) (f t) → Owns U (U.clientOf u H) (f u) → t = u

section Agree

variable [DecidableEq T] {U : LockUse Op Res} {locked : σ → Bool}
  {H : List (T × Event Op Res)} {a a' : σ} {f : T → Phase Op Res} {t : T} {p : Phase Op Res}

/-- An event of `t` that changes neither the lock nor who owns it. -/
theorem Agree.event {e : Event Op Res} (h : Agree U locked H a f)
    (htracks : Tracks U (U.next (U.clientOf t H) e) p)
    (howns : Owns U (U.next (U.clientOf t H) e) p ↔ Owns U (U.clientOf t H) (f t)) :
    Agree U locked (H ++ [(t, e)]) a (Function.update f t p) := by
  have hothers : ∀ u, Owns U (U.clientOf u (H ++ [(t, e)])) (Function.update f t p u) ↔
      Owns U (U.clientOf u H) (f u) := by
    intro u
    by_cases hu : t = u
    · subst hu
      rwa [LockUse.clientOf_concat, if_pos rfl, Function.update_self]
    · rw [LockUse.clientOf_concat, if_neg hu, Function.update_of_ne (Ne.symm hu)]
  refine ⟨fun u => ?_, ?_, fun u v hu hv => ?_⟩
  · by_cases hu : t = u
    · subst hu
      rwa [LockUse.clientOf_concat, if_pos rfl, Function.update_self]
    · rw [LockUse.clientOf_concat, if_neg hu, Function.update_of_ne (Ne.symm hu)]
      exact h.tracks u
  · rw [h.locked]
    exact exists_congr fun u => (hothers u).symm
  · exact h.unique u v ((hothers u).mp hu) ((hothers v).mp hv)

/-- The effect of a call on a lock. -/
theorem Agree.effect {O : Object T σ Op Res} (hO : O.IsLock U locked) {o : Op} {r : Res}
    (h : Agree U locked H a f) (ht : f t = .called o) (ha : O.apply t o r a = some a') :
    Agree U locked H a' (Function.update f t (.done r)) := by
  have htr := h.tracks t
  rw [ht] at htr
  obtain ⟨hcall, hgave⟩ := htr
  have howner : Owns U (U.clientOf t H) (f t) ↔
      (U.clientOf t H).holds = true ∨ U.frees o = true := by
    rw [ht]
    rfl
  have howner' : Owns U (U.clientOf t H) (.done r) ↔
      (U.clientOf t H).holds = true ∨ U.takes o r = true := by
    simp [Owns, hcall]
  have htracks : ∀ u, Tracks U (U.clientOf u H) (Function.update f t (.done r) u) :=
    forall_loc_iff.mpr ⟨⟨o, hcall⟩, fun u _ => h.tracks u⟩
  -- The other threads own the lock as before.
  have hrest : ∀ u, u ≠ t → (Owns U (U.clientOf u H) (Function.update f t (.done r) u) ↔
      Owns U (U.clientOf u H) (f u)) := fun u hu => by rw [Function.update_of_ne hu]
  by_cases htakes : U.takes o r = true
  · obtain ⟨hfree, hlocked, hnofree⟩ := hO.takes t o r a a' ha htakes
    have hnone : ∀ u, ¬ Owns U (U.clientOf u H) (f u) := by
      intro u hu
      have := h.locked.mpr ⟨u, hu⟩
      rw [hfree] at this
      cases this
    have hself : Owns U (U.clientOf t H) (Function.update f t (.done r) t) := by
      rw [Function.update_self]
      exact howner'.mpr (.inr htakes)
    have honly : ∀ u, Owns U (U.clientOf u H) (Function.update f t (.done r) u) → u = t := by
      intro u hu
      by_contra hne
      exact hnone u ((hrest u hne).mp hu)
    exact ⟨htracks, iff_of_true hlocked ⟨t, hself⟩,
      fun u v hu hv => (honly u hu).trans (honly v hv).symm⟩
  · have htakes' : U.takes o r = false := by simpa using htakes
    by_cases hfrees : U.frees o = true
    · have hlocked := hO.frees t o r a a' ha hfrees
      have hnone : ∀ u, ¬ Owns U (U.clientOf u H) (Function.update f t (.done r) u) := by
        intro u hu
        by_cases hut : u = t
        · subst hut
          rw [Function.update_self] at hu
          rcases howner'.mp hu with hold | htook
          · rw [hgave hfrees] at hold
            cases hold
          · exact htakes htook
        · exact hut (h.unique u t ((hrest u hut).mp hu) (howner.mpr (.inr hfrees)))
      refine ⟨htracks, iff_of_false (by simp [hlocked]) ?_, fun u v hu => absurd hu (hnone u)⟩
      rintro ⟨u, hu⟩
      exact hnone u hu
    · have hsame : ∀ u, Owns U (U.clientOf u H) (Function.update f t (.done r) u) ↔
          Owns U (U.clientOf u H) (f u) := by
        intro u
        by_cases hut : u = t
        · subst hut
          rw [Function.update_self, howner, howner']
          simp [htakes, hfrees]
        · exact hrest u hut
      refine ⟨htracks, ?_, fun u v hu hv => h.unique u v ((hsame u).mp hu) ((hsame v).mp hv)⟩
      rw [hO.other t o r a a' ha htakes' (by simpa using hfrees), h.locked]
      exact exists_congr fun u => (hsame u).symm

/-- The callers and the lock agree in every run of the atomic lock. -/
theorem Object.Marked.agree {O : Object T σ Op Res} (hO : O.IsLock U locked)
    {L : List (T × Mark Op Res)} (h : O.Marked L a f) (hd : U.Disciplined (events L)) :
    Agree U locked (events L) a f := by
  revert hd
  refine Object.Marked.induction (P := fun L a f => U.Disciplined (events L) →
    Agree U locked (events L) a f) ?_ ?_ h
  · intro a ha _
    refine ⟨fun _ => rfl, iff_of_false (by simp [hO.init a ha]) ?_, ?_⟩
    · rintro ⟨t, ht⟩
      cases ht
    · intro t u ht
      cases ht
  · intro L a f t x p a' ih hs hrun hd
    rw [events_concat] at hd ⊢
    -- The history up to the mark is disciplined as well.
    have hpre : U.Disciplined (events L) := by
      cases hx : x.event with
      | none => simpa [hx] using hd
      | some e =>
          rw [hx] at hd
          exact hd.of_concat.1
    have hag := ih hpre
    have htr := hag.tracks t
    generalize hft : f t = p₀ at hs htr
    cases hs with
    | inv o =>
        cases hrun
        refine hag.event ⟨rfl, fun hf => by simp [LockUse.next, hf]⟩ ?_
        rw [hft]
        have hhold : U.frees o = true → (U.clientOf t (events L)).holds = true := by
          have hallowed := hd.of_concat.2
          intro hf
          simpa [LockUse.allowed, hf] using hallowed
        cases hf : U.frees o with
        | false => simp [Owns, LockUse.next, hf]
        | true => simp [Owns, hf, hhold hf]
    | eff o r =>
        have ha : O.apply t o r a = some a' := by
          obtain ⟨a₁, h₁, h₂⟩ := Option.bind_eq_some_iff.mp hrun
          cases h₂
          exact h₁
        show Agree U locked (events L ++ []) a' _
        rw [List.append_nil]
        exact hag.effect hO hft ha
    | res r =>
        cases hrun
        obtain ⟨o, hcall⟩ := htr
        refine hag.event rfl ?_
        rw [hft]
        simp [Owns, LockUse.next, hcall]

/-- Mutual exclusion, as the callers see it. -/
theorem Object.Linearizable.exclusion {O : Object T σ Op Res} (hO : O.IsLock U locked)
    (h : O.Linearizable H) (hd : U.Disciplined H) {t u : T}
    (ht : (U.clientOf t H).holds = true) (hu : (U.clientOf u H).holds = true) : t = u := by
  obtain ⟨L, a, f, rfl, hL⟩ := h.exists_marked
  have hag := hL.agree hO hd
  -- A thread that holds the lock owns it, in every phase.
  have howns : ∀ v, (U.clientOf v (events L)).holds = true →
      Owns U (U.clientOf v (events L)) (f v) := by
    intro v hv
    cases f v with
    | idle => exact hv
    | called o => exact .inl hv
    | done r => exact .inl hv
  exact hag.unique t u (howns t ht) (howns u hu)

end Agree

end Hlpt.Lib
