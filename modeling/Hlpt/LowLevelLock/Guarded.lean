import Hlpt.LowLevelLock.Invariant
import Hlpt.Lib.Section

/-!
# `Hlpt.LowLevelLock.Guarded`: calls under a low-level lock are atomic

Any number of threads call the operations of an object. A call is `lll_lock`, then the code
of a `Section` on the data, then `lll_unlock`. The accesses to the lock word, the sleeps and
the wakes are those of `Hlpt.LowLevelLock`; each access of the code is one step, and between
any two steps other threads may run.

* `guarded_linearizable`: when the code meets an atomic object, run by one thread alone, then
  every history of the calls of all threads is a history of this object. A call takes effect
  when its code is through, before `lll_unlock`.
-/

set_option autoImplicit false

namespace Hlpt.LowLevelLock.Guarded

open Hlpt.Lib

universe u v w x y z k j

/-- Where a thread is with its call. -/
inductive Stage (Op : Type v) (L : Type w) (Res : Type x) where
  | out
  /-- Inside `lll_lock`, before the code. -/
  | taking (o : Op) (p : L)
  /-- In the code. -/
  | inside (o : Op) (p : L)
  /-- Inside `lll_unlock`, with the result. -/
  | giving (r : Res)
  deriving DecidableEq, Repr

/-- A thread: where it is in the functions of the lock, its client state, and its call. -/
structure Local (κ : Type k) (Op : Type v) (L : Type w) (Res : Type x) where
  lock : LowLevelLock.Local
  client : κ
  stage : Stage Op L Res
  deriving DecidableEq, Repr

/-- The lock and the data. -/
structure Mem (T : Type u) (δ : Type z) where
  lock : LowLevelLock.Mem T
  data : δ

/-- What the environment chooses in a step. -/
structure Choice (T : Type u) (ε : Type y) (Op : Type v) where
  op : Op
  env : ε
  lock : LowLevelLock.Choice T := {}

variable {T : Type u} {ε : Type y} {δ : Type z} {κ : Type k} {L : Type w} {Op : Type v}
  {Res : Type x}

/-- Where the call goes when a step began at this place of `lll_lock`. -/
def afterLock (o : Op) (p : L) : Pc → Stage Op L Res
  | .ret _ => .inside o p
  | _ => .taking o p

/-- Where the call goes when a step began at this place of `lll_unlock`. -/
def afterUnlock (r : Res) : Pc → Stage Op L Res
  | .ret _ => .out
  | _ => .giving r

variable [DecidableEq T]

/-- The next access of a thread. -/
def exec (S : Section T ε δ κ L Op Res) :
    Exec T (Choice T ε Op) (Mem T δ) (Local κ Op L Res) := fun t c m x =>
  match x.stage with
  | .out => (S.start t x.client c.op).map fun p => (m, { x with stage := .taking c.op p })
  | .taking o p =>
      (LowLevelLock.exec t { c.lock with call := .lllLock } m.lock x.lock).map fun r =>
        ({ m with lock := r.1 }, { x with lock := r.2, stage := afterLock o p x.lock.pc })
  | .inside o p =>
      match S.finish p with
      | some r => some (m, { x with client := S.after x.client o, stage := .giving r })
      | none => (S.exec t c.env m.data p).map fun y =>
          ({ m with data := y.1 }, { x with stage := .inside o y.2 })
  | .giving r =>
      (LowLevelLock.exec t { c.lock with call := .lllUnlock } m.lock x.lock).map fun y =>
        ({ m with lock := y.1 }, { x with lock := y.2, stage := afterUnlock r x.lock.pc })

omit [DecidableEq T] in
/-- The event of a step: a thread calls an operation, or its call returns. -/
def label (c : Choice T ε Op) (x : Local κ Op L Res) : Option (Event Op Res) :=
  match x.stage with
  | .out => some (.inv c.op)
  | .giving r => match x.lock.pc with
      | .ret _ => some (.res r)
      | _ => none
  | _ => none

/-- How far a thread is with its call. -/
def phase : Stage Op L Res → Phase Op Res
  | .out => .idle
  | .taking o _ | .inside o _ => .called o
  | .giving r => .done r

/-- The word is free, no thread is inside a call, and the data and the client states are as
`start` says. -/
def IsInit (start : δ → (T → κ) → Prop) (s : Global T (Mem T δ) (Local κ Op L Res)) : Prop :=
  s.mem.lock = ⟨0, ∅⟩ ∧ start s.mem.data (fun t => (s.loc t).client) ∧
    ∀ t, (s.loc t).lock = ⟨.idle, false⟩ ∧ (s.loc t).stage = .out

/-! ### The thread and its lock -/

/-- Inside `lll_lock`, which has no deadline. -/
def Waits : Pc → Prop
  | .lockTest none | .lockCas none | .lockSwap none | .lockWait none | .asleep none => True
  | _ => False

/-- A thread has the lock from the return of `lll_lock` to the swap of `lll_unlock`. -/
def Placed (x : Local κ Op L Res) : Prop :=
  match x.stage with
  | .out => x.lock = ⟨.idle, false⟩
  | .taking .. => x.lock = ⟨.idle, false⟩ ∨ (Waits x.lock.pc ∧ x.lock.holds = false) ∨
      x.lock = ⟨.ret .ok, true⟩
  | .inside .. => x.lock = ⟨.idle, true⟩
  | .giving _ => x.lock = ⟨.idle, true⟩ ∨ x.lock = ⟨.unlockSwap, true⟩ ∨
      x.lock = ⟨.unlockWake, false⟩ ∨ x.lock = ⟨.ret .ok, false⟩

/-- `lll_lock` goes on, or it has the lock. -/
theorem exec_waits {t : T} {c : LowLevelLock.Choice T} {m m' : LowLevelLock.Mem T}
    {l l' : LowLevelLock.Local} (hl : Waits l.pc) (hh : l.holds = false)
    (h : LowLevelLock.exec t c m l = some (m', l')) :
    (Waits l'.pc ∧ l'.holds = false) ∨ l' = ⟨.ret .ok, true⟩ := by
  cases step_of_exec h with
  | @free d _ _ | @taken d _ _ | @lockLost d _ _ | @swapTaken d _ _ | @sleep d _ _
  | @changed d _ | @interrupted d _ _ | @woken d _ _ =>
      cases d with
      | none => exact .inl ⟨trivial, hh⟩
      | some tsp => exact hl.elim
  | lockCas hm => exact .inr rfl
  | swapFree hm => exact .inr rfl
  | _ => exact hl.elim

omit [DecidableEq T] in
/-- The code does not begin before `lll_lock` returns. -/
theorem afterLock_of_waits {pc : Pc} (h : Waits pc) (o : Op) (p : L) :
    afterLock o p pc = (.taking o p : Stage Op L Res) := by
  cases pc with
  | ret r => exact h.elim
  | _ => rfl

variable {S : Section T ε δ κ L Op Res} {t : T} {c : Choice T ε Op} {m m' : Mem T δ}
  {x x' : Local κ Op L Res}

/-- A step keeps a thread where its lock is. -/
theorem placed_of_exec (hx : Placed x) (h : exec S t c m x = some (m', x')) : Placed x' := by
  rcases x with ⟨lk, q, stage⟩
  cases stage with
  | out =>
      obtain ⟨p, -, heq⟩ := Option.map_eq_some_iff.mp h
      cases heq
      exact .inl hx
  | taking o p =>
      obtain ⟨⟨w, lk'⟩, hlock, heq⟩ := Option.map_eq_some_iff.mp h
      cases heq
      rcases hx with rfl | ⟨hw, hh⟩ | rfl
      · cases hlock
        exact .inr (.inl ⟨trivial, rfl⟩)
      · show Placed ⟨lk', q, afterLock o p lk.pc⟩
        rw [afterLock_of_waits hw]
        exact .inr (exec_waits hw hh hlock)
      · cases hlock
        rfl
  | inside o p =>
      simp only [exec] at h
      split at h
      · cases h
        exact .inl hx
      · obtain ⟨y, -, heq⟩ := Option.map_eq_some_iff.mp h
        cases heq
        exact hx
  | giving r =>
      obtain ⟨⟨w, lk'⟩, hlock, heq⟩ := Option.map_eq_some_iff.mp h
      cases heq
      rcases hx with rfl | rfl | rfl | rfl
      · cases hlock
        exact .inr (.inl rfl)
      · cases hlock
        show Placed ⟨⟨if m.lock.word = 1 then .ret .ok else .unlockWake, false⟩, q, .giving r⟩
        split
        · exact .inr (.inr (.inr rfl))
        · exact .inr (.inr (.inl rfl))
      · obtain ⟨-, rfl⟩ := exec_unlockWake hlock
        exact .inr (.inr (.inr rfl))
      · cases hlock
        rfl

/-! ### Exclusion -/

/-- The threads as the lock sees them. -/
def lockState (s : Global T (Mem T δ) (Local κ Op L Res)) :
    Global T (LowLevelLock.Mem T) LowLevelLock.Local :=
  ⟨s.mem.lock, fun t => (s.loc t).lock⟩

omit [DecidableEq T] in
/-- The code may only be left through the lock: the thread in it holds the lock. -/
theorem Placed.holds {o : Op} {p : L} (h : Placed x) (hx : x.stage = .inside o p) :
    x.lock.holds = true := by
  rw [Placed, hx] at h
  rw [h]

/-- What is known of every reached state: each thread is where its lock is, and at most one
has the lock. -/
structure Known (s : Global T (Mem T δ) (Local κ Op L Res)) : Prop where
  excl : Excl (lockState s)
  placed : ∀ t, Placed (s.loc t)

variable {s : Global T (Mem T δ) (Local κ Op L Res)}

/-- The lock after a step of `t`. -/
theorem lockState_update : lockState ⟨m', Function.update s.loc t x'⟩ =
    ⟨m'.lock, Function.update (lockState s).loc t x'.lock⟩ := by
  rw [lockState]
  congr 1
  funext u
  by_cases hu : u = t
  · subst hu
    simp
  · simp [lockState, hu]

/-- A step that is none of the lock leaves it alone. -/
theorem excl_same (h : Excl (lockState s)) (hm : m'.lock = s.mem.lock)
    (hx : x'.lock = (s.loc t).lock) : Excl (lockState ⟨m', Function.update s.loc t x'⟩) := by
  have hloc : Function.update (lockState s).loc t x'.lock = (lockState s).loc := by
    rw [hx]
    exact Function.update_eq_self t (lockState s).loc
  rw [lockState_update, hloc, hm]
  exact h

/-- A step keeps exclusion. -/
theorem excl_of_exec (h : Excl (lockState s)) (he : exec S t c s.mem (s.loc t) = some (m', x')) :
    Excl (lockState ⟨m', Function.update s.loc t x'⟩) := by
  have hstep : ∀ (call : Call) (w : LowLevelLock.Mem T) (lk : LowLevelLock.Local),
      LowLevelLock.exec t { c.lock with call := call } s.mem.lock (s.loc t).lock = some (w, lk) →
      m'.lock = w → x'.lock = lk → Excl (lockState ⟨m', Function.update s.loc t x'⟩) := by
    intro call w lk hlock hm hx
    rw [lockState_update, hm, hx]
    exact h.step hlock
  rw [exec] at he
  split at he
  · obtain ⟨p, -, heq⟩ := Option.map_eq_some_iff.mp he
    cases heq
    exact excl_same h rfl rfl
  · obtain ⟨⟨w, lk⟩, hlock, heq⟩ := Option.map_eq_some_iff.mp he
    cases heq
    exact hstep .lllLock w lk hlock rfl rfl
  · split at he
    · cases he
      exact excl_same h rfl rfl
    · obtain ⟨y, -, heq⟩ := Option.map_eq_some_iff.mp he
      cases heq
      exact excl_same h rfl rfl
  · obtain ⟨⟨w, lk⟩, hlock, heq⟩ := Option.map_eq_some_iff.mp he
    cases heq
    exact hstep .lllUnlock w lk hlock rfl rfl

/-- Every reached state is so. -/
theorem known_of_reach {start : δ → (T → κ) → Prop}
    {ok : Global T (Mem T δ) (Local κ Op L Res) → T × Choice T ε Op → Prop}
    (h : ((exec S).machine (IsInit start)).ReachVia ok s) : Known s := by
  refine ⟨?_, ?_⟩
  · refine Exec.invariant (P := fun s => Excl (lockState s)) (fun s hs => ?_)
      (fun s t c m x hx _ he => excl_of_exec hx he) h
    obtain ⟨hlock, -, hloc⟩ := hs
    constructor
    · simp [lockState, Holds, hlock, hloc]
    · simp [lockState, Holds, hloc]
    · simp [lockState, hloc]
  · refine Exec.invariant_loc (fun s t hs => ?_) (fun t c m x m' x' => placed_of_exec) h
    rw [Placed, (hs.2.2 t).2]
    exact (hs.2.2 t).1

omit [DecidableEq T] in
/-- At most one thread is in the code. -/
theorem Known.alone (h : Known s) {t u : T} {o : Op} {p : L}
    (ht : (s.loc t).lock.holds = true) (hu : (s.loc u).stage = .inside o p) : u = t :=
  h.excl.unique u t ((h.placed u).holds hu) ht

/-! ### The simulation -/

variable {σ : Type j} {O : Object T σ Op Res} {Rep : δ → σ → Prop} {Knows : T → κ → σ → Prop}

/-- A thread before its code may start it. -/
def Starts (S : Section T ε δ κ L Op Res) (t : T) (x : Local κ Op L Res) : Prop :=
  ∀ o p, x.stage = .taking o p → S.start t x.client o = some p

/-- A thread in its code has come from data that stand for `a`, by its own accesses. -/
def Inside (S : Section T ε δ κ L Op Res) (Rep : δ → σ → Prop) (a : σ) (data : δ) (t : T)
    (x : Local κ Op L Res) : Prop :=
  ∀ o p, x.stage = .inside o p → ∃ d p₀, Rep d a ∧ S.start t x.client o = some p₀ ∧
    S.Runs t (d, p₀) (data, p)

/-- The data stand for the state of the object while nobody is in the code. -/
structure Agrees (S : Section T ε δ κ L Op Res) (Rep : δ → σ → Prop) (Knows : T → κ → σ → Prop)
    (s : Global T (Mem T δ) (Local κ Op L Res)) (a : σ) : Prop where
  knows : ∀ t, Knows t (s.loc t).client a
  starts : ∀ t, Starts S t (s.loc t)
  data : (∀ t o p, (s.loc t).stage ≠ .inside o p) → Rep s.mem.data a
  inside : ∀ t, Inside S Rep a s.mem.data t (s.loc t)

variable {a a' : σ}

/-- A step of `t` outside the code. -/
theorem Agrees.outside (h : Agrees S Rep Knows s a) (hdata : m'.data = s.mem.data)
    (hclient : x'.client = (s.loc t).client) (hbefore : ∀ o p, (s.loc t).stage ≠ .inside o p)
    (hafter : ∀ o p, x'.stage ≠ .inside o p)
    (hstart : Starts S t x') :
    Agrees S Rep Knows ⟨m', Function.update s.loc t x'⟩ a where
  knows := (forall_loc_iff (P := fun u (x : Local κ Op L Res) => Knows u x.client a)).mpr
    ⟨hclient ▸ h.knows t, fun u _ => h.knows u⟩
  starts := (forall_loc_iff (P := Starts S)).mpr ⟨hstart, fun u _ => h.starts u⟩
  data hout := by
    show Rep m'.data a
    rw [hdata]
    refine h.data fun u => ?_
    by_cases hu : u = t
    · subst hu
      exact hbefore
    · intro o p hin
      refine hout u o p ?_
      show (Function.update s.loc t x' u).stage = _
      rwa [Function.update_of_ne hu]
  inside := by
    show ∀ u, Inside S Rep a m'.data u (Function.update s.loc t x' u)
    rw [hdata]
    exact (forall_loc_iff (P := Inside S Rep a s.mem.data)).mpr
      ⟨fun o p hin => absurd hin (hafter o p), fun u _ => h.inside u⟩

/-- A step of `t` while nobody else is in the code. -/
theorem Agrees.within (h : Agrees S Rep Knows s a)
    (hothers : ∀ u, u ≠ t → ∀ o p, (s.loc u).stage ≠ .inside o p)
    (hself : Knows t x'.client a') (hrest : ∀ u, u ≠ t → Knows u (s.loc u).client a')
    (hstart : ∀ o p, x'.stage ≠ .taking o p)
    (hdata : (∀ o p, x'.stage ≠ .inside o p) → Rep m'.data a')
    (hinside : Inside S Rep a' m'.data t x') :
    Agrees S Rep Knows ⟨m', Function.update s.loc t x'⟩ a' where
  knows := (forall_loc_iff (P := fun u (x : Local κ Op L Res) => Knows u x.client a')).mpr
    ⟨hself, hrest⟩
  starts := (forall_loc_iff (P := Starts S)).mpr
    ⟨fun o p hin => absurd hin (hstart o p), fun u _ => h.starts u⟩
  data hout := by
    refine hdata fun o p hin => hout t o p ?_
    show (Function.update s.loc t x' t).stage = _
    rwa [Function.update_self]
  inside := (forall_loc_iff (P := Inside S Rep a' m'.data)).mpr
    ⟨hinside, fun u hu o p hin => absurd hin (hothers u hu o p)⟩

/-- Each step is nothing to the atomic object, or the effect of a call. -/
theorem Agrees.step (hmeets : S.Meets O Rep Knows) (hknown : Known s)
    (h : Agrees S Rep Knows s a) (he : exec S t c s.mem (s.loc t) = some (m', x')) :
    ∃ a', O.Moves t (label c (s.loc t)) (phase (s.loc t).stage) a (phase x'.stage) a' ∧
      Agrees S Rep Knows ⟨m', Function.update s.loc t x'⟩ a' := by
  have hplaced := hknown.placed t
  have hplaced' := placed_of_exec hplaced he
  have hothers : (s.loc t).lock.holds = true →
      ∀ u, u ≠ t → ∀ o p, (s.loc u).stage ≠ .inside o p :=
    fun ht u hu o p hin => hu (hknown.alone ht hin)
  generalize hx : s.loc t = x at *
  rcases x with ⟨lk, q, stage⟩
  cases stage with
  | out =>
      obtain ⟨p, hp, heq⟩ := Option.map_eq_some_iff.mp he
      cases heq
      refine ⟨a, .inv c.op, h.outside rfl (by rw [hx]) (by simp [hx]) (by simp) ?_⟩
      intro o p' heq
      cases heq
      exact hp
  | taking o p =>
      obtain ⟨⟨w, lk'⟩, hlock, heq⟩ := Option.map_eq_some_iff.mp he
      cases heq
      have hp : S.start t q o = some p := by
        have := h.starts t o p (by rw [hx])
        rwa [hx] at this
      -- The call of `lll_lock` begins, goes on, or returns.
      rcases hplaced with rfl | ⟨hw, hh⟩ | rfl
      · refine ⟨a, .stutter, h.outside rfl (by rw [hx]) (by simp [hx]) (by simp [afterLock]) ?_⟩
        intro o' p' heq
        cases heq
        exact hp
      · rw [afterLock_of_waits hw]
        refine ⟨a, .stutter, h.outside rfl (by rw [hx]) (by simp [hx]) (by simp) ?_⟩
        intro o' p' heq
        cases heq
        exact hp
      · -- The lock is taken, so that nobody is in the code, and the data are whole.
        have hrep : Rep s.mem.data a := by
          refine h.data fun u o' p' hin => ?_
          by_cases hu : u = t
          · subst hu
            rw [hx] at hin
            cases hin
          · exact hothers rfl u hu o' p' hin
        refine ⟨a, .stutter, h.within (hothers rfl) ?_ (fun u _ => h.knows u) (by simp [afterLock])
          (fun hout => absurd rfl (hout o p)) ?_⟩
        · have := h.knows t
          rwa [hx] at this
        · intro o' p' heq
          cases heq
          exact ⟨s.mem.data, p, hrep, hp, .refl⟩
  | inside o p =>
      obtain ⟨d, p₀, hrep, hstart, hruns⟩ := h.inside t o p (by rw [hx])
      have hself := h.knows t
      rw [hx] at hstart hself
      have hholds : lk.holds = true := by
        have hlk : lk = ⟨.idle, true⟩ := hplaced
        rw [hlk]
      simp only [exec] at he
      split at he
      · -- The code is through, and the call takes effect while the lock is still taken.
        next r hr =>
        cases he
        obtain ⟨a', happly, hrep', hself'⟩ :=
          hmeets.alone t q o p₀ d a s.mem.data p r hrep hself hstart hruns hr
        exact ⟨a', .eff happly, h.within (hothers hholds) hself'
          (fun u hu => hmeets.others t o r a a' u _ hu happly (h.knows u)) (by simp)
          (fun _ => hrep') fun o' p' hin => by cases hin⟩
      · -- The object does not see the accesses in between.
        obtain ⟨⟨d', p'⟩, hexec, heq⟩ := Option.map_eq_some_iff.mp he
        cases heq
        refine ⟨a, .stutter, h.within (hothers hholds) hself (fun u _ => h.knows u) (by simp)
          (fun hout => absurd rfl (hout o p')) ?_⟩
        intro o' p'' heq
        cases heq
        exact ⟨d, p₀, hrep, hstart, hruns.tail ⟨c.env, hexec⟩⟩
  | giving r =>
      obtain ⟨⟨w, lk'⟩, hlock, heq⟩ := Option.map_eq_some_iff.mp he
      cases heq
      have hnext : Agrees S Rep Knows
          ⟨{ s.mem with lock := w }, Function.update s.loc t ⟨lk', q, afterUnlock r lk.pc⟩⟩ a := by
        refine h.outside rfl (by rw [hx]) (by simp [hx]) ?_ ?_
        · intro o p
          cases lk.pc <;> simp [afterUnlock]
        · intro o p
          cases lk.pc <;> simp [afterUnlock]
      refine ⟨a, ?_, hnext⟩
      -- The call of `lll_unlock`, and then the return of the whole call.
      rcases hplaced with rfl | rfl | rfl | rfl
      · exact .stutter
      · exact .stutter
      · exact .stutter
      · exact .res r

/-- The calls simulate the atomic object. -/
theorem simulates (hmeets : S.Meets O Rep Knows) {start : δ → (T → κ) → Prop}
    {ok : Global T (Mem T δ) (Local κ Op L Res) → T × Choice T ε Op → Prop}
    (hinit : ∀ d f, start d f → ∃ a, O.init a ∧ Rep d a ∧ ∀ t, Knows t (f t) a) :
    (exec S).Simulates (IsInit start) ok label O (fun x q => q = phase x.stage) Known
      (Agrees S Rep Knows) where
  init := by
    rintro s ⟨-, hstart, hloc⟩
    obtain ⟨a, ha, hrep, hknows⟩ := hinit _ _ hstart
    refine ⟨⟨a, ha, hknows, fun t o p hin => ?_, fun _ => hrep, fun t o p hin => ?_⟩, fun t => ?_⟩
    · rw [(hloc t).2] at hin
      cases hin
    · rw [(hloc t).2] at hin
      cases hin
    · rw [(hloc t).2]
      rfl
  step := by
    rintro s t c m x a q hknown h rfl - he
    obtain ⟨a', hmove, h'⟩ := h.step hmeets hknown he
    exact ⟨a', _, hmove, rfl, h'⟩

/-- In every reached state the data stand for a state of the object, or the thread in its
code will make them so. -/
theorem exists_agrees (hmeets : S.Meets O Rep Knows) {start : δ → (T → κ) → Prop}
    {ok : Global T (Mem T δ) (Local κ Op L Res) → T × Choice T ε Op → Prop}
    (hinit : ∀ d f, start d f → ∃ a, O.init a ∧ Rep d a ∧ ∀ t, Knows t (f t) a)
    (h : ((exec S).machine (IsInit start)).ReachVia ok s) : ∃ a, Agrees S Rep Knows s a := by
  obtain ⟨H, hH⟩ := Exec.exists_history label h
  obtain ⟨-, a, -, -, hs, -⟩ := hH.marked (fun _ => known_of_reach) (simulates hmeets hinit)
  exact ⟨a, hs⟩

/-- Calls under a low-level lock are atomic: when the code of each, run by one thread alone,
does what the atomic object says, every history of all threads is one of the object. -/
theorem guarded_linearizable (hmeets : S.Meets O Rep Knows) {start : δ → (T → κ) → Prop}
    {ok : Global T (Mem T δ) (Local κ Op L Res) → T × Choice T ε Op → Prop}
    (hinit : ∀ d f, start d f → ∃ a, O.init a ∧ Rep d a ∧ ∀ t, Knows t (f t) a)
    {H : List (T × Event Op Res)}
    (h : (exec S).History (IsInit start) ok label H s) : O.Linearizable H :=
  h.linearizable (fun _ => known_of_reach) (simulates hmeets hinit)

end Hlpt.LowLevelLock.Guarded
