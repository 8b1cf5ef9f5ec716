import Hlpt.Barrier.Steps
import Hlpt.Lib.Counter

/-!
# `Hlpt.Barrier.Destroy`: the references to a barrier

`__nrefs` counts the calls of `pthread_barrier_wait` that are inside, and one more until
`pthread_barrier_destroy` takes its own reference away. From then on it comes to 0 when the
last call leaves. That call wakes the destroyer, and no other one does.

`Refs` is what is left of the barrier when only the references are looked at.

* `effect_of_exec`: what each access does to the references.
* `Inv.step`: the count, and why the destroyer is not left asleep.
* `barrier_destroy_waits`: what `pthread_barrier_destroy` waits for.
-/

set_option autoImplicit false

namespace Hlpt.Barrier

open Hlpt.Lib

universe u

/-- `__nrefs`, and the threads asleep on it. -/
structure Refs (T : Type u) where
  nrefs : BitVec 32
  sleepers : Finset T

variable {T : Type u}

/-- The references to the barrier. -/
def Mem.refs (m : Mem T) : Refs T := ⟨m.nrefs, m.refSleepers⟩

/-- The references that a thread has: one from the first access of `pthread_barrier_wait` to
the last. -/
def Pc.held : Pc → ℕ
  | .seqLoad | .cntAdd _ | .loopTest _ | .loopWait _ | .loopAsleep _ | .relLoad | .relStore _
  | .relWake | .lateWait _ | .lateAsleep | .refsDec _ => 1
  | .idle | .refsAdd | .refsWake _ | .ret _ | .destDec | .destWait _ | .destAsleep | .destLoad
  | .destRet => 0

/-- The reference of `pthread_barrier_init`, which the destroyer takes away. -/
def Pc.base : Pc → ℕ
  | .destWait _ | .destAsleep | .destLoad | .destRet => 0
  | .idle | .refsAdd | .seqLoad | .cntAdd _ | .loopTest _ | .loopWait _ | .loopAsleep _
  | .relLoad | .relStore _ | .relWake | .lateWait _ | .lateAsleep | .refsDec _ | .refsWake _
  | .ret _ | .destDec => 1

/-- Inside `pthread_barrier_destroy`. -/
def Pc.destroying : Pc → Bool
  | .destDec | .destWait _ | .destAsleep | .destLoad | .destRet => true
  | .idle | .refsAdd | .seqLoad | .cntAdd _ | .loopTest _ | .loopWait _ | .loopAsleep _
  | .relLoad | .relStore _ | .relWake | .lateWait _ | .lateAsleep | .refsDec _ | .refsWake _
  | .ret _ => false

/-- A call of `pthread_barrier_wait` that has an access to the fields of the barrier still to
make. -/
def Pc.inCall (pc : Pc) : Prop := pc = .refsAdd ∨ pc.held = 1

/-- Inside of a call, the references stay as they are. -/
structure Within (r : Refs T) (pc : Pc) (r' : Refs T) (pc' : Pc) : Prop where
  refs : r' = r
  held : pc.held = 1
  held' : pc'.held = 1

variable [DecidableEq T]

/-- What an access of the thread `t` does to the references. -/
inductive Effect (t : T) (r : Refs T) : Pc → Refs T → Pc → Prop
  -- `pthread_barrier_wait`
  | start : Effect t r .idle r .refsAdd
  | enter : Effect t r .refsAdd { r with nrefs := r.nrefs + 1 } .seqLoad
  | within {pc pc' : Pc} {r' : Refs T} (h : Within r pc r' pc') : Effect t r pc r' pc'
  | last {res : WaitRet} (hr : r.nrefs = 1) :
      Effect t r (.refsDec res) { r with nrefs := r.nrefs - 1 } (.refsWake res)
  | leave {res : WaitRet} (hr : r.nrefs ≠ 1) :
      Effect t r (.refsDec res) { r with nrefs := r.nrefs - 1 } (.ret res)
  | wake {res : WaitRet} {pick : Option T} {q : Finset T}
      (hq : wakeOne r.sleepers pick = some q) :
      Effect t r (.refsWake res) { r with sleepers := q } (.ret res)
  | ret {res : WaitRet} : Effect t r (.ret res) r .idle
  -- `pthread_barrier_destroy`
  | destroy : Effect t r .idle r .destDec
  | destDec (hr : r.nrefs - 1 ≠ 0) :
      Effect t r .destDec { r with nrefs := r.nrefs - 1 } (.destWait (r.nrefs - 1))
  | destAlone (hr : r.nrefs - 1 = 0) :
      Effect t r .destDec { r with nrefs := r.nrefs - 1 } .destRet
  | destWait : Effect t r (.destWait r.nrefs) { r with sleepers := insert t r.sleepers } .destAsleep
  | destChanged {refc : BitVec 32} : Effect t r (.destWait refc) r .destLoad
  | destAwake : Effect t r .destAsleep { r with sleepers := r.sleepers.erase t } .destLoad
  | destLoad (hr : r.nrefs ≠ 0) : Effect t r .destLoad r (.destWait r.nrefs)
  | destDone (hr : r.nrefs = 0) : Effect t r .destLoad r .destRet
  | destRet : Effect t r .destRet r .idle

variable {total : BitVec 32} {t : T} {c : Choice T} {m m' : Mem T} {l l' : Local}

theorem held_afterAdd (total cnt seq : BitVec 32) : (afterAdd total cnt seq).held = 1 := by
  unfold afterAdd
  split
  · rfl
  · split <;> rfl

/-- Every access is one of these. -/
theorem effect_of_exec (h : exec total t c m l = some (m', l')) :
    Effect t m.refs l.pc m'.refs l'.pc := by
  rcases l with ⟨pc, arrival⟩
  cases pc with
  | idle =>
    cases hc : c.call with
    | wait =>
      simp only [exec, hc] at h
      cases h
      exact .start
    | destroy =>
      simp only [exec, hc] at h
      cases h
      exact .destroy
  | refsAdd =>
    cases h
    exact .enter
  | seqLoad | relLoad | relStore v | relWake =>
    cases h
    exact .within ⟨rfl, rfl, rfl⟩
  | cntAdd seq =>
    cases h
    exact .within ⟨rfl, rfl, held_afterAdd _ _ _⟩
  | loopTest seq =>
    cases h
    refine .within ⟨rfl, rfl, ?_⟩
    simp only
    split <;> rfl
  | loopWait seq | lateWait seq =>
    simp only [exec] at h
    split at h
    · cases h
      exact .within ⟨rfl, rfl, rfl⟩
    · cases h
      exact .within ⟨rfl, rfl, rfl⟩
  | loopAsleep seq | lateAsleep =>
    obtain ⟨-, h⟩ := Option.ite_none_left_eq_some.mp h
    cases h
    exact .within ⟨rfl, rfl, rfl⟩
  | refsDec r =>
    cases h
    simp only
    split
    · next hm => exact .last hm
    · next hm => exact .leave hm
  | refsWake r =>
    obtain ⟨q, hq, hr⟩ := Option.map_eq_some_iff.mp h
    cases hr
    exact .wake hq
  | ret r =>
    cases h
    exact .ret
  | destDec =>
    cases h
    simp only
    split
    · next hm => exact .destDec hm
    · next hm => exact .destAlone (not_not.mp hm)
  | destWait refc =>
    simp only [exec] at h
    split at h
    · next hm =>
      cases h
      subst hm
      exact .destWait
    · cases h
      exact .destChanged
  | destAsleep =>
    obtain ⟨-, h⟩ := Option.ite_none_left_eq_some.mp h
    cases h
    exact .destAwake
  | destLoad =>
    cases h
    simp only
    split
    · next hm => exact .destLoad hm
    · next hm => exact .destDone (not_not.mp hm)
  | destRet =>
    cases h
    exact .destRet

/-! ### The count -/

variable [Fintype T] {d : T} {r r' : Refs T} {pc : T → Pc} {p p' : Pc}

theorem Pc.held_le (p : Pc) : p.held ≤ 1 := by
  cases p <;> simp [Pc.held]

omit [DecidableEq T] in
theorem sum_held_le (pc : T → Pc) : ∑ u, (pc u).held ≤ Fintype.card T := by
  rw [Fintype.card_eq_sum_ones]
  exact Finset.sum_le_sum fun u _ => (pc u).held_le

omit [DecidableEq T] in
/-- When the references are not 0, a thread has one. -/
theorem exists_held (h : ∑ u, (pc u).held ≠ 0) : ∃ u, (pc u).held = 1 := by
  by_contra hnone
  refine h (Finset.sum_eq_zero fun u _ => ?_)
  have hle := (pc u).held_le
  have hne : (pc u).held ≠ 1 := fun hu => hnone ⟨u, hu⟩
  omega

/-- When they are not 1 either, another thread has one, too. -/
theorem exists_held_ne (h : ∑ u, (pc u).held ≠ 1) (ht : (pc t).held = 1) :
    ∃ u, u ≠ t ∧ (pc u).held = 1 := by
  by_contra hnone
  refine h ((sum_loc_eq_of_alone fun u hut => ?_).trans ht)
  have hle := (pc u).held_le
  have hne : (pc u).held ≠ 1 := fun hu => hnone ⟨u, hut, hu⟩
  omega

/-- What `__nrefs` counts, when `d` is the destroyer. -/
def references (d : T) (pc : T → Pc) : ℕ := (pc d).base + ∑ u, (pc u).held

/-- The count after the thread `t` has moved. -/
theorem references_update (d t : T) (pc : T → Pc) (p' : Pc) :
    references d (Function.update pc t p') + ((pc t).held + if t = d then (pc t).base else 0) =
      references d pc + (p'.held + if t = d then p'.base else 0) := by
  have hheld := sum_update Pc.held pc t p'
  unfold references
  by_cases htd : t = d
  · subst htd
    rw [Function.update_self, if_pos rfl, if_pos rfl]
    omega
  · rw [Function.update_of_ne (Ne.symm htd), if_neg htd, if_neg htd]
    omega

/-- `__nrefs` and what it counts change alike. Only the destroyer takes the reference of
`pthread_barrier_init` away. -/
theorem countStep_of_effect (h : Effect t r p r' p') (hp : pc t = p)
    (honly : p.destroying = true → t = d) (hret : p ≠ .destRet) :
    CountStep r.nrefs r'.nrefs (references d pc) (references d (Function.update pc t p')) := by
  have hsum := references_update d t pc p'
  rw [hp] at hsum
  cases h with
  | enter =>
      refine .inr (.inl ⟨rfl, ?_⟩)
      simp only [Pc.held, Pc.base] at hsum
      omega
  | last hr | leave hr =>
      refine .inr (.inr ⟨rfl, ?_⟩)
      simp only [Pc.held, Pc.base] at hsum
      omega
  | destDec hr | destAlone hr =>
      refine .inr (.inr ⟨rfl, ?_⟩)
      rw [if_pos (honly rfl), if_pos (honly rfl)] at hsum
      simp only [Pc.held, Pc.base] at hsum
      omega
  | within hw =>
      refine .inl ⟨congrArg Refs.nrefs hw.refs, ?_⟩
      have hbase : ∀ q : Pc, q.held = 1 → q.base = 1 := by
        intro q hq
        cases q <;> simp_all [Pc.held, Pc.base]
      rw [hw.held, hw.held', hbase p hw.held, hbase p' hw.held'] at hsum
      omega
  | destRet => exact absurd rfl hret
  | _ =>
      refine .inl ⟨rfl, ?_⟩
      simp only [Pc.held, Pc.base] at hsum
      omega

/-! ### The destroyer -/

/-- The count, and what the destroyer `d` may rely on. -/
structure Counted (d : T) (r : Refs T) (pc : T → Pc) : Prop where
  count : r.nrefs = BitVec.ofNat 32 (references d pc)
  only : ∀ u, (pc u).destroying = true → u = d
  asleep : ∀ u ∈ r.sleepers, u = d ∧ pc d = .destAsleep
  begun : (pc d).destroying = true → ∀ u, pc u ≠ .refsAdd
  waits : ∀ refc, pc d = .destWait refc → refc ≠ 0
  alone : pc d = .destRet → ∀ u, (pc u).held = 0
  wakes : d ∈ r.sleepers → (∃ u, (pc u).held = 1) ∨ ∃ u res, pc u = .refsWake res

/-- An access keeps to the rules of the destruction: `d` destroys the barrier, when no call is
before its first increment, and no call starts afterwards. -/
structure Rules (d t : T) (pc : T → Pc) (p' : Pc) : Prop where
  destroyer : pc t = .idle → p' = .destDec → t = d ∧ ∀ u, pc u ≠ .refsAdd
  starts : pc t = .idle → (pc d).destroying = false
  ends : pc t ≠ .destRet

omit [DecidableEq T] in
/-- While the destroyer is behind its decrement, `__nrefs` is the number of the calls. -/
theorem nrefs_iff (hcount : r.nrefs = BitVec.ofNat 32 (references d pc))
    (hbase : (pc d).base = 0) (hcard : Fintype.card T < 2 ^ 32) {k : ℕ} (hk : k < 2 ^ 32) :
    r.nrefs = BitVec.ofNat 32 k ↔ ∑ u, (pc u).held = k := by
  rw [hcount, references, hbase, Nat.zero_add]
  exact ofNat_eq_iff (lt_of_le_of_lt (sum_held_le pc) hcard) hk

/-- A thread that starts to destroy is `d`. -/
theorem Counted.only_step (hs : Counted d r pc) (h : Effect t r (pc t) r' p')
    (hrules : Rules d t pc p') (u : T) (hu : (Function.update pc t p' u).destroying = true) :
    u = d := by
  by_cases hut : u = t
  · subst hut
    rw [Function.update_self] at hu
    generalize hp : pc u = p at h
    cases h with
    | destroy => exact (hrules.destroyer hp rfl).1
    | within hw =>
        have hheld := hw.held'
        cases p' <;> simp [Pc.destroying, Pc.held] at hu hheld
    | start | enter | last | leave | wake | ret | destRet => cases hu
    | _ =>
        refine hs.only u ?_
        rw [hp]
        rfl
  · rw [Function.update_of_ne hut] at hu
    exact hs.only u hu

/-- Only the destroyer sleeps on `__nrefs`. -/
theorem Counted.asleep_step (hs : Counted d r pc) (h : Effect t r (pc t) r' p')
    (honly : (pc t).destroying = true → t = d) (u : T) (hu : u ∈ r'.sleepers) :
    u = d ∧ Function.update pc t p' d = .destAsleep := by
  -- A thread that was asleep before, and is not the one that moves.
  have hold : ∀ v ∈ r.sleepers, pc t ≠ .destAsleep →
      v = d ∧ Function.update pc t p' d = .destAsleep := by
    intro v hv hne
    obtain ⟨rfl, hd⟩ := hs.asleep v hv
    refine ⟨rfl, ?_⟩
    rw [Function.update_of_ne, hd]
    rintro rfl
    exact hne hd
  generalize hp : pc t = p at h honly hold
  cases h with
  | destWait =>
      obtain rfl := honly rfl
      rcases Finset.mem_insert.mp hu with rfl | hu
      · exact ⟨rfl, Function.update_self ..⟩
      · exact hold u hu (by simp)
  | destAwake =>
      obtain rfl := honly rfl
      obtain ⟨hne, hu⟩ := Finset.mem_erase.mp hu
      exact absurd (hs.asleep u hu).1 hne
  | wake hq => exact hold u (wakeOne_subset hq hu) (by simp)
  | within hw =>
      rw [hw.refs] at hu
      refine hold u hu ?_
      rintro rfl
      cases hw.held
  | _ => exact hold u hu (by simp)

/-- No call is before its first increment once the barrier is being destroyed. -/
theorem Counted.begun_step (hs : Counted d r pc) (h : Effect t r (pc t) r' p')
    (hrules : Rules d t pc p') (hd : (Function.update pc t p' d).destroying = true) (u : T) :
    Function.update pc t p' u ≠ .refsAdd := by
  have hp' : p' = .refsAdd → pc t = .idle := by
    rintro rfl
    generalize pc t = p at h
    cases h with
    | start => rfl
    | within hw => cases hw.held'
  have hold : p' ≠ .refsAdd → (∀ v, pc v ≠ .refsAdd) → Function.update pc t p' u ≠ .refsAdd := by
    intro hne hnone
    by_cases hut : u = t
    · subst hut
      rwa [Function.update_self]
    · rw [Function.update_of_ne hut]
      exact hnone u
  by_cases hdt : d = t
  · subst hdt
    rw [Function.update_self] at hd
    have hne : p' ≠ .refsAdd := by
      rintro rfl
      cases hd
    refine hold hne ?_
    by_cases hbefore : (pc d).destroying = true
    · exact hs.begun hbefore
    · -- The destroyer has just called `pthread_barrier_destroy`.
      generalize hp : pc d = p at h hbefore
      cases h with
      | destroy => exact (hrules.destroyer hp rfl).2
      | within hw =>
          have hheld := hw.held'
          cases p' <;> simp [Pc.destroying, Pc.held] at hd hheld
      | start | enter | last | leave | wake | ret | destRet => cases hd
      | _ => exact absurd rfl hbefore
  · rw [Function.update_of_ne hdt] at hd
    refine hold (fun hstart => ?_) (hs.begun hd)
    have hno := hrules.starts (hp' hstart)
    rw [hd] at hno
    cases hno

/-- The destroyer waits for a value that is not 0. -/
theorem Counted.waits_step (hs : Counted d r pc) (h : Effect t r (pc t) r' p') (refc : BitVec 32)
    (hd : Function.update pc t p' d = .destWait refc) : refc ≠ 0 := by
  by_cases hdt : d = t
  · subst hdt
    rw [Function.update_self] at hd
    subst hd
    generalize pc d = p at h
    cases h with
    | destDec hr | destLoad hr => exact hr
    | within hw => cases hw.held'
  · rw [Function.update_of_ne hdt] at hd
    exact hs.waits refc hd

/-- When the destroyer returns, no call has a reference. -/
theorem Counted.alone_step (hs : Counted d r pc) (h : Effect t r (pc t) r' p')
    (hcount : r'.nrefs = BitVec.ofNat 32 (references d (Function.update pc t p')))
    (hcard : Fintype.card T < 2 ^ 32) (hd : Function.update pc t p' d = .destRet) (u : T) :
    (Function.update pc t p' u).held = 0 := by
  by_cases hdt : d = t
  · -- It has found `__nrefs` at 0.
    have hzero : r'.nrefs = 0 := by
      subst hdt
      rw [Function.update_self] at hd
      subst hd
      generalize pc d = p at h
      cases h with
      | destAlone hr | destDone hr => exact hr
      | within hw => cases hw.held'
    have hbase : (Function.update pc t p' d).base = 0 := by rw [hd, Pc.base]
    have hsum := (nrefs_iff hcount hbase hcard (k := 0) (by omega)).mp hzero
    exact Nat.le_zero.mp (hsum ▸ le_sum_loc Pc.held _ u)
  · rw [Function.update_of_ne hdt] at hd
    have hnone := hs.alone hd
    by_cases hut : u = t
    · subst hut
      rw [Function.update_self]
      have hself := hnone u
      generalize hp : pc u = p at h hself
      cases h with
      | enter => exact absurd hp (hs.begun (by rw [hd, Pc.destroying]) u)
      | within hw =>
          rw [hw.held] at hself
          cases hself
      | _ => rfl
    · rw [Function.update_of_ne hut]
      exact hnone u

/-- While the destroyer is asleep, a call has a reference or its wake ahead. -/
theorem Counted.wakes_step (hs : Counted d r pc) (h : Effect t r (pc t) r' p')
    (honly : (pc t).destroying = true → t = d) (hcard : Fintype.card T < 2 ^ 32)
    (hd : d ∈ r'.sleepers) : (∃ u, (Function.update pc t p' u).held = 1) ∨
      ∃ u res, Function.update pc t p' u = .refsWake res := by
  have hother : ∀ u, u ≠ t → (pc u).held = 1 → ∃ u, (Function.update pc t p' u).held = 1 := by
    intro u hut hu
    exact ⟨u, by rwa [Function.update_of_ne hut]⟩
  -- A thread that has no part in it moves.
  have hkeep : (pc t).held = 0 → (∀ res, pc t ≠ .refsWake res) → d ∈ r.sleepers →
      (∃ u, (Function.update pc t p' u).held = 1) ∨
        ∃ u res, Function.update pc t p' u = .refsWake res := by
    intro hheld hwake hold
    rcases hs.wakes hold with ⟨u, hu⟩ | ⟨u, res, hu⟩
    · refine .inl (hother u ?_ hu)
      rintro rfl
      rw [hheld] at hu
      cases hu
    · refine .inr ⟨u, res, ?_⟩
      rw [Function.update_of_ne, hu]
      rintro rfl
      exact hwake res hu
  have hbase : d ∈ r.sleepers → (pc d).base = 0 := by
    intro hold
    rw [(hs.asleep d hold).2, Pc.base]
  generalize hp : pc t = p at h honly hkeep
  cases h with
  | destWait =>
      -- It goes to sleep on a value that is not 0, so a call is inside.
      obtain rfl := honly rfl
      have hne := hs.waits _ hp
      have hbase' : (pc t).base = 0 := by rw [hp, Pc.base]
      have hsum : ∑ u, (pc u).held ≠ 0 := by
        intro hzero
        exact hne ((nrefs_iff hs.count hbase' hcard (k := 0) (by omega)).mpr hzero)
      obtain ⟨u, hu⟩ := exists_held hsum
      refine .inl (hother u ?_ hu)
      rintro rfl
      rw [hp] at hu
      cases hu
  | destAwake =>
      obtain rfl := honly rfl
      exact absurd hd (Finset.notMem_erase t r.sleepers)
  | last hr => exact .inr ⟨t, _, Function.update_self ..⟩
  | leave hr =>
      -- This is not the last one.
      have hsum : ∑ u, (pc u).held ≠ 1 := by
        intro hone
        exact hr ((nrefs_iff hs.count (hbase hd) hcard (k := 1) (by omega)).mpr hone)
      obtain ⟨u, hut, hu⟩ := exists_held_ne hsum (t := t) (by rw [hp, Pc.held])
      exact .inl (hother u hut hu)
  | wake hq =>
      -- The destroyer is the only sleeper, so the wake takes it out.
      exfalso
      rcases wakeOne_eq_some.mp hq with ⟨-, -, rfl⟩ | ⟨u, hu, -, rfl⟩
      · exact absurd hd (Finset.notMem_empty d)
      · rw [(hs.asleep u hu).1] at hd
        exact absurd hd (Finset.notMem_erase d r.sleepers)
  | within hw =>
      exact .inl ⟨t, by rw [Function.update_self, hw.held']⟩
  | _ => exact hkeep rfl (by simp) hd

/-- A step keeps the count. -/
theorem Counted.step (hs : Counted d r pc) (h : Effect t r (pc t) r' p')
    (hrules : Rules d t pc p') (hcard : Fintype.card T < 2 ^ 32) :
    Counted d r' (Function.update pc t p') := by
  have honly : (pc t).destroying = true → t = d := hs.only t
  have hcount := word_step hs.count (countStep_of_effect h rfl honly hrules.ends)
  exact {
    count := hcount
    only := hs.only_step h hrules
    asleep := hs.asleep_step h honly
    begun := hs.begun_step h hrules
    waits := hs.waits_step h
    alone := hs.alone_step h hcount hcard
    wakes := hs.wakes_step h honly hcard }

/-! ### Whole runs -/

/-- The condition on a step: only `d` destroys the barrier, with no call before its first
increment. No call starts afterwards, and the run ends when `pthread_barrier_destroy`
returns. -/
def Orderly (d : T) (s : Global T (Mem T) Local) (a : T × Choice T) : Prop :=
  ((s.loc a.1).pc = .idle → (s.loc d).pc.destroying = false ∧
    (a.2.call = .destroy → a.1 = d ∧ ∀ u, (s.loc u).pc ≠ .refsAdd)) ∧
  (s.loc a.1).pc ≠ .destRet

omit [DecidableEq T] in
theorem counted_init {cnt : BitVec 32} {s : Global T (Mem T) Local} (h : IsInit cnt s) (d : T) :
    Counted d s.mem.refs fun u => (s.loc u).pc := by
  obtain ⟨hinit, hloc⟩ := h
  have hpc : (fun u => (s.loc u).pc) = fun _ => Pc.idle := funext fun u => by rw [hloc u]
  unfold pthreadBarrierInit at hinit
  split at hinit
  · cases hinit
  have hmem : s.mem.refs = ⟨1, ∅⟩ := by
    rw [← (Prod.mk.inj (Except.ok.inj hinit)).1]
    rfl
  rw [hpc, hmem]
  constructor
  · simp [references, Pc.base, Pc.held]
  · nofun
  · exact fun u hu => absurd hu (Finset.notMem_empty u)
  · nofun
  · nofun
  · nofun
  · exact fun hd => absurd hd (Finset.notMem_empty d)

omit [Fintype T] in
/-- The control points after a step. -/
theorem pc_update (f : T → Local) (t : T) (l : Local) :
    (fun u => (Function.update f t l u).pc) = Function.update (fun u => (f u).pc) t l.pc := by
  funext u
  by_cases hut : u = t
  · subst hut
    rw [Function.update_self, Function.update_self]
  · rw [Function.update_of_ne hut, Function.update_of_ne hut]

omit [Fintype T] in
/-- A step that is orderly keeps to the rules. -/
theorem rules_of_orderly {s : Global T (Mem T) Local} {d : T} (hok : Orderly d s (t, c))
    (h : exec total t c s.mem (s.loc t) = some (m, l)) :
    Rules d t (fun u => (s.loc u).pc) l.pc := by
  obtain ⟨hidle, hret⟩ := hok
  refine ⟨fun hpc hdest => (hidle hpc).2 ?_, fun hpc => (hidle hpc).1, hret⟩
  generalize hl : s.loc t = l₀ at h hpc
  obtain ⟨pc, arrival⟩ := l₀
  obtain rfl : pc = .idle := hpc
  cases hc : c.call with
  | wait =>
      simp only [exec, hc] at h
      obtain ⟨-, rfl⟩ := Prod.mk.inj (Option.some.inj h)
      cases hdest
  | destroy => rfl

theorem counted_of_reach {cnt : BitVec 32} {d : T} {s : Global T (Mem T) Local}
    (hcard : Fintype.card T < 2 ^ 32) (h : (machine cnt).ReachVia (Orderly d) s) :
    Counted d s.mem.refs fun u => (s.loc u).pc := by
  refine Exec.invariant (P := fun s => Counted d s.mem.refs fun u => (s.loc u).pc)
    (fun _ hinit => counted_init hinit d) ?_ h
  intro s t c m l hs hok hexec
  show Counted d m.refs fun u => (Function.update s.loc t l u).pc
  rw [pc_update]
  exact hs.step (effect_of_exec hexec) (rules_of_orderly hok hexec) hcard

/-- `pthread_barrier_destroy` returns only when no call has an access to the fields of the
barrier ahead. And while it is asleep, when all calls have given their references back, one of
them has its wake still ahead. -/
theorem barrier_destroy_waits (cnt : BitVec 32) (d : T) (hcard : Fintype.card T < 2 ^ 32)
    {s : Global T (Mem T) Local} (h : (machine cnt).ReachVia (Orderly d) s) :
    ((s.loc d).pc = .destRet → ∀ u, ¬ (s.loc u).pc.inCall) ∧
      ((s.loc d).pc = .destAsleep → d ∈ s.mem.refSleepers → (∀ u, ¬ (s.loc u).pc.inCall) →
        ∃ u res, (s.loc u).pc = .refsWake res) := by
  have hs := counted_of_reach hcard h
  constructor
  · rintro hd u (hstart | hheld)
    · exact hs.begun (by rw [hd, Pc.destroying]) u hstart
    · rw [hs.alone hd u] at hheld
      cases hheld
  · intro _ hq hnone
    rcases hs.wakes hq with ⟨u, hu⟩ | hwake
    · exact absurd (.inr hu) (hnone u)
    · exact hwake

instance (pc : Pc) : Decidable pc.inCall := inferInstanceAs (Decidable (_ ∨ _))

instance (d : T) (s : Global T (Mem T) Local) (a : T × Choice T) : Decidable (Orderly d s a) :=
  inferInstanceAs (Decidable ((_ → _ ∧ (_ → _ ∧ _)) ∧ _))

/-- The next access of one of two threads. -/
def goOn (t : Bool) : Bool × Choice Bool := (t, {})

/-- One thread is the only one of its round. The other one destroys the barrier while the first
is inside, and goes to sleep. -/
theorem barrier_destroy_waits_two : ∃ s : Global Bool (Mem Bool) Local,
    (machine 1).ReachVia (Orderly true) s ∧ (s.loc true).pc = .destAsleep ∧
      true ∈ s.mem.refSleepers ∧ (∀ u, ¬ (s.loc u).pc.inCall) ∧
      ∃ u res, (s.loc u).pc = .refsWake res := by
  have hinit : IsInit 1 (⟨⟨0, 0, 1, ∅, ∅, 0, fun _ => none⟩, fun _ => ⟨.idle, 0⟩⟩ :
      Global Bool (Mem Bool) Local) := ⟨rfl, fun _ => rfl⟩
  obtain ⟨s, hs, hd, hq, hnone⟩ := (machine 1).exists_reachVia (Orderly true) hinit
    (List.replicate 3 (goOn false) ++ [(true, { call := .destroy }), goOn true, goOn true] ++
      List.replicate 5 (goOn false))
    (fun s => (s.loc true).pc = .destAsleep ∧ true ∈ s.mem.refSleepers ∧
      ∀ u, ¬ (s.loc u).pc.inCall) (by decide)
  exact ⟨s, hs, hd, hq, hnone, (barrier_destroy_waits 1 true (by decide) hs).2 hd hq hnone⟩

end Hlpt.Barrier
