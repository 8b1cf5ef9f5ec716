import Hlpt.Registry.Invariant

/-!
# `Hlpt.Registry.Sound`: the registry of the threads and the end of the process

`Counted` says that `__pthread_total` is the sum of what the threads contribute: 1 each
from the time they are resumed to their final decrement, and 1 for a creation that has
raised it. So a decrement that finds 1 is the last one.

* `registry_sound`: in every run whose forks meet `ForkOk`, the list is a ring of the
  registered threads, the number is large enough, and `exit (0)` is called by the last
  thread and by no other.
* `registry_fails`: what the child of another fork does.
-/

set_option autoImplicit false

namespace Hlpt.Registry

open Hlpt.Lib

universe u

variable {T : Type u} [DecidableEq T] [Fintype T]
variable {s s' : State T} {t u c : T} {ch : Choice T} {p q : Pc T} {m : Mem T}

/-! ### The number of threads -/

/-- `__pthread_total` is the sum of the shares. A thread that called `exit` is the last one,
and unless one has there is a thread that has not done its final decrement. -/
structure Counted (s : State T) : Prop where
  total : s.mem.total.toNat = ∑ u, (kind s u).share
  exit : ∀ t, s.loc t = .exit →
    ∀ u, u ≠ t → (kind s u).phase = .absent ∨ (kind s u).phase = .ended
  last : (∃ t, (kind s t).phase = .alive) ∨ ∃ t, s.loc t = .exit

/-- The shares after a step. -/
theorem sum_go : (∑ u, (kind (go s t q m) u).share) + (kind s t).share =
    (∑ u, (kind s u).share) + q.kind.share :=
  sum_update (fun p : Pc T => p.kind.share) s.loc t q

theorem sum_go₂ (hct : t ≠ c) :
    (∑ u, (kind (go₂ s t q c p m) u).share) + (kind s t).share + (kind s c).share =
      (∑ u, (kind s u).share) + q.kind.share + p.kind.share := by
  have h₁ := sum_update (fun p : Pc T => p.kind.share) s.loc c p
  have h₂ := sum_update (fun p : Pc T => p.kind.share) (Function.update s.loc c p) t q
  rw [Function.update_of_ne hct] at h₂
  unfold kind go₂
  dsimp only at h₁ h₂ ⊢
  omega

omit [DecidableEq T] [Fintype T] in
/-- The phases of one place. -/
theorem eq_of_phase (p : Pc T) : (p.kind.phase = .unborn → p = .unborn) ∧
    (p.kind.phase = .exit → p = .exit) ∧ (p.kind.phase = .crashed → p = .crashed) := by
  cases p <;> exact ⟨by intro h; cases h <;> rfl, by intro h; cases h <;> rfl,
    by intro h; cases h <;> rfl⟩

omit [DecidableEq T] [Fintype T] in
/-- A thread in a creation is alive. -/
theorem alive_of_child (h : (kind s t).child = some c) : (kind s t).phase = .alive := by
  unfold kind at h ⊢
  cases hp : s.loc t <;> rw [hp] at h <;> first | rfl | cases h

omit [DecidableEq T] [Fintype T] in
/-- A thread in a creation has a share. -/
theorem share_of_child (h : (kind s t).child = some c) : (kind s t).share ≠ 0 := by
  unfold kind at h ⊢
  cases hp : s.loc t <;> rw [hp] at h <;> first | exact Nat.succ_ne_zero _ | cases h

omit [DecidableEq T] in
/-- The shares of all threads are far below the limit of the counter. -/
theorem sum_share_le (s : State T) : ∑ u, (kind s u).share ≤ 2 * Fintype.card T := by
  have hle : ∀ u ∈ Finset.univ, (kind s u).share ≤ 2 := by
    intro u _
    unfold kind
    cases s.loc u <;> simp [Pc.kind, Kind.code]
  have hsum := Finset.sum_le_card_nsmul Finset.univ (fun u => (kind s u).share) 2 hle
  rw [Finset.card_univ, smul_eq_mul] at hsum
  omega

section

variable (h : Counted s) (hcard : Fintype.card T < 2 ^ 31)

omit [DecidableEq T] in
include h in
/-- Nobody has called `exit` while a thread is alive. -/
theorem Counted.no_exit (ht : (kind s t).phase = .alive) (u : T) : s.loc u ≠ .exit := by
  intro hu
  by_cases htu : t = u
  · subst htu
    exact (alive_ne ht).2.2.1 hu
  · rcases h.exit u hu t htu with h' | h' <;> rw [ht] at h' <;> cases h'

include h in
/-- A step of a thread that stays alive. -/
theorem Counted.go (ht : (kind s t).phase = .alive) (hq : q.kind.phase = .alive)
    (hm : m.total.toNat + (kind s t).share = s.mem.total.toNat + q.kind.share) :
    Counted (go s t q m) := by
  refine ⟨?_, fun e he => ?_, .inl ⟨t, ?_⟩⟩
  · have hsum := sum_go (s := s) (t := t) (q := q) (m := m)
    rw [← h.total] at hsum
    show m.total.toNat = _
    omega
  · rw [loc_go] at he
    split at he
    · exact absurd he (alive_ne hq).2.2.1
    · exact absurd he (h.no_exit ht e)
  · rw [kind_go, if_pos rfl, hq]

include h in
/-- The same, when another thread moves, too. -/
theorem Counted.go₂ (ht : (kind s t).phase = .alive) (hq : q.kind.phase = .alive)
    (hp : p ≠ .exit) (hct : t ≠ c)
    (hm : m.total.toNat + (kind s t).share + (kind s c).share =
      s.mem.total.toNat + q.kind.share + p.kind.share) : Counted (go₂ s t q c p m) := by
  refine ⟨?_, fun e he => ?_, .inl ⟨t, ?_⟩⟩
  · have hsum := sum_go₂ (s := s) (q := q) (p := p) (m := m) hct
    rw [← h.total] at hsum
    show m.total.toNat = _
    omega
  · rw [loc_go₂] at he
    split at he
    · exact absurd he (alive_ne hq).2.2.1
    · split at he
      · exact absurd he hp
      · exact absurd he (h.no_exit ht e)
  · rw [kind_go₂, if_pos rfl, hq]

include h in
/-- A step of a thread that has done its decrement. -/
theorem Counted.ended (ht : (kind s t).phase = .ended) (hshare : (kind s t).share = 0)
    (hq : q.kind.phase = .ended ∨ q = .absent) (hq' : q.kind.share = 0)
    (hm : m.total = s.mem.total) : Counted (Registry.go s t q m) := by
  have hexit : ∀ u, (Registry.go s t q m).loc u = .exit ↔ s.loc u = .exit := by
    intro u
    rw [loc_go]
    split
    · rename_i hu
      subst hu
      refine iff_of_false ?_ ?_
      · rintro rfl
        rcases hq with hq | hq <;> cases hq
      · intro hu
        rw [kind, hu] at ht
        cases ht
    · exact Iff.rfl
  refine ⟨?_, fun e he u hu => ?_, ?_⟩
  · have hsum := sum_go (s := s) (t := t) (q := q) (m := m)
    rw [← h.total] at hsum
    show m.total.toNat = _
    rw [hm]
    omega
  · rw [hexit] at he
    rw [kind_go]
    split
    · rcases hq with hq | rfl
      · exact .inr hq
      · exact .inl rfl
    · exact h.exit e he u hu
  · rcases h.last with ⟨u, hu⟩ | ⟨u, hu⟩
    · refine .inl ⟨u, ?_⟩
      have hne : u ≠ t := by
        rintro rfl
        rw [ht] at hu
        cases hu
      rw [kind_go, if_neg hne, hu]
    · exact .inr ⟨u, (hexit u).mpr hu⟩

omit [DecidableEq T] in
include h in
/-- Only one thread has a share exactly when the others are absent or have ended. -/
theorem Counted.total_eq_one (hb : Births s) (ht : s.loc t = .run true) :
    s.mem.total.toNat = 1 ↔
      ∀ u, u ≠ t → (kind s u).phase = .absent ∨ (kind s u).phase = .ended := by
  classical
  have hkt : kind s t = Kind.code true none 1 := congrArg Pc.kind ht
  have halive : (kind s t).phase = .alive := by rw [hkt]; rfl
  rw [h.total]
  constructor
  · intro hone
    have hzero : ∀ u, u ≠ t → (kind s u).share = 0 := by
      intro u hu
      have hle := add_le_sum_loc (fun p : Pc T => p.kind.share) s.loc (Ne.symm hu)
      have hshare : (kind s t).share = 1 := by rw [hkt]; rfl
      unfold kind at hone hshare ⊢
      omega
    intro u hu
    have hu₀ := hzero u hu
    have hnot : s.loc u ≠ .unborn := by
      intro hunborn
      obtain ⟨v, hv⟩ := (hb.born u).mp hunborn
      have hvt : v ≠ t := by
        rintro rfl
        rw [hkt] at hv
        cases hv
      exact share_of_child hv (hzero v hvt)
    have hno := h.no_exit halive u
    unfold kind at hu₀ ⊢
    cases hp : s.loc u <;> rw [hp] at hu₀ hnot hno <;>
      first | exact .inl rfl | exact .inr rfl | exact absurd rfl hnot | exact absurd rfl hno |
        cases hu₀
  · intro hothers
    rw [Finset.sum_eq_single t]
    · rw [hkt]
      rfl
    · intro u _ hu
      have hphase := hothers u hu
      unfold kind at hphase ⊢
      cases hp : s.loc u <;> rw [hp] at hphase <;>
        first | rfl | (rcases hphase with h' | h' <;> cases h')
    · exact fun hnot => absurd (Finset.mem_univ t) hnot

include h in
/-- The final decrement. -/
theorem Counted.decrement (hb : Births s) (hsafe : ∀ u, s.loc u ≠ .crashed)
    (ht : s.loc t = .run true) :
    Counted (Registry.go s t (if s.mem.total = 1 then .exit else .terminate)
      { s.mem with total := s.mem.total - 1 }) := by
  have hkt : kind s t = Kind.code true none 1 := congrArg Pc.kind ht
  have halive : (kind s t).phase = .alive := by rw [hkt]; rfl
  have hshare : (kind s t).share = 1 := by rw [hkt]; rfl
  have hone := h.total_eq_one hb ht
  have hpos : 1 ≤ s.mem.total.toNat := by
    have hle := Finset.single_le_sum (f := fun u => (kind s u).share) (fun _ _ => Nat.zero_le _)
      (Finset.mem_univ t)
    rw [h.total]
    omega
  have heq : s.mem.total = 1 ↔ s.mem.total.toNat = 1 := by
    rw [← BitVec.toNat_inj]
    rfl
  refine ⟨?_, fun e he u hu => ?_, ?_⟩
  · have hsum := sum_go (s := s) (t := t) (q := if s.mem.total = 1 then Pc.exit else .terminate)
      (m := { s.mem with total := s.mem.total - 1 })
    have hzero : (if s.mem.total = 1 then (Pc.exit : Pc T) else .terminate).kind.share = 0 := by
      split <;> rfl
    rw [← h.total, hzero, hshare] at hsum
    show (s.mem.total - 1).toNat = _
    have hsub : (s.mem.total - 1).toNat = s.mem.total.toNat - 1 := by bv_omega
    omega
  · rw [loc_go] at he
    split at he
    · rename_i het
      subst het
      rw [kind_go, if_neg hu]
      split at he
      · rename_i htotal
        exact hone.mp (heq.mp htotal) u hu
      · cases he
    · exact absurd he (h.no_exit halive e)
  · by_cases htotal : s.mem.total = 1
    · refine .inr ⟨t, ?_⟩
      rw [loc_go, if_pos rfl, if_pos htotal]
    · -- Another thread has a share left.
      have hother : ¬ ∀ u, u ≠ t → (kind s u).phase = .absent ∨ (kind s u).phase = .ended :=
        fun hall => htotal (heq.mpr (hone.mpr hall))
      push Not at hother
      obtain ⟨u, hu, habsent, hended⟩ := hother
      have hlive : ∃ v, v ≠ t ∧ (kind s v).phase = .alive := by
        have hloc := eq_of_phase (s.loc u)
        cases hphase : (s.loc u).kind.phase with
        | absent => exact absurd hphase habsent
        | ended => exact absurd hphase hended
        | alive => exact ⟨u, hu, hphase⟩
        | exit => exact absurd (hloc.2.1 hphase) (h.no_exit halive u)
        | crashed => exact absurd (hloc.2.2 hphase) (hsafe u)
        | unborn =>
            obtain ⟨v, hv⟩ := (hb.born u).mp (hloc.1 hphase)
            refine ⟨v, ?_, alive_of_child hv⟩
            rintro rfl
            rw [hkt] at hv
            cases hv
      obtain ⟨v, hv, hv'⟩ := hlive
      refine .inl ⟨v, ?_⟩
      rw [kind_go, if_neg hv, hv']

end

/-- Every step keeps the count, unless it crashes. -/
theorem Counted.step (h : Counted s) (hcard : Fintype.card T < 2 ^ 31) (hb : Births s)
    (hr : Registered s) (hstep : Step s t ch s') (hsafe : ∀ u, s'.loc u ≠ .crashed) :
    Counted s' := by
  have hle := sum_share_le s
  rw [← h.total] at hle
  cases hstep with
  | own q ht hq | lock q ht hfree hq | unlock q ht hheld hq =>
      have hq' : q.kind.phase = .alive := by rw [hq, ← ht]
      have hshare : (kind s t).share = q.kind.share := by rw [hq]
      exact h.go ht hq' (congrArg (s.mem.total.toNat + ·) hshare)
  | create late c usrStack ht hc =>
      have hkt := congrArg Pc.kind ht
      have hkc := congrArg Pc.kind hc
      refine h.go₂ (by rw [kind, hkt]; rfl) rfl (by simp) (ne_of_create ht hc) ?_
      rw [kind, kind, hkt, hkc]
      rfl
  | drop q c ht hc hq =>
      obtain ⟨hborn, hct⟩ := hb.child hc
      have hq' : q.kind.phase = .alive := by rw [hq, ← ht]
      refine h.go₂ ht hq' (by simp) hct ?_
      rw [freeStack_rest.2.2, (kind_unborn (.inr hborn)).2.2.1, hq]
      rfl
  | resume late c ht =>
      have hkt := congrArg Pc.kind ht
      obtain ⟨hborn, hct⟩ := hb.child (t := t) (c := c) (by rw [kind, ht]; rfl)
      refine h.go₂ (by rw [kind, hkt]; rfl) rfl (by simp) hct ?_
      rw [(kind_unborn (.inr hborn)).2.2.1, kind, hkt]
      rfl
  | count late c ht =>
      have hkt := congrArg Pc.kind ht
      refine h.go (by rw [kind, hkt]; rfl) rfl ?_
      rw [kind, hkt]
      show (s.mem.total + 1).toNat + 1 = s.mem.total.toNat + 2
      bv_omega
  | undo late ht =>
      have hkt := congrArg Pc.kind ht
      have htwo : 2 ≤ s.mem.total.toNat := by
        have hshare := le_sum_loc (fun p : Pc T => p.kind.share) s.loc t
        rw [hkt] at hshare
        rw [h.total]
        exact hshare
      refine h.go (by rw [kind, hkt]; rfl) rfl ?_
      rw [kind, hkt]
      show (s.mem.total - 1).toNat + 2 = s.mem.total.toNat + 1
      bv_omega
  | register m ht hm =>
      have hkt := congrArg Pc.kind ht
      obtain ⟨m₁, -, hsame, rfl⟩ := register_eq hm
      refine h.go (by rw [kind, hkt]; rfl) rfl ?_
      rw [kind, hkt]
      exact congrArg (fun x : BitVec 32 => x.toNat + 1) hsame.total
  | unregister m ht hm =>
      have hkt := congrArg Pc.kind ht
      refine h.go (by rw [kind, hkt]; rfl) rfl ?_
      rw [kind, hkt, (hurdListDel_same hm).total]
      rfl
  | fault ht =>
      refine absurd ?_ (hsafe t)
      rw [loc_go, if_pos rfl]
  | decrement ht => exact h.decrement hb hr.safe ht
  | terminate ht =>
      have hkt := congrArg Pc.kind ht
      exact h.ended (by rw [kind, hkt]; rfl) (by rw [kind, hkt]; rfl) (.inl rfl) rfl rfl
  | reap ht =>
      have hkt := congrArg Pc.kind ht
      exact h.ended (by rw [kind, hkt]; rfl) (by rw [kind, hkt]; rfl) (.inr rfl) rfl
        freeStack_rest.2.2
  | fork late ht hch =>
      have hgood : (ptAtforkChild t s.mem).2 = true := by
        by_contra hbad
        refine hsafe t ?_
        rw [loc_alone, if_pos rfl, if_neg hbad]
      rw [hgood, if_pos rfl]
      refine ⟨?_, fun e he => ?_, .inl ⟨t, ?_⟩⟩
      · show (ptAtforkChild t s.mem).1.total.toNat = _
        rw [(ptAtforkChild_child t s.mem).total]
        rw [Finset.sum_eq_single t]
        · rw [kind_alone, if_pos rfl]
          rfl
        · intro u _ hu
          rw [kind_alone, if_neg hu]
          rfl
        · exact fun hnot => absurd (Finset.mem_univ t) hnot
      · rw [loc_alone] at he
        split at he <;> cases he
      · rw [kind_alone, if_pos rfl]
        rfl

/-! ### Every run -/

/-- The invariant of all runs whose forks meet the condition. -/
structure Inv (s : State T) : Prop where
  births : Births s
  locked : Locked s
  registered : Registered s
  counted : Counted s

/-- The main thread is registered alone. -/
theorem inv_init {main : T} (h : pthreadInitialize main = some s) : Inv s := by
  obtain ⟨m, hm, rfl⟩ := Option.map_eq_some_iff.mp h
  have hempty : Listed (hurdListInit (startMem main)) [] := .nil rfl rfl
  have hmain : ((hurdListInit (startMem main)).desc main).isSome := by
    simp [hurdListInit, startMem]
  obtain ⟨m', hm', hsame, hl⟩ := hurdListAddTail_ring hempty List.not_mem_nil hmain
  obtain rfl := Option.some.inj (hm'.symm.trans hm)
  have hdesc : (m'.desc main).isSome := by
    rw [hsame.isSome]
    exact hmain
  refine ⟨.alone (by simp) rfl, fun u => ?_, ⟨⟨[main], ?_, fun u => ?_⟩, fun u hu => ?_,
    fun u => ?_⟩, ?_, fun e he => ?_, .inl ⟨main, ?_⟩⟩
  · show _ ↔ m'.lock = some u
    rw [hsame.lock, kind_alone]
    refine iff_of_false ?_ (by simp [hurdListInit, startMem])
    split <;> simp [Pc.kind, Kind.code]
  · exact Listed.congr hl (setId_node main 1 m')
  · rw [kind_alone, List.mem_singleton]
    by_cases hu : u = main
    · simp [hu, Pc.kind, Kind.code]
    · simp [hu, Pc.kind]
  · rw [loc_alone] at hu
    split at hu
    · rename_i hum
      rw [hum]
      exact (setId_isSome main 1 m' main).trans hdesc
    · exact absurd rfl hu
  · rw [loc_alone]
    split <;> simp
  · show m'.total.toNat = _
    rw [hsame.total, Finset.sum_eq_single main]
    · rw [kind_alone, if_pos rfl]
      rfl
    · intro u _ hu
      rw [kind_alone, if_neg hu]
      rfl
    · exact fun hnot => absurd (Finset.mem_univ main) hnot
  · rw [loc_alone] at he
    split at he <;> cases he
  · rw [kind_alone, if_pos rfl]
    rfl

/-- The invariant in every state that is reached. -/
theorem inv_of_reach (hcard : Fintype.card T < 2 ^ 31) (h : machine.ReachVia ForkOk s) :
    Inv s := by
  refine h.invariant (fun s hs => ?_) fun s a s' hs hok hstep => ?_
  · obtain ⟨main, hmain⟩ := hs
    exact inv_init hmain
  · have hcases := step_cases hstep
    have hr := hs.registered.step hs.births hok hcases
    exact ⟨hs.births.step hcases, hs.locked.step hs.births hcases hr.safe, hr,
      hs.counted.step hcard hs.births hs.registered hcases hr.safe⟩

/-- There is no thread, or one that has done its final decrement. -/
def Over (s : State T) (t : T) : Prop := (kind s t).phase = .absent ∨ (kind s t).phase = .ended

/-- The registry is right. The list is a well-formed ring of the threads that have
registered and not unregistered, each of them once. `__pthread_total` is at least the
number of the threads that have not done their final decrement. At its final decrement a
thread calls `exit (0)` exactly when there is no other thread that has not done its own,
and none that is being created. No thread crashes on the list. -/
structure Sound (s : State T) : Prop where
  list : ∃ l, Listed s.mem l ∧ ∀ t, t ∈ l ↔ (kind s t).registered = true
  total : (Finset.univ.filter fun t => (kind s t).phase = .alive).card ≤ s.mem.total.toNat
  exit : ∀ t s', s.loc t = .run true → step s t .finish = some s' →
    (s'.loc t = .exit ↔ ∀ u, u ≠ t → Over s u)
  safe : ∀ t, s.loc t ≠ .crashed

/-- In every run whose forks meet the condition, the registry is right in every state. A
descriptor takes more than 2 bytes of the address space, so there are less than `2 ^ 31`. -/
theorem registry_sound (hcard : Fintype.card T < 2 ^ 31) (h : machine.ReachVia ForkOk s) :
    Sound s := by
  obtain ⟨hb, -, hr, hc⟩ := inv_of_reach hcard h
  refine ⟨hr.list, ?_, fun t s' ht hstep => ?_, hr.safe⟩
  · rw [hc.total, Finset.card_filter]
    apply Finset.sum_le_sum
    intro u _
    split
    · rename_i halive
      unfold kind at halive ⊢
      cases hp : s.loc u <;> rw [hp] at halive <;> first | exact Nat.succ_pos _ | cases halive
    · exact Nat.zero_le _
  · have hs' : s'.loc t = if s.mem.total = 1 then .exit else .terminate := by
      simp only [step, ht, Option.some.injEq] at hstep
      rw [← hstep, loc_go, if_pos rfl]
    have heq : s.mem.total = 1 ↔ s.mem.total.toNat = 1 := by
      rw [← BitVec.toNat_inj]
      rfl
    rw [hs']
    unfold Over
    rw [← hc.total_eq_one hb ht, ← heq]
    split <;> simp_all

instance (s : State T) (a : T × Choice T) : Decidable (ForkOk s a) := by
  unfold ForkOk
  infer_instance

/-- Two descriptors, the first of them that of the main thread. -/
def startTwo : State (Fin 2) := (pthreadInitialize 0).get (by decide)

theorem startTwo_init : (machine (T := Fin 2)).init startTwo := ⟨0, (Option.some_get _).symm⟩

/-- The steps of the thread 0 that creates the thread 1, and those of the thread 1 up to its
start routine. -/
def startThread (usrStack : Bool) : List (Fin 2 × Choice (Fin 2)) :=
  [(0, .create 1 usrStack), (0, .go), (0, .go), (0, .go), (0, .go), (1, .go), (1, .go), (1, .go)]

/-- The steps of the thread `t` from the end of its start routine to its final decrement. -/
def endThread (t : Fin 2) : List (Fin 2 × Choice (Fin 2)) :=
  [(t, .finish), (t, .go), (t, .go), (t, .go), (t, .finish)]

/-- The main thread forks while a thread with a stack of the program runs. In the child it
fails to create a thread, and creates one that ends before it, then it ends. -/
theorem registry_sound_two : ∃ s, (machine (T := Fin 2)).ReachVia ForkOk s ∧
    s.loc 0 = .exit ∧ s.loc 1 = .terminate ∧ Sound s := by
  obtain ⟨s, hs, h₀, h₁⟩ := (machine (T := Fin 2)).exists_reachVia ForkOk startTwo_init
    (startThread true ++ [(0, .fork), (0, .child), (0, .create 1 true), (0, .go), (0, .go),
      (0, .fail), (0, .go), (0, .go)] ++ startThread true ++ endThread 1 ++ endThread 0)
    (fun s => s.loc 0 = .exit ∧ s.loc 1 = .terminate) (by decide +kernel)
  exact ⟨s, hs, h₀, h₁, registry_sound (by decide) hs⟩

/-- The main thread forks while the thread 1 runs on a stack of the library. In the child,
`__pthread_free_stacks` unmaps this stack and reads the next link in it. When the main
thread forks in a destructor instead, the child has it in the list, though it has
unregistered. -/
theorem registry_fails :
    (∃ s, (machine (T := Fin 2)).Reach s ∧ s.loc 0 = .crashed ∧
      s.mem.next (.link 0) = some (.link 1) ∧ s.mem.node (.link 1) = none ∧ ¬ Sound s) ∧
    ∃ s, (machine (T := Fin 2)).Reach s ∧ s.loc 0 = .run true ∧
      s.mem.next .head = some (.link 0) ∧ ¬ Sound s := by
  constructor
  · obtain ⟨s, hs, hloc, hhead, hnext, hnode⟩ := (machine (T := Fin 2)).exists_reach
      startTwo_init (startThread false ++ [(0, .fork), (0, .child)])
      (fun s => s.loc 0 = .crashed ∧ s.mem.next .head = some (.link 0) ∧
        s.mem.next (.link 0) = some (.link 1) ∧ s.mem.node (.link 1) = none) (by decide +kernel)
    refine ⟨s, hs, hloc, hnext, hnode, ?_⟩
    intro h
    obtain ⟨l, hl, -⟩ := h.list
    have hsome := hl.isSome (hl.mem_next (hl.mem_next List.mem_cons_self hhead) hnext)
    rw [hnode] at hsome
    cases hsome
  · obtain ⟨s, hs, hloc, hhead⟩ := (machine (T := Fin 2)).exists_reach startTwo_init
      [(0, .finish), (0, .go), (0, .go), (0, .go), (0, .fork), (0, .child)]
      (fun s => s.loc 0 = .run true ∧ s.mem.next .head = some (.link 0)) (by decide +kernel)
    refine ⟨s, hs, hloc, hhead, ?_⟩
    intro h
    obtain ⟨l, hl, hmem⟩ := h.list
    have hreg := (hmem 0).mp (by simpa using hl.mem_next List.mem_cons_self hhead)
    rw [kind, hloc] at hreg
    cases hreg

end Hlpt.Registry
