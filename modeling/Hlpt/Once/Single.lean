import Hlpt.Once.Model

/-!
# `Hlpt.Once.Single`: the routine of `pthread_once` completes once

The thread that installed the token of its process owns the word until it stores
`ONCE_DONE` or `ONCE_INIT` (`Owns`). The token is what a claim must not find in the word,
so there is one owner at a time, and it decides alone what follows: after it completed,
the word goes to `ONCE_DONE` and stays there.

A sleeper needs a wake only while the token is gone. The token goes away with a wake of
all sleepers in the same kernel call, or by the plain store of `cleanup`, whose wake comes
later.
-/

set_option autoImplicit false

namespace Hlpt.Once

open Hlpt.Lib

universe u

/-! ### The tokens -/

/-- A token as a number. -/
theorem Pid.token_toNat (pid : Pid) : pid.token.toNat = 4 * pid.val.toNat + 1 := by
  have hsmall := pid.small
  have hshift : (pid.val <<< ONCE_SHIFT).toNat = pid.val.toNat <<< 2 := by
    rw [BitVec.toNat_shiftLeft, ONCE_SHIFT, Nat.shiftLeft_eq]
    exact Nat.mod_eq_of_lt (by omega)
  rw [Pid.token, BitVec.toNat_or, hshift]
  show pid.val.toNat <<< 2 ||| 1 = _
  rw [← Nat.shiftLeft_add_eq_or_of_lt (by decide), Nat.shiftLeft_eq]
  omega

/-- A token is not one of the two other states. -/
theorem Pid.token_ne (pid : Pid) : pid.token ≠ ONCE_INIT ∧ pid.token ≠ ONCE_DONE := by
  have htoken := pid.token_toNat
  have hinit : ONCE_INIT.toNat = 0 := rfl
  have hdone : ONCE_DONE.toNat = 2 := rfl
  constructor <;> intro h <;> rw [h] at htoken <;> omega

/-- Different processes have different tokens. -/
theorem Pid.token_inj {a b : Pid} (h : a.token = b.token) : a = b := by
  have ha := a.token_toNat
  rw [h, b.token_toNat] at ha
  exact Pid.ext (BitVec.eq_of_toNat_eq (by omega))

/-! ### What one step does -/

/-- The thread owns the word: it is between its compare-and-swap and the store that ends
the execution. -/
def Owns : Pc → Prop
  | .routine | .setWake | .cleanStore => True
  | _ => False

/-- The compare-and-swap replaces neither the token of the process nor `ONCE_DONE`. -/
def PcOk (pid : Pid) : Pc → Prop
  | .cas val => val ≠ pid.token ∧ val ≠ ONCE_DONE
  | _ => True

variable {T : Type u} [DecidableEq T] {pid : Pid} {t : T} {c : Choice} {m m' : Mem T}
  {pc pc' : Pc}

/-- What one step does to the memory, with the control points that matter. -/
inductive Effect (pid : Pid) (t : T) (m : Mem T) : Pc → Mem T → Pc → Prop
  /-- Nothing is written, and the thread neither owns the word nor sleeps. -/
  | quiet {pc pc' : Pc} (hpc : pc ≠ .cleanWake) (ho : ¬ Owns pc) (ho' : ¬ Owns pc')
      (hin : pc = .asleep → t ∉ m.sleepers) (hret : pc' = .ret → m.word = ONCE_DONE)
      (hok : PcOk pid pc') : Effect pid t m pc m pc'
  | sleep (hm : m.word = pid.token) :
      Effect pid t m .wait { m with sleepers := insert t m.sleepers } .asleep
  | awake : Effect pid t m .asleep { m with sleepers := m.sleepers.erase t } .load
  | claim (hne : m.word ≠ pid.token) (hdone : m.word ≠ ONCE_DONE) :
      Effect pid t m (.cas m.word) { m with word := pid.token } .routine
  | complete : Effect pid t m .routine { m with completed := true } .setWake
  | cancel : Effect pid t m .routine m .cleanStore
  | done : Effect pid t m .setWake { m with word := ONCE_DONE, sleepers := ∅ } .ret
  | reset : Effect pid t m .cleanStore { m with word := ONCE_INIT } .cleanWake
  | wake : Effect pid t m .cleanWake { m with sleepers := ∅ } .gone

/-- Every step has one of these effects. -/
theorem exec_effect (h : exec pid t c m pc = some (m', pc')) (hok : PcOk pid pc) :
    Effect pid t m pc m' pc' := by
  cases pc with
  | idle =>
      cases h
      exact .quiet (by simp) id id (by simp) (by simp) trivial
  | first =>
      cases h
      split
      · rename_i hdone
        exact .quiet (by simp) id id (by simp) (fun _ => hdone) trivial
      · exact .quiet (by simp) id id (by simp) (by simp) trivial
  | load =>
      cases h
      split
      · rename_i hdone
        exact .quiet (by simp) id id (by simp) (fun _ => hdone) trivial
      · -- The value that the compare-and-swap will expect is neither of the two.
        rename_i hdone
        split
        · exact .quiet (by simp) id id (by simp) (by simp) trivial
        · rename_i htoken
          exact .quiet (by simp) id id (by simp) (by simp) ⟨htoken, hdone⟩
  | wait =>
      simp only [exec] at h
      split at h <;> cases h
      · rename_i hm
        exact .sleep hm
      · exact .quiet (by simp) id id (by simp) (by simp) trivial
  | asleep =>
      simp only [exec] at h
      split at h
      · split at h
        · cases h
          exact .awake
        · cases h
      · rename_i hin
        cases h
        exact .quiet (by simp) id id (fun _ => hin) (by simp) trivial
  | cas val =>
      simp only [exec] at h
      split at h
      · rename_i hm
        subst hm
        cases h
        exact .claim hok.1 hok.2
      · cases h
        exact .quiet (by simp) id id (by simp) (by simp) trivial
  | routine =>
      simp only [exec] at h
      split at h <;> cases h
      · exact .cancel
      · exact .complete
  | setWake =>
      cases h
      exact .done
  | cleanStore =>
      cases h
      exact .reset
  | cleanWake =>
      cases h
      exact .wake
  | ret =>
      cases h
      exact .quiet (by simp) id id (by simp) (by simp) trivial
  | gone => cases h

/-! ### The invariant -/

/-- The owner of the word and the sleepers on it. -/
structure Inv (pid : Pid) (s : Global T (Mem T) Pc) : Prop where
  pc : ∀ t, PcOk pid (s.loc t)
  owned : ∀ t, Owns (s.loc t) → s.mem.word = pid.token
  alone : ∀ t u, Owns (s.loc t) → Owns (s.loc u) → t = u
  done : s.mem.word = ONCE_DONE → s.mem.completed = true
  /-- A completed execution is recorded in the word, or will be by its owner. -/
  completed : s.mem.completed = true → s.mem.word = ONCE_DONE ∨ ∃ t, s.loc t = .setWake
  setWake : ∀ t, s.loc t = .setWake → s.mem.completed = true
  ret : ∀ t, s.loc t = .ret → s.mem.completed = true
  asleep : ∀ t ∈ s.mem.sleepers, s.loc t = .asleep
  /-- A sleeper that the token does not keep asleep is about to be woken. -/
  pending : s.mem.sleepers.Nonempty → s.mem.word = pid.token ∨ ∃ t, s.loc t = .cleanWake

omit [DecidableEq T] in
/-- Nothing has completed while the owner of the word still runs the routine or its
cleanup. -/
theorem Inv.not_completed {s : Global T (Mem T) Pc} (hs : Inv pid s) (ht : Owns (s.loc t))
    (hne : s.loc t ≠ .setWake) : s.mem.completed ≠ true := by
  intro hc
  rcases hs.completed hc with hw | ⟨u, hu⟩
  · exact pid.token_ne.2 ((hs.owned t ht).symm.trans hw)
  · have hut : u = t := hs.alone u t (by simp [hu, Owns]) ht
    exact hne (hut ▸ hu)

omit [DecidableEq T] in
/-- No other thread owns the word beside an owner. -/
theorem Inv.not_owns {s : Global T (Mem T) Pc} (hs : Inv pid s) (ht : Owns (s.loc t)) {u : T}
    (hu : u ≠ t) : ¬ Owns (s.loc u) := fun h => hu (hs.alone u t h ht)

/-- A step that writes neither the word nor the ghost, and does not change owners. -/
theorem Inv.quiet {s : Global T (Mem T) Pc} (hs : Inv pid s) (hpc : s.loc t ≠ .cleanWake)
    (ho : ¬ Owns (s.loc t)) (ho' : ¬ Owns pc') (hok : PcOk pid pc')
    (hret : pc' = .ret → s.mem.word = ONCE_DONE) {q : Finset T}
    (hq : ∀ u ∈ q, u ≠ t → u ∈ s.mem.sleepers)
    (hnew : t ∈ q → pc' = .asleep ∧ s.mem.word = pid.token) :
    Inv pid ⟨{ s.mem with sleepers := q }, Function.update s.loc t pc'⟩ where
  pc := forall_loc_iff.mpr ⟨hok, fun u _ => hs.pc u⟩
  owned := (forall_loc_iff (P := fun _ (p : Pc) => Owns p → s.mem.word = pid.token)).mpr
    ⟨fun h => absurd h ho', fun u _ => hs.owned u⟩
  alone u v := unique_update hs.alone fun h => absurd h ho'
  done := hs.done
  completed hc := (hs.completed hc).imp_right fun hex => by
    have hne : s.loc t ≠ .setWake := fun h => ho (by simp [h, Owns])
    obtain ⟨u, -, hu⟩ := exists_loc_update (P := fun _ p => p = Pc.setWake) hex hne
    exact ⟨u, hu⟩
  setWake := (forall_loc_iff (P := fun _ (p : Pc) => p = .setWake → s.mem.completed = true)).mpr
    ⟨fun h => absurd (by simp [h, Owns]) ho', fun u _ => hs.setWake u⟩
  ret := (forall_loc_iff (P := fun _ (p : Pc) => p = .ret → s.mem.completed = true)).mpr
    ⟨fun h => hs.done (hret h), fun u _ => hs.ret u⟩
  asleep := (forall_loc_iff (P := fun u (p : Pc) => u ∈ q → p = .asleep)).mpr
    ⟨fun h => (hnew h).1, fun u hu h => hs.asleep u (hq u h hu)⟩
  pending := by
    rintro ⟨u, hu⟩
    by_cases hut : u = t
    · subst hut
      exact .inl (hnew hu).2
    · apply (hs.pending ⟨u, hq u hu hut⟩).imp_right
      intro hex
      obtain ⟨v, -, hv⟩ := exists_loc_update (P := fun _ p => p = Pc.cleanWake) hex hpc
      exact ⟨v, hv⟩

/-- A claim of a word without the token makes an owner where there was none. -/
theorem Inv.claim {s : Global T (Mem T) Pc} (hs : Inv pid s) (hpc : s.loc t = .cas s.mem.word)
    (hne : s.mem.word ≠ pid.token) (hdone : s.mem.word ≠ ONCE_DONE) :
    Inv pid ⟨{ s.mem with word := pid.token }, Function.update s.loc t .routine⟩ := by
  have hnone : ∀ u, ¬ Owns (s.loc u) := fun u hu => hne (hs.owned u hu)
  have hnot : ∀ u, s.loc u ≠ .setWake := fun u hu => hnone u (by simp [hu, Owns])
  have hcomp : s.mem.completed ≠ true := fun hc =>
    (hs.completed hc).elim hdone fun ⟨u, hu⟩ => hnot u hu
  exact
    { pc := forall_loc_iff.mpr ⟨trivial, fun u _ => hs.pc u⟩
      owned := fun _ _ => rfl
      alone := fun u v => unique_update hs.alone fun _ => .inr fun u _ => hnone u
      done := fun h => absurd h pid.token_ne.2
      completed := fun h => absurd h hcomp
      setWake := (forall_loc_iff (P := fun _ (p : Pc) => p = .setWake → s.mem.completed = true)).mpr
        ⟨nofun, fun u _ => hs.setWake u⟩
      ret := (forall_loc_iff (P := fun _ (p : Pc) => p = .ret → s.mem.completed = true)).mpr
        ⟨nofun, fun u _ => hs.ret u⟩
      asleep := (forall_loc_iff (P := fun u (p : Pc) => u ∈ s.mem.sleepers → p = .asleep)).mpr
        ⟨fun h => by simpa [hpc] using hs.asleep t h, fun u _ => hs.asleep u⟩
      pending := fun _ => .inl rfl }

/-- The routine returns: its owner is about to record it. -/
theorem Inv.complete {s : Global T (Mem T) Pc} (hs : Inv pid s) (hpc : s.loc t = .routine) :
    Inv pid ⟨{ s.mem with completed := true }, Function.update s.loc t .setWake⟩ := by
  have ho : Owns (s.loc t) := by simp [hpc, Owns]
  exact
    { pc := forall_loc_iff.mpr ⟨trivial, fun u _ => hs.pc u⟩
      owned := (forall_loc_iff (P := fun _ (p : Pc) => Owns p → s.mem.word = pid.token)).mpr
        ⟨fun _ => hs.owned t ho, fun u _ => hs.owned u⟩
      alone := fun u v => unique_update hs.alone fun _ => .inl ho
      done := fun _ => rfl
      completed := fun _ => .inr ⟨t, Function.update_self ..⟩
      setWake := fun _ _ => rfl
      ret := fun _ _ => rfl
      asleep := (forall_loc_iff (P := fun u (p : Pc) => u ∈ s.mem.sleepers → p = .asleep)).mpr
        ⟨fun h => by simpa [hpc] using hs.asleep t h, fun u _ => hs.asleep u⟩
      pending := fun _ => .inl (hs.owned t ho) }

/-- The routine is cancelled: its owner is about to reset the word. -/
theorem Inv.cancel {s : Global T (Mem T) Pc} (hs : Inv pid s) (hpc : s.loc t = .routine) :
    Inv pid ⟨s.mem, Function.update s.loc t .cleanStore⟩ := by
  have ho : Owns (s.loc t) := by simp [hpc, Owns]
  have hcomp := hs.not_completed ho (by simp [hpc])
  exact
    { pc := forall_loc_iff.mpr ⟨trivial, fun u _ => hs.pc u⟩
      owned := (forall_loc_iff (P := fun _ (p : Pc) => Owns p → s.mem.word = pid.token)).mpr
        ⟨fun _ => hs.owned t ho, fun u _ => hs.owned u⟩
      alone := fun u v => unique_update hs.alone fun _ => .inl ho
      done := hs.done
      completed := fun h => absurd h hcomp
      setWake := (forall_loc_iff (P := fun _ (p : Pc) => p = .setWake → s.mem.completed = true)).mpr
        ⟨nofun, fun u _ => hs.setWake u⟩
      ret := (forall_loc_iff (P := fun _ (p : Pc) => p = .ret → s.mem.completed = true)).mpr
        ⟨nofun, fun u _ => hs.ret u⟩
      asleep := (forall_loc_iff (P := fun u (p : Pc) => u ∈ s.mem.sleepers → p = .asleep)).mpr
        ⟨fun h => by simpa [hpc] using hs.asleep t h, fun u _ => hs.asleep u⟩
      pending := fun _ => .inl (hs.owned t ho) }

/-- The kernel stores `ONCE_DONE` and wakes every sleeper. -/
theorem Inv.finish {s : Global T (Mem T) Pc} (hs : Inv pid s) (hpc : s.loc t = .setWake) :
    Inv pid ⟨{ s.mem with word := ONCE_DONE, sleepers := ∅ }, Function.update s.loc t .ret⟩ := by
  have ho : Owns (s.loc t) := by simp [hpc, Owns]
  have hcomp : s.mem.completed = true := hs.setWake t hpc
  exact
    { pc := forall_loc_iff.mpr ⟨trivial, fun u _ => hs.pc u⟩
      owned := (forall_loc_iff (P := fun _ (p : Pc) => Owns p → ONCE_DONE = pid.token)).mpr
        ⟨fun h => absurd h id, fun u hu h => absurd h (hs.not_owns ho hu)⟩
      alone := fun u v => unique_update hs.alone fun h => absurd h id
      done := fun _ => hcomp
      completed := fun _ => .inl rfl
      setWake := fun _ _ => hcomp
      ret := fun _ _ => hcomp
      asleep := fun u hu => absurd hu (Finset.notMem_empty u)
      pending := fun h => absurd h Finset.not_nonempty_empty }

/-- The cleanup stores `ONCE_INIT`: its wake is still to come. -/
theorem Inv.reset {s : Global T (Mem T) Pc} (hs : Inv pid s) (hpc : s.loc t = .cleanStore) :
    Inv pid ⟨{ s.mem with word := ONCE_INIT }, Function.update s.loc t .cleanWake⟩ := by
  have ho : Owns (s.loc t) := by simp [hpc, Owns]
  have hcomp := hs.not_completed ho (by simp [hpc])
  exact
    { pc := forall_loc_iff.mpr ⟨trivial, fun u _ => hs.pc u⟩
      owned := (forall_loc_iff (P := fun _ (p : Pc) => Owns p → ONCE_INIT = pid.token)).mpr
        ⟨fun h => absurd h id, fun u hu h => absurd h (hs.not_owns ho hu)⟩
      alone := fun u v => unique_update hs.alone fun h => absurd h id
      done := fun h => absurd h (show ONCE_INIT ≠ ONCE_DONE by decide)
      completed := fun h => absurd h hcomp
      setWake := (forall_loc_iff (P := fun _ (p : Pc) => p = .setWake → s.mem.completed = true)).mpr
        ⟨nofun, fun u _ => hs.setWake u⟩
      ret := (forall_loc_iff (P := fun _ (p : Pc) => p = .ret → s.mem.completed = true)).mpr
        ⟨nofun, fun u _ => hs.ret u⟩
      asleep := (forall_loc_iff (P := fun u (p : Pc) => u ∈ s.mem.sleepers → p = .asleep)).mpr
        ⟨fun h => by simpa [hpc] using hs.asleep t h, fun u _ => hs.asleep u⟩
      pending := fun _ => .inr ⟨t, Function.update_self ..⟩ }

/-- The cleanup wakes every sleeper. -/
theorem Inv.wake {s : Global T (Mem T) Pc} (hs : Inv pid s) (hpc : s.loc t = .cleanWake) :
    Inv pid ⟨{ s.mem with sleepers := ∅ }, Function.update s.loc t .gone⟩ where
  pc := forall_loc_iff.mpr ⟨trivial, fun u _ => hs.pc u⟩
  owned := (forall_loc_iff (P := fun _ (p : Pc) => Owns p → s.mem.word = pid.token)).mpr
    ⟨fun h => absurd h id, fun u _ => hs.owned u⟩
  alone u v := unique_update hs.alone fun h => absurd h id
  done := hs.done
  completed hc := (hs.completed hc).imp_right fun hex => by
    have hne : s.loc t ≠ .setWake := by simp [hpc]
    obtain ⟨u, -, hu⟩ := exists_loc_update (P := fun _ p => p = Pc.setWake) hex hne
    exact ⟨u, hu⟩
  setWake := (forall_loc_iff (P := fun _ (p : Pc) => p = .setWake → s.mem.completed = true)).mpr
    ⟨nofun, fun u _ => hs.setWake u⟩
  ret := (forall_loc_iff (P := fun _ (p : Pc) => p = .ret → s.mem.completed = true)).mpr
    ⟨nofun, fun u _ => hs.ret u⟩
  asleep u hu := absurd hu (Finset.notMem_empty u)
  pending h := absurd h Finset.not_nonempty_empty

/-- Every step keeps the invariant. -/
theorem Inv.step {s : Global T (Mem T) Pc} (hs : Inv pid s)
    (h : exec pid t c s.mem (s.loc t) = some (m, pc)) :
    Inv pid ⟨m, Function.update s.loc t pc⟩ := by
  have heff := exec_effect h (hs.pc t)
  generalize hpc : s.loc t = pc₀ at heff
  cases heff with
  | quiet hne ho ho' hin hret hok =>
      subst hpc
      have hnot : t ∉ s.mem.sleepers := fun ht => hin (hs.asleep t ht) ht
      exact hs.quiet hne ho ho' hok hret (fun u hu _ => hu) fun ht => absurd ht hnot
  | sleep hm =>
      exact hs.quiet (by simp [hpc]) (by simp [hpc, Owns]) id
        (show PcOk pid .asleep from trivial) nofun
        (fun u hu hut => Finset.mem_of_mem_insert_of_ne hu hut) fun _ => ⟨rfl, hm⟩
  | awake =>
      exact hs.quiet (by simp [hpc]) (by simp [hpc, Owns]) id
        (show PcOk pid .load from trivial) nofun
        (fun u hu _ => Finset.mem_of_mem_erase hu) fun ht => absurd ht (Finset.notMem_erase t _)
  | claim hne hdone => exact hs.claim hpc hne hdone
  | complete => exact hs.complete hpc
  | cancel => exact hs.cancel hpc
  | done => exact hs.finish hpc
  | reset => exact hs.reset hpc
  | wake => exact hs.wake hpc

/-- The invariant holds in every reachable state. -/
theorem inv_of_reach {s : Global T (Mem T) Pc} (h : (machine pid).Reach s) : Inv pid s := by
  refine Exec.invariant (fun s hs => ?_) (fun s t c m p hp _ he => hp.step he) h
  obtain ⟨hword, hq, hcomp, hidle⟩ := hs
  -- An inherited token is neither `ONCE_DONE` nor the token of the process.
  have hdone : s.mem.word ≠ ONCE_DONE := by
    rcases hword with hw | ⟨parent, -, hw⟩
    · rw [hw]
      decide
    · rw [hw]
      exact parent.token_ne.2
  constructor
  · simp [hidle, PcOk]
  · simp [hidle, Owns]
  · simp [hidle, Owns]
  · exact fun h => absurd h hdone
  · simp [hcomp]
  · simp [hidle]
  · simp [hidle]
  · simp [hq]
  · simp [hq]

/-- `pthread_once` in every reachable state. One thread at a time executes the routine,
none after an execution completed, and no call returns before. A thread that sleeps on a
word at `ONCE_DONE` or `ONCE_INIT` is about to be woken with all others. -/
theorem once_single {s : Global T (Mem T) Pc} (h : (machine pid).Reach s) :
    (∀ t u, s.loc t = .routine → s.loc u = .routine → t = u) ∧
    (s.mem.completed = true → ∀ t, s.loc t ≠ .routine) ∧
    (∀ t, s.loc t = .ret → s.mem.completed = true) ∧
    (s.mem.word = ONCE_DONE ∨ s.mem.word = ONCE_INIT → s.mem.sleepers.Nonempty →
      ∃ t, s.loc t = .cleanWake) := by
  have hs := inv_of_reach h
  refine ⟨fun t u ht hu => ?_, fun hc t ht => ?_, hs.ret, fun hw hq => ?_⟩
  · exact hs.alone t u (by simp [ht, Owns]) (by simp [hu, Owns])
  · exact hs.not_completed (t := t) (by simp [ht, Owns]) (by simp [ht]) hc
  · rcases hs.pending hq with htoken | hex
    · rw [htoken] at hw
      exact (hw.elim pid.token_ne.2 pid.token_ne.1).elim
    · exact hex

/-- The process 7, whose parent is the process 5. -/
def Pid.seven : Pid := ⟨7, by decide⟩

/-- A run on a word that was inherited from the process 5: a thread runs the routine and
is cancelled while another one sleeps, a third one runs it again and completes. -/
theorem once_single_three : ∃ s : Global (Fin 3) (Mem (Fin 3)) Pc,
    (machine Pid.seven).Reach s ∧
    (s.loc 0 = .cleanWake ∧ s.mem.sleepers = {1} ∧ s.loc 2 = .setWake) ∧
    (∀ t u, s.loc t = .routine → s.loc u = .routine → t = u) ∧
    (s.mem.completed = true → ∀ t, s.loc t ≠ .routine) ∧
    (∀ t, s.loc t = .ret → s.mem.completed = true) ∧
    (s.mem.word = ONCE_DONE ∨ s.mem.word = ONCE_INIT → s.mem.sleepers.Nonempty →
      ∃ t, s.loc t = .cleanWake) := by
  obtain ⟨s, hs, hp⟩ := (machine (T := Fin 3) Pid.seven).exists_reach
    (s := ⟨⟨21, ∅, false⟩, fun _ => .idle⟩)
    ⟨.inr ⟨⟨5, by decide⟩, by decide, by decide⟩, rfl, rfl, fun _ => rfl⟩
    [(0, {}), (0, {}), (0, {}), (0, {}), (1, {}), (1, {}), (1, {}), (1, {}),
      (0, { cancel := true }), (0, {}), (2, {}), (2, {}), (2, {}), (2, {}), (2, {})]
    (fun s => s.loc 0 = .cleanWake ∧ s.mem.sleepers = {1} ∧ s.loc 2 = .setWake) (by decide)
  exact ⟨s, hs, hp, once_single hs⟩

end Hlpt.Once
