import Hlpt.Recovery.Access

/-!
# `Hlpt.Recovery.Invariant`: every step keeps the record

A step of `Hlpt.Robust` is one below (`lower_after`), and so is a death. The steps of
`pthread_mutex_transfer_np` and `pthread_mutex_consistent` are none below as long as they
only read (`Inv.stay`). The others write what the mutex of a holder has anyway
(`Inv.write`), or pass it on (`Inv.give`).
-/

set_option autoImplicit false

namespace Hlpt.Recovery

open Hlpt.Lib Hlpt.Robust

universe u

variable {T : Type u} {E : Env T} {t u : T} {c : Robust.Choice} {m m' : Robust.Mem T}
  {p p' : Robust.Pc} {d d' : ℕ}

/-! ### The steps of a thread -/

/-- The thread after a step is where the step led. -/
theorem Local.after_pc (l : Local T) (wrecked : Bool) (p : Robust.Pc) :
    (l.after wrecked p).pc = .lib p := by
  unfold Local.after
  split <;> rfl

/-- A call is late exactly if it began on a wrecked mutex. -/
theorem Local.after_late {l : Local T} {wrecked : Bool} {p : Robust.Pc}
    (h : (l.after wrecked p).late = true) :
    begins p = none ∧ l.late = true ∨ wrecked = true ∧ ∃ k, p = .checkUnrecoverable k := by
  unfold Local.after at h
  split at h
  · rename_i k hk
    cases p <;> cases hk
    exact .inr ⟨h, _, rfl⟩
  · rename_i hk
    exact .inl ⟨hk, h⟩

/-- The lock call of a step. -/
theorem callOk_after {l : Local T} {wrecked : Bool}
    (h : Robust.act E t c m ⟨p, d⟩ = some (m', ⟨p', d'⟩)) (hp : CallOk E l.call p) :
    CallOk E (l.after wrecked p').call p' := by
  unfold Local.after
  split
  · rename_i k hk
    cases p' <;> cases hk
    rfl
  · rename_i hk
    exact callOk_next h hp hk

variable [DecidableEq T] {s : Global T (Mem T) (Local T)}

/-- A step of `Hlpt.Robust` is one below. -/
theorem lower_after {l : Local T} {wrecked : Bool} :
    lower ⟨s.mem.after t m' d', Function.update s.loc t (l.after wrecked p')⟩ =
      ⟨m', Function.update (lower s).loc t ⟨p', d'⟩⟩ := by
  refine congrArg (Global.mk m') (funext fun u => ?_)
  by_cases hu : u = t
  · subst hu
    simp only [Function.update_self, Mem.after, Local.after_pc, Pc.lower]
  · simp only [Function.update_of_ne hu, Mem.after]
    rfl

/-- A step inside of a holder's call is none below. -/
theorem lower_stay {l : Local T} (h : l.pc.lower = (s.loc t).pc.lower) :
    lower ⟨s.mem, Function.update s.loc t l⟩ = lower s := by
  refine congrArg (Global.mk s.mem.mutex) (funext fun u => ?_)
  by_cases hu : u = t
  · subst hu
    simp only [Function.update_self, h]
  · simp only [Function.update_of_ne hu]

omit [DecidableEq T] in
/-- A live holder is the owner in both fields. -/
theorem Inv.holder (hs : Inv E s) (hlive : Live E s.mem t) (hd : 0 < s.mem.holds t) :
    s.mem.mutex.taker = some t ∧ s.mem.mutex.ownerId = E.id t :=
  (hs.base.pc t hlive).holder hd

omit [DecidableEq T] in
/-- While somebody holds the mutex, it is not wrecked, and its holder's call did not begin
late. -/
theorem Inv.holder_ne (hs : Inv E s) (hlive : Live E s.mem t) (hd : 0 < s.mem.holds t) :
    s.mem.mutex.ownerId ≠ NOTRECOVERABLE_ID ∧ s.mem.wrecked = false ∧ (s.loc t).late = false := by
  have hne : s.mem.mutex.ownerId ≠ NOTRECOVERABLE_ID := by
    rw [(hs.holder hlive hd).2]
    exact E.id_ne_notrecoverable t
  have hwrecked : s.mem.wrecked = false := by
    by_contra hw
    exact hne (hs.wrecked (by simpa using hw))
  refine ⟨hne, hwrecked, ?_⟩
  by_contra hlate
  have hw := (hs.late t hlive (by simpa using hlate)).1
  rw [hwrecked] at hw
  cases hw

/-- A step that leaves the memory as it is, outside of the functions of `Hlpt.Robust`. -/
theorem Inv.stay (hs : Inv E s) {pc₀ pc : Pc T} (hpc₀ : (s.loc t).pc = pc₀)
    (hlower : pc.lower = pc₀.lower) (hpc : Live E s.mem t → PcOk E t s.mem pc)
    (hlate : Live E s.mem t → (s.loc t).late = false)
    (hmark : s.mem.lost = true → Marked s.mem.mutex pc₀ → Marked s.mem.mutex pc) :
    Inv E ⟨s.mem, Function.update s.loc t { s.loc t with pc := pc }⟩ where
  base := by
    rw [lower_stay (l := { s.loc t with pc := pc }) (by rw [hpc₀, hlower])]
    exact hs.base
  one := hs.one
  pc := (forall_loc_iff (P := fun u (l : Local T) => Live E s.mem u → PcOk E u s.mem l.pc)).mpr
    ⟨hpc, fun u _ => hs.pc u⟩
  call := (forall_loc_iff (P := fun _ (l : Local T) => CallOk E l.call l.pc.lower)).mpr
    ⟨by rw [hlower, ← hpc₀]; exact hs.call t, fun u _ => hs.call u⟩
  seek := (forall_loc_iff (P := fun u (l : Local T) => Live E s.mem u →
      s.mem.mutex.taker = some u → s.mem.holds u = 0 → ¬ Seeking l.pc.lower)).mpr
    ⟨by rw [hlower, ← hpc₀]; exact hs.seek t, fun u _ => hs.seek u⟩
  late := (forall_loc_iff (P := fun u (l : Local T) => Live E s.mem u → l.late = true →
      s.mem.wrecked = true ∧ LatePc l.pc)).mpr
    ⟨fun hlive h => absurd h (by simp [hlate hlive]), fun u _ => hs.late u⟩
  lost h := by
    rcases hs.lost h with hm | ⟨u, hu, hmark'⟩
    · exact .inl hm
    · refine .inr ⟨u, hu, ?_⟩
      intro hlive
      by_cases hut : u = t
      · subst hut
        simpa only [Function.update_self] using hmark h (hpc₀ ▸ hmark' hlive)
      · simpa only [Function.update_of_ne hut] using hmark' hlive
  wrecked := hs.wrecked

/-- A store of the holder that leaves the mutex its own. -/
theorem Inv.write (hs : Inv E s) (hlive : Live E s.mem t) (hd : 0 < s.mem.holds t)
    {pc₀ pc : Pc T} (hpc₀ : (s.loc t).pc = pc₀) (hidle : pc₀.lower = .idle) {mutex : Robust.Mem T}
    (htaker : mutex.taker = s.mem.mutex.taker) (hdead : mutex.dead = s.mem.mutex.dead)
    (hlock : mutex.lock &&& LLL_OWNER_MASK = E.pid t) (howner : mutex.ownerId = E.id t)
    (hcnt : mutex.cnt.toNat = 1) (hidle' : pc.lower = .idle)
    (hpc : PcOk E t { s.mem with mutex := mutex } pc) (hmark : Marked mutex pc) :
    Inv E ⟨{ s.mem with mutex := mutex }, Function.update s.loc t { s.loc t with pc := pc }⟩ := by
  obtain ⟨ht, hid⟩ := hs.holder hlive hd
  obtain ⟨-, hwrecked, hlate⟩ := hs.holder_ne hlive hd
  have hone : s.mem.holds t = 1 := Nat.le_antisymm (hs.one t) hd
  have hnt : ∀ u, u ≠ t → s.mem.mutex.taker ≠ some u := fun u hu h =>
    hu (Option.some.inj (h.symm.trans ht))
  have hlower : lower ⟨{ s.mem with mutex := mutex },
      Function.update s.loc t { s.loc t with pc := pc }⟩ = ⟨mutex, (lower s).loc⟩ := by
    refine congrArg (Global.mk mutex) (funext fun u => ?_)
    by_cases hu : u = t
    · subst hu
      simp only [Function.update_self, lower, hpc₀, hidle, hidle']
    · simp only [Function.update_of_ne hu, lower]
  exact
    { base := by
        rw [hlower]
        refine ⟨?_, ?_, ?_, ?_⟩
        · rw [htaker, ht]
          exact iff_of_false (Option.some_ne_none t) (E.ne_zero_of_masked hlock)
        · intro u hu
          rw [htaker, ht] at hu
          rw [hlock, Option.some.inj hu]
        · intro u hu hou
          refine (hs.base.owner u (hdead ▸ hu) ?_).imp_left htaker.trans
          exact (hid.trans howner.symm).trans hou
        · intro u hu
          have hold := hs.base.pc u (hdead ▸ hu)
          by_cases hut : u = t
          · subst hut
            have hl : (lower s).loc u = ⟨.idle, 1⟩ := by simp only [lower, hpc₀, hidle, hone]
            rw [hl]
            exact ⟨fun _ => ⟨htaker.trans ht, howner, hcnt⟩, fun h => by cases h⟩
          · exact hold.frame (fun p hp => hdead ▸ hp) (.inr ⟨hnt u hut, htaker ▸ hnt u hut⟩)
      one := hs.one
      pc := by
        refine (forall_loc_iff (P := fun u (l : Local T) => Live E { s.mem with mutex := mutex } u →
          PcOk E u { s.mem with mutex := mutex } l.pc)).mpr ⟨fun _ => hpc, fun u hu hl => ?_⟩
        have hl' : Live E s.mem u := by rwa [Live, ← hdead]
        exact (hs.pc u hl').frame (hs.base.pc u hl') (.inr (hnt u hu)) (.inl rfl)
      call := (forall_loc_iff (P := fun _ (l : Local T) => CallOk E l.call l.pc.lower)).mpr
        ⟨by rw [hidle']; trivial, fun u _ => hs.call u⟩
      seek := (forall_loc_iff (P := fun u (l : Local T) => Live E { s.mem with mutex := mutex } u →
        mutex.taker = some u → s.mem.holds u = 0 → ¬ Seeking l.pc.lower)).mpr
          ⟨fun _ _ _ => by rw [hidle']; exact id, fun u hu _ hu' =>
            absurd (htaker ▸ hu') (hnt u hu)⟩
      late := by
        refine (forall_loc_iff (P := fun u (l : Local T) => Live E { s.mem with mutex := mutex } u →
          l.late = true → s.mem.wrecked = true ∧ LatePc l.pc)).mpr
          ⟨fun _ h => absurd h (by simp [hlate]), fun u _ hl => ?_⟩
        exact hs.late u (by rwa [Live, ← hdead])
      lost := fun _ => by
        refine .inr ⟨t, htaker.trans ht, ?_⟩
        intro _
        simpa only [Function.update_self] using hmark
      wrecked := fun h => absurd h (by simp [hwrecked]) }

omit [DecidableEq T] in
/-- The counter of a holder outside of the functions of `Hlpt.Robust`. -/
theorem Inv.cnt (hs : Inv E s) (hlive : Live E s.mem t) (hd : 0 < s.mem.holds t) {pc : Pc T}
    (hpc : (s.loc t).pc = pc) (hidle : pc.lower = .idle) : s.mem.mutex.cnt.toNat = 1 := by
  have hbase := hs.base.pc t hlive
  have hloc : (lower s).loc t = ⟨.idle, s.mem.holds t⟩ := by simp only [lower, hpc, hidle]
  rw [hloc] at hbase
  exact (hbase.1 hd).2.2.trans (Nat.le_antisymm (hs.one t) hd)

/-- The store that passes the mutex on keeps the invariant. -/
theorem Inv.give (hs : Inv E s) (hlive : Live E s.mem t) (hpc : (s.loc t).pc = .giveOwner u) :
    Inv E ⟨s.mem.give E t u, Function.update s.loc t { s.loc t with pc := .giveRet .ok }⟩ := by
  have hok := hs.pc t hlive
  rw [hpc] at hok
  obtain ⟨hd, hut, hproc⟩ := hok
  obtain ⟨ht, hid⟩ := hs.holder hlive hd
  obtain ⟨hne, hwrecked, hlate⟩ := hs.holder_ne hlive hd
  have hnt : ∀ v, v ≠ t → s.mem.mutex.taker ≠ some v := fun v hv h =>
    hv (Option.some.inj (h.symm.trans ht))
  have hliveu : Live E s.mem u := by rw [Live, hproc]; exact hlive
  have hholds : ∀ v, v ≠ t → v ≠ u → (s.mem.give E t u).holds v = s.mem.holds v := by
    intro v hvt hvu
    simp only [Mem.give, Function.update_of_ne hvu, Function.update_of_ne hvt]
  have hholdsu : (s.mem.give E t u).holds u = s.mem.holds t := by
    simp only [Mem.give, Function.update_self]
  have hholdst : (s.mem.give E t u).holds t = 0 := by
    simp only [Mem.give, Function.update_of_ne hut.symm, Function.update_self]
  have hcnt : s.mem.mutex.cnt.toNat = s.mem.holds t :=
    (hs.cnt hlive hd hpc rfl).trans (Nat.le_antisymm (hs.one t) hd).symm
  exact
    { base := by
        refine ⟨?_, ?_, ?_, ?_⟩
        · apply iff_of_false (Option.some_ne_none u)
          intro h0
          exact Option.some_ne_none t (ht.symm.trans (hs.base.free.mpr h0))
        · intro v hv
          rw [← Option.some.inj hv, hproc]
          exact hs.base.word t ht
        · intro v _ hov
          by_cases hvu : v = u
          · exact .inl (congrArg some hvu.symm)
          · exact .inr ⟨u, Ne.symm hvu, hov⟩
        · intro v hv
          have hold := hs.base.pc v hv
          by_cases hvt : v = t
          · subst hvt
            simp only [lower, Function.update_self, hholdst]
            exact ⟨fun h => absurd h (Nat.lt_irrefl 0), fun _ h => absurd (Option.some.inj h) hut⟩
          by_cases hvu : v = u
          · subst hvu
            simp only [lower, Function.update_of_ne hvt, hholdsu]
            exact pcOk_given hold (hnt v hvt) ⟨rfl, rfl, hcnt⟩ hd rfl
          · simp only [lower, Function.update_of_ne hvt, hholds v hvt hvu]
            exact hold.frame (fun _ h => h)
              (.inr ⟨hnt v hvt, fun h => hvu (Option.some.inj h).symm⟩)
      one := fun v => by
        by_cases hvt : v = t
        · rw [hvt, hholdst]
          exact Nat.zero_le 1
        by_cases hvu : v = u
        · rw [hvu, hholdsu]
          exact hs.one t
        · rw [hholds v hvt hvu]
          exact hs.one v
      pc := by
        refine (forall_loc_iff (P := fun v (l : Local T) => Live E (s.mem.give E t u) v →
          PcOk E v (s.mem.give E t u) l.pc)).mpr ⟨fun _ => trivial, fun v hvt hl => ?_⟩
        refine (hs.pc v hl).frame (hs.base.pc v hl) (.inr (hnt v hvt)) ?_
        by_cases hvu : v = u
        · exact .inr ⟨hnt v hvt, by rw [hvu, hholdsu]; exact hd⟩
        · exact .inl (hholds v hvt hvu)
      call := (forall_loc_iff (P := fun _ (l : Local T) => CallOk E l.call l.pc.lower)).mpr
        ⟨trivial, fun v _ => hs.call v⟩
      seek := (forall_loc_iff (P := fun v (l : Local T) => Live E (s.mem.give E t u) v →
        some u = some v → (s.mem.give E t u).holds v = 0 → ¬ Seeking l.pc.lower)).mpr
          ⟨fun _ _ _ => id, fun v _ _ hv h0 => by
            rw [← Option.some.inj hv, hholdsu] at h0
            exact absurd h0 hd.ne'⟩
      late := (forall_loc_iff (P := fun v (l : Local T) => Live E (s.mem.give E t u) v →
        l.late = true → s.mem.wrecked = true ∧ LatePc l.pc)).mpr
          ⟨fun _ h => absurd h (by simp [hlate]), fun v _ => hs.late v⟩
      lost := fun h => by
        refine .inr ⟨u, rfl, ?_⟩
        intro _
        simp only [Function.update_of_ne hut]
        rcases hs.lost h with hm | ⟨w, hw, hmark⟩
        · exact absurd hm hne
        · obtain rfl := Option.some.inj (ht.symm.trans hw)
          have hbit := hmark hlive
          rw [hpc] at hbit
          -- The new owner is not in the middle of a holder's call.
          have hcon : ∀ pc, (s.loc u).pc = pc → (PcOk E u s.mem pc → 0 < s.mem.holds u) →
              False := fun pc hp hpos =>
            hnt u hut (hs.holder hliveu (hpos (hp ▸ hs.pc u hliveu))).1
          have hmarku : Marked s.mem.mutex (s.loc u).pc :=
            marked_of_word (hs.base.pc u hliveu) (hnt u hut)
              ⟨fun hp => hcon _ hp id, fun hp => hcon _ hp id, fun hp => hcon _ hp id⟩ hbit
          exact hmarku.frame id
      wrecked := fun h => absurd h (by simp [Mem.give, hwrecked]) }

omit [DecidableEq T] in
/-- An access of `Hlpt.Robust` leaves the word of another live thread alone, and the mark
in it. -/
theorem Inv.other_word (hs : Robust.Inv E (lower s)) (hlive : Live E s.mem t)
    (h : Robust.act E t c s.mem.mutex ((lower s).loc t) = some (m', ⟨p', d'⟩))
    (hu : s.mem.mutex.taker = some u) (hut : u ≠ t) (hliveu : Live E s.mem u) :
    m'.taker = some u ∧
      (s.mem.mutex.lock &&& LLL_DEAD_OWNER ≠ 0 → m'.lock &&& LLL_DEAD_OWNER ≠ 0) := by
  have hnt : s.mem.mutex.taker ≠ some t := fun ht => hut (Option.some.inj (hu.symm.trans ht))
  obtain ⟨htake, -⟩ := Robust.act_take h (hs.pc t hlive)
  cases htake with
  | keep ht ho hc hl =>
      refine ⟨ht.trans hu, ?_⟩
      intro hbit
      rcases hl with hl | ⟨-, hl⟩
      · rwa [hl]
      · rw [hl]
        exact or_and_ne_zero hbit
  | take hm ht ho hl =>
      rcases hm with h0 | ⟨-, hdead⟩
      · exact absurd (hu.symm.trans (hs.free.mpr h0)) (Option.some_ne_none u)
      · have hword : s.mem.mutex.lock &&& LLL_OWNER_MASK = E.pid u := hs.word u hu
        rw [hword, hliveu] at hdead
        cases hdead
  | own hm ht ho hl => exact absurd hm hnt
  | release hm ht hl ho => exact absurd hm hnt

/-- A step of `Hlpt.Robust` keeps the record. -/
theorem Inv.recorded_lib (hs : Inv E s) (hk : E.kind ≠ .recursive) (hlive : Live E s.mem t)
    (hpc : (s.loc t).pc = .lib p)
    (h : Robust.act E t c s.mem.mutex ⟨p, s.mem.holds t⟩ = some (m', ⟨p', d'⟩))
    (hrec : Recorded E s) :
    Recorded E ⟨s.mem.after t m' d',
      Function.update s.loc t ((s.loc t).after s.mem.wrecked p')⟩ := by
  have hloc : (lower s).loc t = ⟨p, s.mem.holds t⟩ := by simp only [lower, hpc, Pc.lower]
  have hbase := hs.base.pc t hlive
  rw [hloc] at hbase
  have hlib : LibOk E t s.mem.mutex.ownerId (s.mem.holds t) p := by
    have hok := hs.pc t hlive
    rwa [hpc] at hok
  have hcall : CallOk E (s.loc t).call p := by
    have hok := hs.call t
    rwa [hpc] at hok
  rcases hrec with hm | ⟨u, hu, hmark⟩
  · exact .inl (act_unrecoverable h hlib hm)
  by_cases hut : u = t
  · subst hut
    have hmarkp := hmark hlive
    rw [hpc] at hmarkp
    rcases marked_next h hbase hcall hk hlive hs.base.free hs.base.word hu hmarkp with
      hm | ⟨ht, hmark'⟩
    · exact .inl hm
    · refine .inr ⟨u, ht, ?_⟩
      intro _
      simp only [Function.update_self, Local.after_pc]
      exact hmark'
  · by_cases hliveu : Live E s.mem u
    · obtain ⟨hu', hbit⟩ := Inv.other_word hs.base hlive (hloc ▸ h) hu hut hliveu
      refine .inr ⟨u, hu', ?_⟩
      intro _
      simp only [Function.update_of_ne hut]
      exact (hmark hliveu).frame hbit
    · -- The word of a dead process is the record, and the thread that takes it over knows.
      rcases steal_next h hbase hs.base.free hu hut with hu' | ⟨ht, rfl⟩
      · refine .inr ⟨u, hu', fun hl => absurd ?_ hliveu⟩
        have hdead := (Robust.act_take h hbase).2
        rwa [Live, ← hdead]
      · refine .inr ⟨t, ht, ?_⟩
        intro _
        simp only [Function.update_self, Local.after_pc]
        rfl

/-- A step of `Hlpt.Robust` keeps the invariant. -/
theorem Inv.lib (hs : Inv E s) (hk : E.kind ≠ .recursive) (hlive : Live E s.mem t)
    (hdies : c.dies = false) (hpc : (s.loc t).pc = .lib p)
    (h : Robust.act E t c s.mem.mutex ⟨p, s.mem.holds t⟩ = some (m', ⟨p', d'⟩)) :
    Inv E ⟨s.mem.after t m' d',
      Function.update s.loc t ((s.loc t).after s.mem.wrecked p')⟩ := by
  have hloc : (lower s).loc t = ⟨p, s.mem.holds t⟩ := by simp only [lower, hpc, Pc.lower]
  have hbase := hs.base.pc t hlive
  rw [hloc] at hbase
  have hlib : LibOk E t s.mem.mutex.ownerId (s.mem.holds t) p := by
    have hok := hs.pc t hlive
    rwa [hpc] at hok
  have hcall : CallOk E (s.loc t).call p := by
    have hok := hs.call t
    rwa [hpc] at hok
  obtain ⟨htake, hdead⟩ := Robust.act_take h hbase
  have hlive' : ∀ u, Live E (s.mem.after t m' d') u → Live E s.mem u := fun u hu => by
    rwa [Live, ← hdead]
  have hrec := fun hlost => hs.recorded_lib hk hlive hpc h (hs.lost hlost)
  exact
    { base := by
        rw [lower_after]
        refine hs.base.step (c := c) (fun _ _ => Robust.sure_of_kind hk) ?_
        have hd : (lower s).mem.dead (E.pid t) = false := hlive
        rw [Robust.exec, hd, hdies, hloc]
        exact h
      one := fun u => by
        by_cases hut : u = t
        · subst hut
          simp only [Mem.after, Function.update_self]
          exact depth_le_one h hbase hlib (hs.one u)
        · simp only [Mem.after, Function.update_of_ne hut]
          exact hs.one u
      pc := by
        refine (forall_loc_iff (P := fun u (l : Local T) => Live E (s.mem.after t m' d') u →
          PcOk E u (s.mem.after t m' d') l.pc)).mpr ⟨fun _ => ?_, fun u hut hl => ?_⟩
        · rw [Local.after_pc]
          simp only [PcOk, Mem.after, Function.update_self]
          exact libOk_next h hbase hlib hcall hk hs.base.free hs.base.word
        · refine (hs.pc u (hlive' u hl)).frame (hs.base.pc u (hlive' u hl)) ?_
            (.inl (Function.update_of_ne hut _ _))
          -- Only the taker stores to the field.
          have hne : ∀ {x}, s.mem.mutex.taker = some t → x = s.mem.mutex.taker → x ≠ some u :=
            fun ht hx h => hut (Option.some.inj (h.symm.trans (hx.trans ht)))
          cases htake with
          | keep ht ho hc hl => exact .inl ho
          | take hm ht ho hl => exact .inl ho
          | own hm ht ho hl => exact .inr (hne hm rfl)
          | release hm ht hl ho => exact .inr (hne hm rfl)
      call := (forall_loc_iff (P := fun _ (l : Local T) => CallOk E l.call l.pc.lower)).mpr
        ⟨by rw [Local.after_pc]; exact callOk_after h hcall, fun u _ => hs.call u⟩
      seek := by
        refine (forall_loc_iff (P := fun u (l : Local T) => Live E (s.mem.after t m' d') u →
          m'.taker = some u → (s.mem.after t m' d').holds u = 0 → ¬ Seeking l.pc.lower)).mpr
          ⟨fun _ ht h0 => ?_, fun u hut hl hu h0 => ?_⟩
        · rw [Local.after_pc]
          intro hp'
          simp only [Mem.after, Function.update_self] at h0
          subst h0
          obtain ⟨hp, ht', h0'⟩ := seeking_next h hbase ht hp'
          have hseek := hs.seek t hlive ht' h0'
          rw [hpc] at hseek
          exact hseek hp
        · -- Another thread has the word as before.
          have hu' : s.mem.mutex.taker = some u := by
            cases htake with
            | keep ht ho hc hl => exact ht.symm.trans hu
            | take hm ht ho hl => exact absurd (Option.some.inj (hu.symm.trans ht)) hut
            | own hm ht ho hl => exact absurd (Option.some.inj (hu.symm.trans ht)) hut
            | release hm ht hl ho => exact absurd (hu.symm.trans ht) (Option.some_ne_none u)
          simp only [Mem.after, Function.update_of_ne hut] at h0
          exact hs.seek u (hlive' u hl) hu' h0
      late := by
        refine (forall_loc_iff (P := fun u (l : Local T) => Live E (s.mem.after t m' d') u →
          l.late = true → (s.mem.after t m' d').wrecked = true ∧ LatePc l.pc)).mpr
          ⟨fun _ hl => ?_, fun u _ hliveu hl => ?_⟩
        · rw [Local.after_pc]
          rcases Local.after_late hl with ⟨-, hl'⟩ | ⟨hw, k, rfl⟩
          · obtain ⟨hw, hlate⟩ := hs.late t hlive hl'
            rw [hpc] at hlate
            exact ⟨by simp [Mem.after, hw], latePc_next h hbase hlate (hs.wrecked hw)⟩
          · exact ⟨by simp [Mem.after, hw], trivial⟩
        · obtain ⟨hw, hlate⟩ := hs.late u (hlive' u hliveu) hl
          exact ⟨by simp [Mem.after, hw], hlate⟩
      lost := hrec
      wrecked := fun hw => by
        simp only [Mem.after, Bool.or_eq_true, Bool.and_eq_true, decide_eq_true_eq] at hw
        rcases hw with hw | ⟨hlost, hne, h0⟩
        · exact act_unrecoverable h hlib (hs.wrecked hw)
        · -- Who releases the word of a lost mutex has stored the special id before.
          rcases hrec hlost with hm | ⟨u, hu, -⟩
          · exact hm
          · cases htake with
            | keep ht ho hc hl =>
                rcases hl with hl | ⟨-, hl⟩
                · exact absurd (hl.symm.trans h0) hne
                · exact absurd (hl.symm.trans h0) (waiters_ne_zero _)
            | take hm ht ho hl =>
                rcases hl with hl | hl
                · exact absurd (hl.symm.trans h0) (E.pid_ne t)
                · exact absurd (hl.symm.trans h0) (waiters_ne_zero _)
            | own hm ht ho hl =>
                rcases hl with hl | hl
                · exact absurd (hl.symm.trans h0) hne
                · exact absurd h0 (E.ne_zero_of_masked hl)
            | release hm ht hl ho => exact absurd (hu.symm.trans ht) (Option.some_ne_none u) }

/-- The death of a process keeps the invariant, and loses the mutex if the process has the
word. -/
theorem Inv.death (hs : Inv E s) (hk : E.kind ≠ .recursive) (hlive : Live E s.mem t) :
    Inv E ⟨s.mem.afterDeath E t, Function.update s.loc t (s.loc t)⟩ := by
  have hlive' : ∀ u, Live E (s.mem.afterDeath E t) u → Live E s.mem u := by
    intro u hu
    simp only [Live, Mem.afterDeath, Function.update_apply] at hu
    split at hu
    · cases hu
    · exact hu
  have hdead : ∀ u, E.pid u = E.pid t → ¬ Live E (s.mem.afterDeath E t) u := by
    intro u hu
    simp [Live, Mem.afterDeath, hu]
  rw [Function.update_eq_self]
  exact
    { base := by
        have hstep : Robust.exec E t { dies := true } (lower s).mem ((lower s).loc t) =
            some ((s.mem.afterDeath E t).mutex, (lower s).loc t) := by
          have hd : (lower s).mem.dead (E.pid t) = false := hlive
          rw [Robust.exec, hd]
          rfl
        have hnext := hs.base.step (fun _ _ => Robust.sure_of_kind hk) hstep
        rwa [Function.update_eq_self] at hnext
      one := hs.one
      pc := fun u hu => (hs.pc u (hlive' u hu)).frame (hs.base.pc u (hlive' u hu))
        (.inl rfl) (.inl rfl)
      call := hs.call
      seek := fun u hu => hs.seek u (hlive' u hu)
      late := fun u hu => hs.late u (hlive' u hu)
      lost := fun h => by
        simp only [Mem.afterDeath, Bool.or_eq_true, Option.any_eq_true_iff_get] at h
        rcases h with hlost | ⟨hsome, hproc⟩
        · rcases hs.lost hlost with hm | ⟨u, hu, hmark⟩
          · exact .inl hm
          · exact .inr ⟨u, hu, fun hl => hmark (hlive' u hl)⟩
        · obtain ⟨u, hu⟩ := Option.isSome_iff_exists.mp hsome
          simp only [hu, Option.get_some, beq_iff_eq] at hproc
          exact .inr ⟨u, hu, fun hl => absurd hl (hdead u hproc)⟩
      wrecked := hs.wrecked }

omit [DecidableEq T] in
/-- A call of `pthread_mutex_consistent` that returns keeps the invariant. -/
theorem Inv.forget (hs : Inv E s) {b : Bool} (hb : b = true → s.mem.lost = true) :
    Inv E ⟨{ s.mem with lost := b }, s.loc⟩ :=
  ⟨hs.base, hs.one, hs.pc, hs.call, hs.seek, hs.late, fun h => hs.lost (hb h), hs.wrecked⟩

/-- The entry of a holder's call keeps the invariant. -/
theorem Inv.enter (hs : Inv E s) (hlive : Live E s.mem t) (hd : 0 < s.mem.holds t)
    (hpc : (s.loc t).pc = .lib .idle) {k : HolderCall T} {pc : Pc T}
    (hstart : k.start E t = some pc) :
    Inv E ⟨s.mem, Function.update s.loc t { s.loc t with pc := pc }⟩ := by
  have hlate := (hs.holder_ne hlive hd).2.2
  cases k with
  | consistent =>
      cases hstart
      exact hs.stay hpc rfl (fun _ => hd) (fun _ => hlate) fun _ => id
  | transfer th =>
      cases th with
      | none =>
          cases hstart
          exact hs.stay hpc rfl (fun _ => trivial) (fun _ => hlate) fun _ => id
      | some u =>
          simp only [HolderCall.start] at hstart
          split at hstart
          · cases hstart
            exact hs.stay hpc rfl (fun _ => trivial) (fun _ => hlate) fun _ => id
          · rename_i hut
            split at hstart
            · rename_i hproc
              cases hstart
              exact hs.stay hpc rfl (fun _ => ⟨hd, hut, hproc⟩) (fun _ => hlate) fun _ => id
            · cases hstart

/-- Every step keeps the invariant. -/
theorem Inv.step (hs : Inv E s) (hk : E.kind ≠ .recursive) {c : Choice T} {m : Mem T}
    {l : Local T} (h : exec E t c s.mem (s.loc t) = some (m, l)) :
    Inv E ⟨m, Function.update s.loc t l⟩ := by
  unfold exec at h
  split at h
  · cases h
  rename_i hlive
  rw [Bool.not_eq_true] at hlive
  split at h
  · cases h
    exact hs.death hk hlive
  rename_i hdies
  rw [Bool.not_eq_true] at hdies
  have hok := hs.pc t hlive
  unfold act at h
  generalize hpc : (s.loc t).pc = pc at h hok
  cases pc with
  | lib p =>
      simp only at h
      cases hcall : c.holderCall with
      | none =>
          simp only [hcall] at h
          obtain ⟨⟨m', p', d'⟩, hact, hr⟩ := Option.map_eq_some_iff.mp h
          cases hr
          exact hs.lib hk hlive hdies hpc hact
      | some k =>
          simp only [hcall] at h
          split at h
          · rename_i hidle
            obtain ⟨rfl, hd⟩ := hidle
            obtain ⟨pc, hstart, hr⟩ := Option.map_eq_some_iff.mp h
            cases hr
            exact hs.enter hlive hd hpc hstart
          · cases h
  | giveTestOwner u | giveTestPid u =>
      cases h
      have hlate := (hs.holder_ne hlive hok.1).2.2
      split
      · exact hs.stay hpc rfl (fun _ => trivial) (fun _ => hlate) fun _ => id
      · exact hs.stay hpc rfl (fun _ => hok) (fun _ => hlate) fun _ => id
  | giveOwner u =>
      cases h
      exact hs.give hlive hpc
  | giveRet r =>
      cases h
      refine hs.stay hpc rfl (fun _ => trivial) (fun _ => ?_) fun _ => id
      by_contra hlate
      have hl := (hs.late t hlive (by simpa using hlate)).2
      rw [hpc] at hl
      exact hl
  | conLoad =>
      cases h
      have hlate := (hs.holder_ne hlive hok).2.2
      split
      · exact hs.stay hpc rfl (fun _ => hok) (fun _ => hlate) fun _ => id
      · exact hs.stay hpc rfl (fun _ => hok) (fun _ => hlate) fun _ => id
  | conCas val =>
      obtain ⟨ht, hid⟩ := hs.holder hlive hok
      simp only at h
      split at h
      · cases h
        refine hs.write hlive hok hpc rfl rfl rfl ?_ hid (hs.cnt hlive hok hpc rfl)
          rfl hok trivial
        rw [waiters_masked, E.pid_masked]
      · cases h
        have hlate := (hs.holder_ne hlive hok).2.2
        exact hs.stay hpc rfl (fun _ => hok) (fun _ => hlate) fun _ => id
  | conOwner =>
      obtain ⟨ht, -⟩ := hs.holder hlive hok
      cases h
      exact hs.write hlive hok hpc rfl rfl rfl (hs.base.word t ht) rfl
        (hs.cnt hlive hok hpc rfl) rfl hok trivial
  | conCnt =>
      obtain ⟨ht, hid⟩ := hs.holder hlive hok
      cases h
      exact hs.write hlive hok hpc rfl rfl rfl (hs.base.word t ht) hid rfl rfl hok trivial
  | conRet r =>
      cases h
      have hlate := (hs.holder_ne hlive hok).2.2
      by_cases hr : r = .ok
      · subst hr
        have hs' : Inv E ⟨{ s.mem with lost := false }, s.loc⟩ := hs.forget fun h => by cases h
        exact hs'.stay hpc rfl (fun _ => trivial) (fun _ => hlate) fun h => by cases h
      · rw [if_neg hr]
        refine hs.stay hpc rfl (fun _ => trivial) (fun _ => hlate) ?_
        intro _ hmark
        cases r with
        | ok => exact absurd rfl hr
        | _ => exact hmark

/-- The invariant holds in every reachable state. -/
theorem inv_of_reach (hk : E.kind ≠ .recursive) (h : (machine E).Reach s) : Inv E s := by
  refine Exec.invariant (fun s hs => ?_) (fun s t c m l hs _ he => hs.step hk he) h
  obtain ⟨hm, hloc⟩ := hs
  have hlower : Robust.IsInit (lower s) := by
    refine ⟨by rw [lower, hm], ?_⟩
    intro t
    simp only [lower, hm, hloc, Pc.lower]
  have hbase : (Robust.machine E).Reach (lower s) := .init hlower
  exact
    { base := Robust.inv_of_reach (fun hrec => absurd hrec hk) hbase
      one := fun t => by rw [hm]; exact Nat.zero_le 1
      pc := fun t _ => by rw [hloc]; trivial
      call := fun t => by rw [hloc]; trivial
      seek := fun t _ _ _ => by rw [hloc]; exact id
      late := fun t _ h => by rw [hloc] at h; cases h
      lost := fun h => by rw [hm] at h; cases h
      wrecked := fun h => by rw [hm] at h; cases h }

end Hlpt.Recovery
