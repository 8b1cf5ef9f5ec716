import Hlpt.Mutex.Owner

/-!
# `Hlpt.Mutex.Private`: ownership and recursion of a mutex of one process

In one process the id says who owns the mutex, so a thread learns from `__owner_id` alone
whether it is the owner. `mutex_private` says what follows for all calls: who gets
`EPERM`, what an owner gets that locks again, and which unlock releases the word.
-/

set_option autoImplicit false

namespace Hlpt.Mutex

open Hlpt.Lib

universe u

variable {T : Type u} [DecidableEq T]

/-- What a step of the thread `t` does that decides the outcome of a call. -/
structure Faithful (K : Attr) (t : T) (m : Mem T) (pc : Pc T) (m' : Mem T) (pc' : Pc T) :
    Prop where
  /-- The test of an operation succeeds exactly for the owner. For errorcheck the owner
  then gets `EDEADLK` from a lock call, and who is not the owner gets `EPERM` from an
  unlock or a transfer. -/
  test : ∀ k, pc = .testOwner k → m' = m ∧ pc' = if t ∈ m.owners then K.owned k else unowned k
  /-- Nothing else leads to `EPERM`. -/
  eperm : pc' = .ret .eperm → t ∉ m.owners ∧
    (pc = .testOwner .unlock ∨ ∃ u, pc = .testOwner (.transfer u))
  /-- An owner that locks again is refused at the limit of the counter only. -/
  limit : pc = .cntTest → t ∈ m.owners ∧ m' = m ∧
    pc' = if m.levels + 1 = 2 ^ 32 then .ret .eagain else .incLoad
  /-- Otherwise it owns the mutex with one level more. -/
  again : ∀ cnt, pc = .incStore cnt → t ∈ m.owners ∧ m'.owners = m.owners ∧
    m'.levels = m.levels + 1 ∧ m'.lock = m.lock ∧ pc' = .ret .ok
  /-- An unlock of a recursive mutex goes on to the release when it matches the first
  acquisition, and leaves the word as it is otherwise. -/
  dec : ∀ cnt, pc = .decStore cnt → t ∈ m.owners ∧ m'.levels + 1 = m.levels ∧
    m'.lock = m.lock ∧ pc' = if m.levels = 1 then .clearPid else .ret .ok
  /-- An unlock of an errorcheck mutex matches the only acquisition. -/
  clear : pc = .clearPid → t ∈ m.owners ∧ m'.levels = 0 ∧
    m.levels = match K.kind with
      | .recursive => 0
      | .errorcheck => 1
  /-- A transfer passes the levels on. -/
  transfer : ∀ u, pc = .giveOwner u → t ∈ m.owners ∧ m'.owners = {u} ∧
    m'.levels = m.levels ∧ m'.lock = m.lock ∧ pc' = .ret .ok
  /-- Only the end of an unlock releases the word, with no level left. -/
  release : m.lock.word ≠ 0 → m'.lock.word = 0 →
    pc = .unlockWord .unlockSwap ∧ t ∈ m.owners ∧ m.levels = 0 ∧ m'.owners = ∅

variable {I : Threads T} {K : Attr} {t : T} {c : Choice T} {s : Global T (Mem T) (Pc T)}
  {m : Mem T} {pc : Pc T}

omit [DecidableEq T] in
/-- In one process the test of the id is right. -/
theorem Inv.ownerId_iff (hs : Inv I K s) (hproc : ∀ t u, I.pid t = I.pid u)
    (hrest : Resting I K s.mem t) : s.mem.ownerId = I.id t ↔ t ∈ s.mem.owners := by
  constructor
  · intro hid
    rcases hs.owner_or_twin hid with ht | ⟨u, hne, -⟩
    · exact ht
    · exact absurd (hproc u t) hne
  · exact fun ht => (hrest ht).1

/-- A call is refused with `EPERM` by its test only. -/
theorem Inv.eperm (hs : Inv I K s) (hK : K.shared = false) (hproc : ∀ t u, I.pid t = I.pid u)
    (h : exec I K t c s.mem (s.loc t) = some (m, .ret .eperm)) :
    t ∉ s.mem.owners ∧
      (s.loc t = .testOwner .unlock ∨ ∃ u, s.loc t = .testOwner (.transfer u)) := by
  have hok := hs.pc t
  generalize hpc : s.loc t = pc₀ at h hok
  cases pc₀ with
  | testOwner k =>
      have hr := (Prod.mk.inj (Option.some.inj h)).2
      simp only [hs.ownerId_iff hproc hok.1] at hr
      have hno : K.testsPid k = false := by
        rcases k with (_ | _ | _) | _ | _ <;> simp [Attr.testsPid, hK]
      by_cases ht : t ∈ s.mem.owners
      · rw [if_pos ht, hno] at hr
        obtain ⟨kind, shared⟩ := K
        cases k <;> cases kind <;> cases hr
      · rw [if_neg ht] at hr
        cases k with
        | lock k => cases hr
        | unlock => exact ⟨ht, .inl rfl⟩
        | transfer u => exact ⟨ht, .inr ⟨u, rfl⟩⟩
  | testPid k => exact absurd hok.2.1 (by simp [hK])
  | lockWord p =>
      obtain ⟨r, hword, hr⟩ := Option.map_eq_some_iff.mp h
      have hp' := (Prod.mk.inj hr).2
      rcases LowLevelLock.exec_inLock hword hok.2 with ⟨hp, -⟩ | ⟨hp | ⟨r', hr', hne, hp⟩, -⟩
      · rw [hp] at hp'
        cases hp'
      · generalize r.2.pc = p₁ at hp hp'
        cases p₁ <;> first | exact hp.elim | cases hp'
      · rw [hp, afterLock, if_neg hr'] at hp'
        exact absurd (Pc.ret.inj hp') hne
  | unlockWord p =>
      obtain ⟨r, hword, hr⟩ := Option.map_eq_some_iff.mp h
      have hp' := (Prod.mk.inj hr).2
      rcases hok with ⟨rfl, -⟩ | ⟨rfl, -⟩
      · rcases (LowLevelLock.exec_unlockSwap hword).2.2 with ⟨hp, -⟩ | ⟨hp, -⟩ <;>
          rw [hp] at hp' <;> cases hp'
      · rw [(LowLevelLock.exec_unlockWake hword).2] at hp'
        cases hp'
  | idle =>
      obtain ⟨p, henter, hr⟩ := Option.map_eq_some_iff.mp h
      obtain ⟨-, rfl⟩ := Prod.mk.inj hr
      rcases hc : c.call with k | _ | _ | u <;> rw [hc] at henter <;> simp only [enter] at henter
      · cases henter
      · cases henter
      · cases henter
      · split at henter
        · cases henter
        · split at henter <;> cases henter
  | cntTest | decStore cnt | giveOwner u =>
      have hr := (Prod.mk.inj (Option.some.inj h)).2
      split at hr <;> cases hr
  | setOwner | setPid =>
      have hr := (Prod.mk.inj (Option.some.inj h)).2
      obtain ⟨kind, shared⟩ := K
      cases kind <;> cases shared <;> cases hr
  | _ => cases (Prod.mk.inj (Option.some.inj h)).2

/-- The word is released by the end of an unlock only. -/
theorem Inv.released (hs : Inv I K s) (h : exec I K t c s.mem (s.loc t) = some (m, pc))
    (hw : s.mem.lock.word ≠ 0) (hw' : m.lock.word = 0) :
    s.loc t = .unlockWord .unlockSwap ∧ t ∈ s.mem.owners ∧ s.mem.levels = 0 ∧
      m.owners = ∅ := by
  have hok := hs.pc t
  generalize hpc : s.loc t = pc₀ at h hok
  cases pc₀ with
  | lockWord p =>
      obtain ⟨r, hword, hr⟩ := Option.map_eq_some_iff.mp h
      obtain ⟨rfl, -⟩ := Prod.mk.inj hr
      rcases LowLevelLock.exec_inLock hword hok.2 with ⟨-, hfree, -⟩ | ⟨-, hiff, -⟩
      · exact absurd hfree hw
      · exact absurd (hiff.mp hw') hw
  | unlockWord p =>
      obtain ⟨r, hword, hr⟩ := Option.map_eq_some_iff.mp h
      obtain ⟨rfl, -⟩ := Prod.mk.inj hr
      rcases hok with ⟨rfl, ht, -, -, hlevels⟩ | ⟨rfl, -⟩
      · refine ⟨rfl, ht, hlevels, ?_⟩
        rw [(LowLevelLock.exec_unlockSwap hword).2.1]
        exact hs.erase_eq_empty ht
      · exact absurd ((LowLevelLock.exec_unlockWake hword).1.symm.trans hw') hw
  | idle =>
      obtain ⟨p, -, hr⟩ := Option.map_eq_some_iff.mp h
      obtain ⟨rfl, -⟩ := Prod.mk.inj hr
      exact absurd hw' hw
  | _ =>
      obtain ⟨rfl, -⟩ := Prod.mk.inj (Option.some.inj h)
      exact absurd hw' hw

/-- Every step is faithful. -/
theorem Inv.faithful (hs : Inv I K s) (hK : K.shared = false)
    (hproc : ∀ t u, I.pid t = I.pid u)
    (h : exec I K t c s.mem (s.loc t) = some (m, pc)) :
    Faithful K t s.mem (s.loc t) m pc := by
  have hok := hs.pc t
  constructor
  case test =>
    intro k hk
    rw [hk] at h hok
    cases h
    have hno : K.testsPid k = false := by
      rcases k with (_ | _ | _) | _ | _ <;> simp [Attr.testsPid, hK]
    simp only [hs.ownerId_iff hproc hok.1, hno, Bool.false_eq_true, if_false, and_self]
  case eperm =>
    rintro rfl
    exact hs.eperm hK hproc h
  case limit =>
    intro hk
    rw [hk] at h hok
    cases h
    obtain ⟨⟨ht, -, -, hsettled⟩, hkind⟩ := hok
    simp only [Settled, hkind] at hsettled
    refine ⟨ht, rfl, ?_⟩
    simp only [add_one_eq_zero_iff, hsettled.2]
  case again =>
    intro cnt hk
    rw [hk] at h hok
    cases h
    exact ⟨hok.1.1, rfl, rfl, rfl, rfl⟩
  case dec =>
    intro cnt hk
    rw [hk] at h hok
    obtain ⟨⟨ht, -, -, hsettled⟩, hkind, rfl⟩ := hok
    cases h
    simp only [Settled, hkind] at hsettled
    refine ⟨ht, Nat.sub_add_cancel hsettled.1, rfl, ?_⟩
    obtain ⟨n, hn⟩ : ∃ n, s.mem.cnt.toNat = n + 1 :=
      Nat.exists_eq_succ_of_ne_zero (by omega)
    have hlast : n = 0 ↔ s.mem.levels = 1 := by omega
    simp only [sub_one_eq_zero_iff hn, hlast]
  case clear =>
    intro hk
    rw [hk] at h hok
    obtain ⟨ht, -, hlevels⟩ := hok
    cases h
    refine ⟨ht, ?_, hlevels⟩
    cases hkind : K.kind <;> simp [hlevels, hkind]
  case transfer =>
    intro u hk
    rw [hk] at h hok
    obtain ⟨⟨ht, -⟩, -, -, -⟩ := hok
    cases h
    exact ⟨ht, by simp [hs.erase_eq_empty ht], rfl, rfl, by simp [hK]⟩
  case release => exact hs.released h

/-- Ownership and recursion of a mutex of one process, over every run. At most one thread
owns the mutex, `__owner_id` names only an owner, and the word is taken while there is
one. The calls have the outcomes of `Faithful`. -/
theorem mutex_private (hK : K.shared = false) (hproc : ∀ t u, I.pid t = I.pid u)
    (h : (machine I K).Reach s) :
    (∀ t u, t ∈ s.mem.owners → u ∈ s.mem.owners → t = u) ∧
    (∀ t, s.mem.ownerId = I.id t → t ∈ s.mem.owners) ∧
    (s.mem.lock.word = 0 ↔ s.mem.owners = ∅) ∧
    ∀ t c m pc, exec I K t c s.mem (s.loc t) = some (m, pc) →
      Faithful K t s.mem (s.loc t) m pc := by
  have hprivate : ∀ {P : Prop}, K.shared = true → P := fun hshared => by
    rw [hK] at hshared
    cases hshared
  have hs : Inv I K s := inv_of_reach (fun _ _ _ => hprivate) (fun _ => hproc) hprivate h
  refine ⟨hs.one, fun t hid => ?_, hs.free, fun t c m pc => hs.faithful hK hproc⟩
  rcases hs.owner_or_twin hid with ht | ⟨u, hne, -⟩
  · exact ht
  · exact absurd (hproc u t) hne

/-- Three threads of the process 1, with the ids 1, 2 and 3. -/
def Threads.three : Threads (Fin 3) where
  id t := BitVec.ofNat 32 (t + 1)
  pid _ := 1
  id_ne := ids_ne_three
  pid_ne := by decide
  inj := by decide

/-- A run on a recursive mutex: a thread locks it twice and transfers it to another one
that sleeps on the word, while a third one gets `EPERM`. -/
theorem mutex_private_three : ∃ s : Global (Fin 3) (Mem (Fin 3)) (Pc (Fin 3)),
    (machine Threads.three ⟨.recursive, false⟩).Reach s ∧
    (s.mem.owners = {1} ∧ s.mem.levels = 2 ∧ s.loc 2 = .ret .eperm) ∧
    (∀ t u, t ∈ s.mem.owners → u ∈ s.mem.owners → t = u) ∧
    (∀ t, s.mem.ownerId = Threads.three.id t → t ∈ s.mem.owners) ∧
    (s.mem.lock.word = 0 ↔ s.mem.owners = ∅) ∧
    ∀ t c m pc, exec Threads.three ⟨.recursive, false⟩ t c s.mem (s.loc t) = some (m, pc) →
      Faithful ⟨.recursive, false⟩ t s.mem (s.loc t) m pc := by
  obtain ⟨s, hs, hp⟩ := (machine Threads.three ⟨.recursive, false⟩).exists_reach
    (s := ⟨⟨⟨0, ∅⟩, 0, 0, 0, ∅, 0⟩, fun _ => .idle⟩) ⟨rfl, fun _ => rfl⟩
    [(0, { call := .lock .lock }), (0, {}), (0, {}), (0, {}), (0, {}), (0, {}), (0, {}),
      (0, { call := .lock .trylock }), (0, {}), (0, {}), (0, {}), (0, {}), (0, {}),
      (1, { call := .lock .lock }), (1, {}), (1, {}), (1, {}), (1, {}),
      (0, { call := .transfer (some 1) }), (0, {}), (0, {}),
      (2, { call := .unlock }), (2, {})]
    (fun s => s.mem.owners = {1} ∧ s.mem.levels = 2 ∧ s.loc 2 = .ret .eperm) (by decide)
  exact ⟨s, hs, hp, mutex_private rfl (fun _ _ => rfl) hs⟩

end Hlpt.Mutex
