import Hlpt.Registry.Sound

/-!
# `Hlpt.Registry.Ids`: the ids of the threads

`thread_entry` takes the id of a thread from a counter that it masks. The ghost `serial`
is the number that the counter would have without the mask and the limit of the word: the
thread was the `serial`-th to start in its process, where the main thread is the first. The
invariant `Named` says that the id is this number modulo `2 ^ 29`.

* `thread_ids`: so running threads have different ids unless `2 ^ 29` threads have started
  between them, and only the id of every `2 ^ 29`-th thread is not known to differ from 0.
* `thread_ids_wrap`: a running thread with the id 0, and one with the id of the main thread.
-/

set_option autoImplicit false

namespace Hlpt.Registry

open Hlpt.Lib

universe u

variable {T : Type u} [DecidableEq T]
variable {s s' : State T} {t u c : T} {ch : Choice T} {p q : Pc T} {m : Mem T}

/-! ### The numbers behind the ids -/

/-- The id of the `n`-th thread that starts. -/
def idOf (n : ℕ) : BitVec 32 := BitVec.ofNat 32 n &&& PTHREAD_ID_MASK

theorem toNat_idOf (n : ℕ) : (idOf n).toNat = n % 2 ^ 29 := by
  have hmask : PTHREAD_ID_MASK.toNat = 2 ^ 29 - 1 := rfl
  rw [idOf, BitVec.toNat_and, BitVec.toNat_ofNat, hmask, Nat.and_two_pow_sub_one_eq_mod]
  omega

/-- The id in the descriptor of `t`, when there is one. -/
def named (m : Mem T) (t : T) : Option (BitVec 32) := (m.desc t).map Desc.id

/-- The thread is about to start: it has no id yet. -/
def Kind.Fresh (k : Kind T) : Prop := k.phase = .unborn ∨ k.phase = .alive ∧ k.running = false

/-- The counter counts the threads that started, and a running thread has the id that is due
to its number. -/
structure Named (s : State T) : Prop where
  counter : s.mem.idCounter = BitVec.ofNat 32 s.mem.starts
  bound : ∀ t, (kind s t).running = true → 1 ≤ s.mem.serial t ∧ s.mem.serial t ≤ s.mem.starts
  inj : ∀ t u, (kind s t).running = true → (kind s u).running = true →
    s.mem.serial t = s.mem.serial u → t = u
  running : ∀ t, (kind s t).running = true → named s.mem t = some (idOf (s.mem.serial t))
  fresh : ∀ t, (kind s t).Fresh → named s.mem t = some PTHREAD_INVALID_ID

section

variable (h : Named s)

include h

omit [DecidableEq T] in
/-- A step that starts no thread. -/
theorem Named.of_le (hcounter : s'.mem.idCounter = s.mem.idCounter)
    (hstarts : s'.mem.starts = s.mem.starts) (hserial : s'.mem.serial = s.mem.serial)
    (hrun : ∀ u, (kind s' u).running = true →
      (kind s u).running = true ∧ named s'.mem u = named s.mem u)
    (hfresh : ∀ u, (kind s' u).Fresh →
      (kind s u).Fresh ∧ named s'.mem u = named s.mem u ∨
        named s'.mem u = some PTHREAD_INVALID_ID) : Named s' where
  counter := by rw [hcounter, hstarts, h.counter]
  bound t ht := by
    rw [hserial, hstarts]
    exact h.bound t (hrun t ht).1
  inj t u ht hu heq := by
    rw [hserial] at heq
    exact h.inj t u (hrun t ht).1 (hrun u hu).1 heq
  running t ht := by
    rw [hserial, (hrun t ht).2]
    exact h.running t (hrun t ht).1
  fresh t ht := by
    rcases hfresh t ht with ⟨hold, heq⟩ | hnew
    · rw [heq]
      exact h.fresh t hold
    · exact hnew

/-- A step of `t` that keeps its id as long as it matters. -/
theorem Named.go (hcounter : m.idCounter = s.mem.idCounter) (hstarts : m.starts = s.mem.starts)
    (hserial : m.serial = s.mem.serial)
    (hrun : q.kind.running = true → (kind s t).running = true)
    (hfresh : q.kind.Fresh → (kind s t).Fresh)
    (hself : q.kind.running = true ∨ q.kind.Fresh → named m t = named s.mem t)
    (hother : ∀ u, u ≠ t → named m u = named s.mem u) : Named (go s t q m) := by
  refine h.of_le hcounter hstarts hserial (fun u hu => ?_) fun u hu => .inl ?_
  · rw [kind_go] at hu
    split at hu
    · rename_i hut
      subst hut
      exact ⟨hrun hu, hself (.inl hu)⟩
    · rename_i hut
      exact ⟨hu, hother u hut⟩
  · rw [kind_go] at hu
    split at hu
    · rename_i hut
      subst hut
      exact ⟨hfresh hu, hself (.inr hu)⟩
    · rename_i hut
      exact ⟨hu, hother u hut⟩

/-- The same, when it also moves the thread `c`, which does not run. -/
theorem Named.go₂ (hcounter : m.idCounter = s.mem.idCounter) (hstarts : m.starts = s.mem.starts)
    (hserial : m.serial = s.mem.serial) (hct : t ≠ c)
    (hrun : q.kind.running = true → (kind s t).running = true)
    (hfresh : q.kind.Fresh → (kind s t).Fresh) (hp : p.kind.running = false)
    (hp' : p.kind.Fresh → named m c = some PTHREAD_INVALID_ID)
    (hother : ∀ u, u ≠ c → named m u = named s.mem u) : Named (go₂ s t q c p m) := by
  refine h.of_le hcounter hstarts hserial (fun u hu => ?_) fun u hu => ?_
  · rw [kind_go₂] at hu
    split at hu
    · rename_i hut
      subst hut
      exact ⟨hrun hu, hother u hct⟩
    · split at hu
      · rw [hp] at hu
        cases hu
      · rename_i huc
        exact ⟨hu, hother u huc⟩
  · rw [kind_go₂] at hu
    split at hu
    · rename_i hut
      subst hut
      exact .inl ⟨hfresh hu, hother u hct⟩
    · split at hu
      · rename_i huc
        subst huc
        exact .inr (hp' hu)
      · rename_i huc
        exact .inl ⟨hu, hother u huc⟩

end

omit [DecidableEq T] in
/-- Links are no ids. -/
theorem SameButLinks.named {m m' : Mem T} (h : SameButLinks m m') (t : T) :
    named m' t = named m t := by
  have hid := congrArg (Option.map Prod.fst) (h.desc t)
  simp only [Option.map_map] at hid
  exact hid

theorem named_setId {id : BitVec 32} (hu : u ≠ t) : named (setId t id m) u = named m u := by
  simp only [named, setId, Function.update_of_ne hu]

theorem named_freeStack (hu : u ≠ t) : named (freeStack t m) u = named m u := by
  simp only [named, freeStack_desc hu]

theorem freeStack_counter : (freeStack t m).idCounter = m.idCounter ∧
    (freeStack t m).starts = m.starts ∧ (freeStack t m).serial = m.serial := by
  unfold freeStack
  split <;> exact ⟨rfl, rfl, rfl⟩

/-- The start of a thread. -/
theorem Named.register (h : Named s) (ht : s.loc t = .enter)
    (hm : Registry.register t s.mem = some m) : Named (Registry.go s t .entered m) := by
  obtain ⟨m₁, -, hsame, rfl⟩ := register_eq hm
  have hfresh : (kind s t).Fresh := by
    rw [kind, ht]
    exact .inr ⟨rfl, rfl⟩
  have hold : named m₁ t = some PTHREAD_INVALID_ID := (hsame.named t).trans (h.fresh t hfresh)
  have hcounter : s.mem.idCounter + 1 = BitVec.ofNat 32 (s.mem.starts + 1) := by
    rw [h.counter, BitVec.ofNat_add]
    rfl
  have hself : named (setId t (idOf (s.mem.starts + 1)) m₁) t =
      some (idOf (s.mem.starts + 1)) := by
    obtain ⟨d, hd, -⟩ := Option.map_eq_some_iff.mp hold
    simp only [named, setId, Function.update_self, hd, Option.map_some]
  rw [hcounter]
  change Named (Registry.go s t .entered
    { setId t (idOf (s.mem.starts + 1)) m₁ with
      idCounter := BitVec.ofNat 32 (s.mem.starts + 1)
      starts := s.mem.starts + 1
      serial := Function.update s.mem.serial t (s.mem.starts + 1) })
  have hserial : ∀ u, u ≠ t → Function.update s.mem.serial t (s.mem.starts + 1) u =
      s.mem.serial u := fun u hu => Function.update_of_ne hu _ _
  constructor
  · rfl
  · intro u hu
    show 1 ≤ Function.update s.mem.serial t (s.mem.starts + 1) u ∧
      Function.update s.mem.serial t (s.mem.starts + 1) u ≤ s.mem.starts + 1
    by_cases hut : u = t
    · rw [hut, Function.update_self]
      omega
    · rw [kind_go, if_neg hut] at hu
      rw [hserial u hut]
      have hbound := h.bound u hu
      omega
  · intro u v hu hv
    show Function.update s.mem.serial t (s.mem.starts + 1) u =
      Function.update s.mem.serial t (s.mem.starts + 1) v → u = v
    -- The number of the new thread is beyond all others.
    intro heq
    rw [kind_go] at hu hv
    by_cases hut : u = t <;> by_cases hvt : v = t
    · rw [hut, hvt]
    · rw [if_neg hvt] at hv
      rw [hut, Function.update_self, hserial v hvt] at heq
      have hle := h.bound v hv
      omega
    · rw [if_neg hut] at hu
      rw [hvt, Function.update_self, hserial u hut] at heq
      have hle := h.bound u hu
      omega
    · rw [if_neg hut] at hu
      rw [if_neg hvt] at hv
      rw [hserial u hut, hserial v hvt] at heq
      exact h.inj u v hu hv heq
  · intro u hu
    show named (setId t (idOf (s.mem.starts + 1)) m₁) u =
      some (idOf (Function.update s.mem.serial t (s.mem.starts + 1) u))
    by_cases hut : u = t
    · rw [hut, Function.update_self, hself]
    · rw [kind_go, if_neg hut] at hu
      rw [hserial u hut, named_setId hut, hsame.named u]
      exact h.running u hu
  · intro u hu
    show named (setId t (idOf (s.mem.starts + 1)) m₁) u = some PTHREAD_INVALID_ID
    rw [kind_go] at hu
    by_cases hut : u = t
    · rw [if_pos hut] at hu
      rcases hu with hu | ⟨-, hu⟩ <;> cases hu
    · rw [if_neg hut] at hu
      rw [named_setId hut, hsame.named u]
      exact h.fresh u hu

variable [Fintype T]

/-- The one thread of a child. -/
theorem Named.fork (h : Named s) {late : Bool} (ht : s.loc t = .fork late)
    (hq : q = .run late ∨ q = .crashed) : Named (alone t q (ptAtforkChild t s.mem).1) := by
  have hchild := ptAtforkChild_child t s.mem
  have hrun : (kind s t).running = true := by rw [kind, ht]; rfl
  -- Only the thread that called `fork` is left.
  have honly : ∀ u, (kind (alone t q (ptAtforkChild t s.mem).1) u).running = true → u = t := by
    intro u hu
    by_contra hut
    rw [kind_alone, if_neg hut] at hu
    cases hu
  have hserial : (ptAtforkChild t s.mem).1.serial t = 1 := by
    rw [hchild.serial, Function.update_self]
  constructor
  · show (ptAtforkChild t s.mem).1.idCounter = BitVec.ofNat 32 (ptAtforkChild t s.mem).1.starts
    rw [hchild.idCounter, hchild.starts]
    rfl
  · intro u hu
    show 1 ≤ (ptAtforkChild t s.mem).1.serial u ∧
      (ptAtforkChild t s.mem).1.serial u ≤ (ptAtforkChild t s.mem).1.starts
    rw [honly u hu, hserial, hchild.starts]
    exact ⟨le_rfl, le_rfl⟩
  · intro u v hu hv _
    rw [honly u hu, honly v hv]
  · intro u hu
    show named (ptAtforkChild t s.mem).1 u = some (idOf ((ptAtforkChild t s.mem).1.serial u))
    rw [honly u hu, hserial]
    obtain ⟨d, hd, -⟩ := Option.map_eq_some_iff.mp (h.running t hrun)
    have hid := hchild.id
    rw [hd] at hid
    exact hid
  · intro u hu
    exfalso
    rw [kind_alone] at hu
    split at hu
    · rcases hq with rfl | rfl
      · rcases hu with hu | ⟨-, hu⟩ <;> cases hu
      · rcases hu with hu | ⟨hu, -⟩ <;> cases hu
    · rcases hu with hu | ⟨hu, -⟩ <;> cases hu

/-- Every step keeps the ids. -/
theorem Named.step (h : Named s) (hb : Births s) (hstep : Step s t ch s') : Named s' := by
  cases hstep with
  | own q ht hq | lock q ht hfree hq | unlock q ht hheld hq =>
      have hrun : q.kind.running = (kind s t).running := by rw [hq]
      have hphase : q.kind.phase = (kind s t).phase := by rw [hq]
      refine h.go rfl rfl rfl (fun hr => hrun ▸ hr) (fun hf => ?_) (fun _ => rfl) fun _ _ => rfl
      unfold Kind.Fresh at hf ⊢
      rwa [hrun, hphase] at hf
  | create late c usrStack ht hc =>
      have hkt := congrArg Pc.kind ht
      refine h.go₂ rfl rfl rfl (ne_of_create ht hc) (fun _ => by rw [kind, hkt]; rfl) ?_ rfl
        (fun _ => ?_) fun u hu => ?_
      · rintro (hf | ⟨-, hf⟩) <;> cases hf
      · simp [named, ptAllocate]
      · simp only [named, ptAllocate, Function.update_of_ne hu]
  | drop q c ht hc hq =>
      obtain ⟨-, hct⟩ := hb.child hc
      have hrun : q.kind.running = (kind s t).running := by rw [hq]
      have hphase : q.kind.phase = (kind s t).phase := by rw [hq]
      refine h.go₂ freeStack_counter.1 freeStack_counter.2.1 freeStack_counter.2.2 hct
        (fun hr => hrun ▸ hr) (fun hf => ?_) rfl (fun hf => ?_) fun u hu => named_freeStack hu
      · unfold Kind.Fresh at hf ⊢
        rwa [hrun, hphase] at hf
      · rcases hf with hf | ⟨hf, -⟩ <;> cases hf
  | resume late c ht =>
      have hkt := congrArg Pc.kind ht
      obtain ⟨hborn, hct⟩ := hb.child (t := t) (c := c) (by rw [kind, ht]; rfl)
      refine h.go₂ rfl rfl rfl hct (fun _ => by rw [kind, hkt]; rfl) ?_ rfl (fun _ => ?_)
        fun _ _ => rfl
      · rintro (hf | ⟨-, hf⟩) <;> cases hf
      · exact h.fresh c (.inl (by rw [kind, hborn]; rfl))
  | count late c ht | undo late ht =>
      refine h.go rfl rfl rfl (fun _ => by rw [kind, ht]; rfl) ?_ (fun _ => rfl) fun _ _ => rfl
      rintro (hf | ⟨-, hf⟩) <;> cases hf
  | register m ht hm => exact h.register ht hm
  | unregister m ht hm =>
      have hsame := hurdListDel_same hm
      refine h.go hsame.idCounter hsame.starts hsame.serial (fun _ => by rw [kind, ht]; rfl) ?_
        (fun _ => hsame.named t) fun u _ => hsame.named u
      rintro (hf | ⟨-, hf⟩) <;> cases hf
  | fault ht =>
      refine h.go rfl rfl rfl (fun hr => ?_) ?_ (fun _ => rfl) fun _ _ => rfl
      · cases hr
      · rintro (hf | ⟨hf, -⟩) <;> cases hf
  | decrement ht =>
      refine h.go rfl rfl rfl (fun _ => by rw [kind, ht]; rfl) ?_ (fun _ => rfl) fun _ _ => rfl
      split <;> rintro (hf | ⟨hf, -⟩) <;> cases hf
  | terminate ht =>
      refine h.go rfl rfl rfl (fun hr => ?_) ?_ ?_ fun u hu => named_setId hu
      · cases hr
      · rintro (hf | ⟨hf, -⟩) <;> cases hf
      · rintro (hf | hf | ⟨hf, -⟩) <;> cases hf
  | reap ht =>
      refine h.go freeStack_counter.1 freeStack_counter.2.1 freeStack_counter.2.2 (fun hr => ?_)
        ?_ ?_ fun u hu => named_freeStack hu
      · cases hr
      · rintro (hf | ⟨hf, -⟩) <;> cases hf
      · rintro (hf | hf | ⟨hf, -⟩) <;> cases hf
  | fork late ht hch =>
      refine h.fork ht ?_
      split
      · exact .inl rfl
      · exact .inr rfl

omit [Fintype T] in
/-- The main thread is the first one to start. -/
theorem named_init {main : T} (h : pthreadInitialize main = some s) : Named s := by
  obtain ⟨m, hm, rfl⟩ := Option.map_eq_some_iff.mp h
  have hsame : SameButLinks (hurdListInit (startMem main)) m := hurdListAddTail_same hm
  have honly : ∀ u, (kind (alone main (.run false) (setId main 1 m)) u).running = true →
      u = main := by
    intro u hu
    by_contra hum
    rw [kind_alone, if_neg hum] at hu
    cases hu
  have hserial : m.serial main = 1 := by
    rw [hsame.serial]
    rfl
  constructor
  · show m.idCounter = BitVec.ofNat 32 m.starts
    rw [hsame.idCounter, hsame.starts]
    rfl
  · intro u hu
    show 1 ≤ m.serial u ∧ m.serial u ≤ m.starts
    rw [honly u hu, hserial, hsame.starts]
    exact ⟨le_rfl, le_rfl⟩
  · intro u v hu hv _
    rw [honly u hu, honly v hv]
  · intro u hu
    show named (setId main 1 m) u = some (idOf (m.serial u))
    rw [honly u hu, hserial]
    have hdesc : (m.desc main).isSome := by
      rw [hsame.isSome]
      simp [hurdListInit, startMem]
    obtain ⟨d, hd⟩ := Option.isSome_iff_exists.mp hdesc
    simp only [named, setId, Function.update_self, hd, Option.map_some]
    decide
  · intro u hu
    exfalso
    rw [kind_alone] at hu
    split at hu
    · rcases hu with hu | ⟨-, hu⟩ <;> cases hu
    · rcases hu with hu | ⟨hu, -⟩ <;> cases hu

/-- The ids in every state that is reached. -/
theorem named_of_reach (h : machine.Reach s) : Births s ∧ Named s := by
  refine h.invariant (P := fun s => Births s ∧ Named s) (fun s hs => ?_)
    fun s a s' hs _ hstep => ?_
  · obtain ⟨main, hmain⟩ := hs
    obtain ⟨m, -, rfl⟩ := Option.map_eq_some_iff.mp hmain
    exact ⟨.alone (by simp) rfl, named_init hmain⟩
  · have hcases := step_cases hstep
    exact ⟨hs.1.step hcases, hs.2.step hs.1 hcases⟩

/-- The ids of a running thread `t` and of the others, in every state that a process can
reach. The number of the start of `t` is its own. Its id is not 0 unless `2 ^ 29` divides
this number. It is not the id of a thread that has not registered yet, and the id of another
running thread exactly when their numbers differ by a multiple of `2 ^ 29`. -/
theorem thread_ids (h : machine.Reach s) (ht : (kind s t).running = true) :
    (1 ≤ s.mem.serial t ∧ s.mem.serial t ≤ s.mem.starts) ∧
    (¬ 2 ^ 29 ∣ s.mem.serial t → s.mem.id t ≠ 0) ∧
    ∀ u, u ≠ t →
      ((kind s u).running = true → s.mem.serial u ≠ s.mem.serial t ∧
        (s.mem.id u = s.mem.id t ↔ s.mem.serial u % 2 ^ 29 = s.mem.serial t % 2 ^ 29)) ∧
      ((kind s u).Fresh → s.mem.id u ≠ s.mem.id t) := by
  obtain ⟨-, hs⟩ := named_of_reach h
  have hid : ∀ u, (kind s u).running = true → s.mem.id u = idOf (s.mem.serial u) :=
    fun u hu => congrArg (fun o => o.getD 0) (hs.running u hu)
  refine ⟨hs.bound t ht, fun hdvd hzero => ?_, fun u hut => ⟨fun hu => ⟨fun heq => ?_, ?_⟩,
    fun hu heq => ?_⟩⟩
  · rw [hid t ht, ← BitVec.toNat_inj, toNat_idOf] at hzero
    exact hdvd (Nat.dvd_of_mod_eq_zero hzero)
  · exact hut (hs.inj u t hu ht heq)
  · rw [hid t ht, hid u hu, ← BitVec.toNat_inj, toNat_idOf, toNat_idOf]
  · have hinvalid : s.mem.id u = PTHREAD_INVALID_ID :=
      congrArg (fun o => o.getD 0) (hs.fresh u hu)
    have hnat := congrArg BitVec.toNat heq
    rw [hinvalid, hid t ht, toNat_idOf] at hnat
    have hlt := Nat.mod_lt (s.mem.serial t) (Nat.two_pow_pos 29)
    rw [← hnat] at hlt
    exact absurd hlt (by decide)

/-- The first thread that the main thread creates. -/
theorem thread_ids_two : ∃ s, (machine (T := Fin 2)).Reach s ∧ (kind s 1).running = true ∧
    s.mem.id 1 ≠ 0 ∧ s.mem.id 0 ≠ s.mem.id 1 := by
  obtain ⟨s, hs, hrun, hrun₀, hserial, hserial₀⟩ := (machine (T := Fin 2)).exists_reach
    startTwo_init (startThread false)
    (fun s => (kind s 1).running = true ∧ (kind s 0).running = true ∧ s.mem.serial 1 = 2 ∧
      s.mem.serial 0 = 1) (by decide +kernel)
  obtain ⟨-, hzero, hother⟩ := thread_ids hs hrun
  refine ⟨s, hs, hrun, hzero (by rw [hserial]; decide), fun heq => ?_⟩
  have hmod := ((hother 0 (by decide)).1 hrun₀).2.mp heq
  rw [hserial, hserial₀] at hmod
  exact absurd hmod (by decide)

/-! ### Long histories -/

/-- The main thread alone, after `n` starts. -/
def solo (n k : ℕ) : State (Fin 2) :=
  alone 0 (.run false)
    { runningThreads := ⟨some (.link 0), some (.link 0)⟩
      desc := Function.update (fun _ => none) 0 (some ⟨⟨some .head, some .head⟩, 1, true⟩)
      lock := none
      idCounter := BitVec.ofNat 32 n
      total := 1
      starts := n
      serial := fun u => if u = 0 then 1 else k }

/-- What such a state is like at each of the two descriptors. -/
theorem eq_solo {s : State (Fin 2)} {n k : ℕ} (hloc : s.loc 0 = .run false ∧ s.loc 1 = .absent)
    (hhead : s.mem.runningThreads = ⟨some (.link 0), some (.link 0)⟩)
    (hdesc : s.mem.desc 0 = some ⟨⟨some .head, some .head⟩, 1, true⟩ ∧ s.mem.desc 1 = none)
    (hlock : s.mem.lock = none) (hcounter : s.mem.idCounter = BitVec.ofNat 32 n)
    (htotal : s.mem.total = 1) (hstarts : s.mem.starts = n)
    (hserial : s.mem.serial 0 = 1 ∧ s.mem.serial 1 = k) : s = solo n k := by
  obtain ⟨⟨head, desc, lock, counter, total, starts, serial⟩, loc⟩ := s
  obtain rfl : loc = fun u => if u = 0 then .run false else .absent :=
    funext (Fin.forall_fin_two.mpr hloc)
  obtain rfl : desc =
      Function.update (fun _ => none) 0 (some ⟨⟨some .head, some .head⟩, 1, true⟩) :=
    funext (Fin.forall_fin_two.mpr hdesc)
  obtain rfl : serial = fun u => if u = 0 then 1 else k := funext (Fin.forall_fin_two.mpr hserial)
  dsimp only at hhead hlock hcounter htotal hstarts
  rw [hhead, hlock, hcounter, htotal, hstarts]
  rfl

/-- One more thread starts and ends, and its descriptor is freed. -/
theorem solo_step (n k : ℕ) : (machine (T := Fin 2)).run (solo n k)
    (startThread false ++ endThread 1 ++ [(1, .go), (1, .go)]) = some (solo (n + 1) (n + 1)) := by
  have hrun : ∃ s', (machine (T := Fin 2)).run (solo n k)
      (startThread false ++ endThread 1 ++ [(1, .go), (1, .go)]) = some s' ∧
        s' = solo (n + 1) (n + 1) := by
    refine ⟨_, rfl, eq_solo ⟨rfl, rfl⟩ rfl ⟨rfl, rfl⟩ rfl ?_ ?_ rfl ⟨rfl, rfl⟩⟩
    · exact (BitVec.ofNat_add n 1).symm
    · show (1 + 1 - 1 : BitVec 32) = 1
      decide
  obtain ⟨s', hs', rfl⟩ := hrun
  exact hs'

/-- Every number of starts is reached. -/
theorem solo_reach (n : ℕ) : ∃ k, (machine (T := Fin 2)).Reach (solo (n + 1) k) := by
  induction n with
  | zero =>
      refine ⟨1, ?_⟩
      have hstart : startTwo = solo 1 1 :=
        eq_solo ⟨rfl, rfl⟩ rfl ⟨rfl, rfl⟩ rfl rfl rfl rfl ⟨rfl, rfl⟩
      rw [← hstart]
      exact .init startTwo_init
  | succ n ih =>
      obtain ⟨k, hk⟩ := ih
      exact ⟨_, hk.runVia (solo_step (n + 1) k)⟩

/-- The thread that starts next. -/
theorem solo_start (n k : ℕ) : ∃ s', (machine (T := Fin 2)).run (solo n k) (startThread false) =
    some s' ∧ (∀ t, (kind s' t).registered = true ∧ (kind s' t).running = true) ∧
      s'.mem.id 0 = 1 ∧ s'.mem.id 1 = (BitVec.ofNat 32 n + 1) &&& PTHREAD_ID_MASK :=
  ⟨_, rfl, Fin.forall_fin_two.mpr ⟨⟨rfl, rfl⟩, rfl, rfl⟩, rfl, rfl⟩

/-- A process that goes on long enough has a registered thread with the id 0, and one with
the id of the main thread. -/
theorem thread_ids_wrap :
    (∃ s, (machine (T := Fin 2)).Reach s ∧ (kind s 1).registered = true ∧ s.mem.id 1 = 0) ∧
    ∃ s, (machine (T := Fin 2)).Reach s ∧ (kind s 0).registered = true ∧
      (kind s 1).registered = true ∧ s.mem.id 1 = s.mem.id 0 := by
  constructor
  · obtain ⟨k, hk⟩ := solo_reach (2 ^ 29 - 2)
    obtain ⟨s, hs, hreg, -, hid⟩ := solo_start (2 ^ 29 - 2 + 1) k
    refine ⟨s, hk.runVia hs, (hreg 1).1, ?_⟩
    rw [hid]
    decide
  · obtain ⟨k, hk⟩ := solo_reach (2 ^ 29 - 1)
    obtain ⟨s, hs, hreg, hmain, hid⟩ := solo_start (2 ^ 29 - 1 + 1) k
    refine ⟨s, hk.runVia hs, (hreg 0).1, (hreg 1).1, ?_⟩
    rw [hid, hmain]
    decide

end Hlpt.Registry
