import Hlpt.Lib.Counter
import Hlpt.NamedSem.Model

/-!
# `Hlpt.NamedSem.Follows`: whether a semaphore follows its name

`add_mapping` compares as many characters as the new name has. So it finds a semaphore whose
name only begins with the new one, and one of a file that was unlinked since. In both cases
`sem_open` returns a mapping of another file than the one that is linked under the name.

* `sem_open_follows`: a successful `sem_open` returns a mapping of the file that is linked
  under its name, if and only if the first semaphore whose name begins with it, if there is
  one, is a mapping of that file. In a run in which every successful `sem_open` finds it so,
  and the reference counts do not wrap, two open handles are equal only if they were opened
  under one name for one file.
* `sem_open_prefix` and `sem_open_stale`: two runs in which it is another file.
-/

set_option autoImplicit false

namespace Hlpt.NamedSem

open Hlpt.Lib

variable {s s' : State} {n : Name} {a : Addr} {r : Except Errno Addr}

/-- The semaphore is a mapping of the file that is linked under the name. -/
def Maps (s : State) (n : Name) (a : Addr) : Prop := ∃ f, s.dir n = some f ∧ s.maps a = some f

/-- The first semaphore in the list whose name begins with `n`, if there is one, is a mapping
of the file that is linked under `n`. -/
def Fits (s : State) (n : Name) : Prop :=
  ∀ sp ∈ s.mappedSems.find? (·.matchesName n), Maps s n sp.semp

/-- How many handles are open on the semaphore. -/
def handles (o : List Handle) (a : Addr) : ℕ := o.countP (·.semp = a)

/-- Where one reference is left of the semaphore at `a`, no more than one handle is. It is the
case as long as the counter has not wrapped. -/
def LastIsLast (s : State) (a : Addr) : Prop :=
  ∀ sp ∈ s.mappedSems, sp.semp = a → sp.refcount - 1 = 0 → handles s.opened a ≤ 1

/-- The call returned a semaphore. -/
def succeeds : Option (Except Errno Addr × State) → Bool
  | some (.ok _, _) => true
  | _ => false

/-- A `sem_open` that succeeds finds its own file or none. A `sem_close` takes the last
reference only from the last handle. -/
def GoesWell (s : State) : Call → Prop
  | .open name oflag value os =>
      succeeds (semOpen name oflag value os s) = true → Fits s name.tail
  | .close semp => LastIsLast s semp
  | .unlink .. => True

/-- A handle is a mapping of the file that was linked under its name when `sem_open`
returned. -/
def Handle.Follows (s : State) (h : Handle) : Prop := ∃ f, h.file = some f ∧ s.maps h.semp = some f

/-! ### The list of semaphores -/

/-- `add_mapping` finds the first semaphore whose name begins with the new one. -/
theorem findMapping_fst {l : List SharedSem} :
    (findMapping n l).map Prod.fst = l.find? (·.matchesName n) := by
  induction l with
  | nil => rfl
  | cons sp l ih =>
      rw [findMapping, List.find?_cons]
      cases sp.matchesName n with
      | true => rfl
      | false =>
          show Option.map _ (Option.map _ _) = _
          rw [Option.map_map, ← ih]
          rfl

/-- The list with one more reference to a semaphore in it. -/
theorem findMapping_split {l l' : List SharedSem} {sp : SharedSem}
    (h : findMapping n l = some (sp, l')) :
    ∃ l₁ l₂, l = l₁ ++ sp :: l₂ ∧
      l' = l₁ ++ { sp with refcount := sp.refcount + 1 } :: l₂ := by
  induction l generalizing l' with
  | nil => cases h
  | cons sp' l ih =>
      rw [findMapping] at h
      split at h
      · cases h
        exact ⟨[], l, rfl, rfl⟩
      · obtain ⟨⟨sp₁, l₁⟩, hl, hr⟩ := Option.map_eq_some_iff.mp h
        cases hr
        obtain ⟨l₂, l₃, rfl, hl₁⟩ := ih hl
        exact ⟨sp' :: l₂, l₃, rfl, congrArg (sp' :: ·) hl₁⟩

/-- `sem_close` finds the semaphore and takes one reference, or the semaphore if that was the
last one. -/
theorem dropMapping_split {l l' : List SharedSem} {b : Bool} (h : dropMapping a l = some (b, l')) :
    ∃ sp l₁ l₂, l = l₁ ++ sp :: l₂ ∧ sp.semp = a ∧
      (b = true ∧ sp.refcount - 1 = 0 ∧ l' = l₁ ++ l₂ ∨
        b = false ∧ sp.refcount - 1 ≠ 0 ∧
          l' = l₁ ++ { sp with refcount := sp.refcount - 1 } :: l₂) := by
  induction l generalizing l' with
  | nil => cases h
  | cons sp l ih =>
      rw [dropMapping] at h
      split at h
      · rename_i hsemp
        split at h
        · rename_i hlast
          cases h
          exact ⟨sp, [], l, rfl, hsemp, .inl ⟨rfl, hlast, rfl⟩⟩
        · rename_i hlast
          cases h
          exact ⟨sp, [], l, rfl, hsemp, .inr ⟨rfl, hlast, rfl⟩⟩
      · obtain ⟨⟨b₁, l₁⟩, hl, hr⟩ := Option.map_eq_some_iff.mp h
        cases hr
        obtain ⟨sp', l₂, l₃, rfl, hsemp, hcase⟩ := ih hl
        refine ⟨sp', sp :: l₂, l₃, rfl, hsemp, ?_⟩
        rcases hcase with ⟨hb, hlast, rfl⟩ | ⟨hb, hlast, rfl⟩
        · exact .inl ⟨hb, hlast, rfl⟩
        · exact .inr ⟨hb, hlast, rfl⟩

/-- The name of a semaphore begins with the name that `add_mapping` looks for. -/
theorem matchesName_iff {sp : SharedSem} {name : Name} (hname : sp.name = name ++ ['\x00'])
    (hn : '\x00' ∉ n) : sp.matchesName n = true ↔ n <+: name := by
  have hcmp : sp.matchesName n = true ↔ n <+: name ++ ['\x00'] := by
    rw [SharedSem.matchesName, memcmpEq, hname, List.take_length, beq_iff_eq,
      List.prefix_iff_eq_take, eq_comm]
  rw [hcmp, List.prefix_concat_iff]
  constructor
  · rintro (rfl | h)
    · exact absurd (List.mem_append_right name List.mem_cons_self) hn
    · exact h
  · exact .inr

/-! ### What a call does -/

/-- The semaphores of the list are mapped. -/
def Live (s : State) : Prop := ∀ a ∈ s.mappedSems.map SharedSem.semp, s.maps a ≠ none

/-- What `sem_open` does. It fails, and then a file may be left in the directory; or it finds
a semaphore, for a file that was there or for a new one; or it maps the one or the other and
adds a semaphore. -/
inductive Effect (s : State) (n : Name) : Except Errno Addr → State → Prop
  | failed {e : Errno} {k : ℕ} (hk : s.files ≤ k) : Effect s n (.error e) { s with files := k }
  | left {e : Errno} {f : File} (hnone : s.dir n = none) (hf : s.files ≤ f) :
      Effect s n (.error e)
        { s with
          files := f + 1
          dir := Function.update s.dir n (some f)
          linkedAs := Function.update s.linkedAs f n }
  | found {f : File} {sp : SharedSem} {l : List SharedSem} (hdir : s.dir n = some f)
      (hfind : findMapping n s.mappedSems = some (sp, l)) :
      Effect s n (.ok sp.semp) { s with mappedSems := l }
  | foundNew {f : File} {sp : SharedSem} {l : List SharedSem} (hnone : s.dir n = none)
      (hf : s.files ≤ f) (hfind : findMapping n s.mappedSems = some (sp, l)) :
      Effect s n (.ok sp.semp)
        { s with
          files := f + 1
          dir := Function.update s.dir n (some f)
          linkedAs := Function.update s.linkedAs f n
          mappedSems := l }
  | mapped {f : File} {a : Addr} (hdir : s.dir n = some f)
      (hfind : findMapping n s.mappedSems = none) (ha : s.maps a = none) :
      Effect s n (.ok a)
        { s with
          maps := Function.update s.maps a (some f)
          mappedSems := s.mappedSems ++ [⟨a, 1, n ++ ['\x00']⟩] }
  | mappedNew {f : File} {a : Addr} (hnone : s.dir n = none) (hf : s.files ≤ f)
      (hfind : findMapping n s.mappedSems = none) (ha : s.maps a = none) :
      Effect s n (.ok a)
        { s with
          files := f + 1
          dir := Function.update s.dir n (some f)
          linkedAs := Function.update s.linkedAs f n
          maps := Function.update s.maps a (some f)
          mappedSems := s.mappedSems ++ [⟨a, 1, n ++ ['\x00']⟩] }

/-- A mapping that is made and goes again leaves the address space as it was. -/
theorem update_back {f : File} (ha : s.maps a = none) :
    Function.update (Function.update s.maps a (some f)) a none = s.maps := by
  rw [Function.update_idem, ← ha, Function.update_eq_self]

/-- The end of `add_mapping` when the caller provided no mapping. -/
theorem State.done_failed (s : State) (ret : Addr) : s.done ret SEM_FAILED = s :=
  if_neg fun h => h.2 rfl

/-- The end of `add_mapping` when it returns something else than the mapping of the caller. -/
theorem State.done_of_ne {ret : Addr} (h : ret ≠ a) (ha : a ≠ SEM_FAILED) :
    s.done ret a = s.vmDeallocate a :=
  if_pos ⟨h, ha⟩

/-- `map_file` finds a free address. -/
theorem State.mapFile_eq_some {o : Outcome} {f : File} (h : s.mapFile o f = some (a, s')) :
    a ≠ SEM_FAILED ∧ s.maps a = none ∧
      s' = { s with maps := Function.update s.maps a (some f) } := by
  obtain ⟨⟨hne, hfree⟩, h⟩ := Option.ite_none_right_eq_some.mp h
  cases h
  exact ⟨hne, hfree, rfl⟩

/-- `create_anon_file` makes the next file, if any. -/
theorem State.createAnonFile_eq {o : Outcome} {f : Option File}
    (h : s.createAnonFile o = (f, s')) :
    (∃ k, s.files ≤ k ∧ s' = { s with files := k }) ∧
      ∀ k, f = some k → k = s.files ∧ s' = { s with files := k + 1 } := by
  unfold State.createAnonFile at h
  split at h <;> cases h
  · refine ⟨⟨_, Nat.le_succ _, rfl⟩, fun k hk => ?_⟩
    split at hk
    · cases hk
      exact ⟨rfl, rfl⟩
    · cases hk
  · exact ⟨⟨_, le_refl _, rfl⟩, nofun⟩

/-- `file_name_lookup` finds the file that is linked under the name. -/
theorem State.fileNameLookup_eq_ok {o : Outcome} {f : File}
    (h : s.fileNameLookup o n = .ok f) : s.dir n = some f := by
  unfold State.fileNameLookup at h
  split at h
  · split at h
    · cases h
    · rename_i hdir
      exact hdir.trans (congrArg some (Except.ok.inj h))
  · cases h

/-- It fails with `ENOENT` if there is none. -/
theorem State.fileNameLookup_eq_enoent {o : Outcome}
    (h : s.fileNameLookup o n = .error .enoent) : s.dir n = none := by
  unfold State.fileNameLookup at h
  split at h
  · split at h
    · assumption
    · cases h
  · cases h

/-- `link_file` fails with `EEXIST` only if there is a file. -/
theorem State.linkFile_eq_error {o : Outcome} {f : File} {e : Errno}
    (h : s.linkFile o f n = .error e) (he : e = .eexist) : s.dir n ≠ none := by
  unfold State.linkFile at h
  split at h
  · split at h
    · rename_i hdir
      rw [hdir]
      exact nofun
    · cases h
  · subst he
    cases h

/-- `link_file` links the file if there is none. -/
theorem State.linkFile_eq_ok {o : Outcome} {f : File} (h : s.linkFile o f n = .ok s') :
    s.dir n = none ∧ s' = { s with
      dir := Function.update s.dir n (some f)
      linkedAs := Function.update s.linkedAs f n } := by
  unfold State.linkFile at h
  split at h
  · split at h
    · cases h
    · rename_i hdir
      exact ⟨hdir, (Except.ok.inj h).symm⟩
  · cases h

/-- `sem_open` with a file that is linked under the name. -/
theorem effect_of_open {f : File} {o : Outcome} (hdir : s.dir n = some f)
    (h : addMapping n f SEM_FAILED o s = (r, s')) : Effect s n r s' := by
  unfold addMapping at h
  split at h
  · rename_i sp l hfind
    rw [State.done_failed] at h
    cases h
    exact .found hdir hfind
  · rename_i hfind
    split at h
    · rw [if_pos rfl] at h
      split at h
      · cases h
        exact .failed (le_refl _)
      · rename_i a s₁ hmap
        obtain ⟨-, hfree, rfl⟩ := State.mapFile_eq_some hmap
        cases h
        exact .mapped hdir hfind hfree
    · rw [State.done_failed] at h
      cases h
      exact .failed (le_refl _)

/-- `sem_open` with a new file, which it has mapped and linked. -/
theorem effect_of_create {f : File} {o : Outcome} (hlive : Live s) (hnone : s.dir n = none)
    (hf : s.files ≤ f) (ha : s.maps a = none) (hne : a ≠ SEM_FAILED)
    (h : addMapping n f a o { s with
      files := f + 1
      dir := Function.update s.dir n (some f)
      linkedAs := Function.update s.linkedAs f n
      maps := Function.update s.maps a (some f) } = (r, s')) : Effect s n r s' := by
  unfold addMapping at h
  split at h
  · rename_i sp l hfind
    obtain ⟨l₁, l₂, hl, -⟩ := findMapping_split hfind
    have hmem : sp ∈ s.mappedSems := by
      rw [show s.mappedSems = _ from hl]
      exact List.mem_append_right l₁ List.mem_cons_self
    have hother : sp.semp ≠ a := by
      intro he
      exact hlive a (he ▸ List.mem_map_of_mem hmem) ha
    rw [State.done_of_ne hother hne] at h
    cases h
    rw [State.vmDeallocate, update_back ha]
    exact .foundNew hnone hf hfind
  · rename_i hfind
    split at h
    · cases h
      exact .mappedNew hnone hf hfind ha
    · rw [State.done_of_ne hne.symm hne] at h
      cases h
      rw [State.vmDeallocate, update_back ha]
      exact .left hnone hf

/-- `sem_open` from `try_create` on. There is no file under the name, or `O_EXCL` is given,
so it does not go back. -/
theorem effect_of_tryCreate {oflag : Oflag} {value : BitVec 32} {o : Outcome}
    {retry : State → Option (Except Errno Addr × State)} (hlive : Live s)
    (hcase : s.dir n = none ∨ oflag.excl = true)
    (h : tryCreate n oflag value o retry s = some (r, s')) : Effect s n r s' := by
  unfold tryCreate at h
  split at h
  · cases h
    exact .failed (le_refl _)
  split at h
  · rename_i s₁ hanon
    obtain ⟨k, hk, rfl⟩ := (State.createAnonFile_eq hanon).1
    cases h
    exact .failed hk
  rename_i f s₁ hanon
  obtain ⟨rfl, rfl⟩ := (State.createAnonFile_eq hanon).2 f rfl
  split at h
  · cases h
    exact .failed (Nat.le_succ _)
  rename_i a s₂ hmap
  obtain ⟨hne, hfree, rfl⟩ := State.mapFile_eq_some hmap
  split at h
  · rename_i e hlink
    have hstop : ¬ (oflag.excl = false ∧ e = .eexist) := by
      rintro ⟨hexcl, he⟩
      rcases hcase with hnone | htrue
      · exact State.linkFile_eq_error hlink he hnone
      · cases hexcl.symm.trans htrue
    rw [if_neg hstop] at h
    cases h
    rw [State.vmDeallocate, update_back hfree]
    exact .failed (Nat.le_succ _)
  · rename_i s₃ hlink
    obtain ⟨hnone, rfl⟩ := State.linkFile_eq_ok hlink
    exact effect_of_create hlive hnone (le_refl _) hfree hne (Option.some.inj h)

/-- What `sem_open` does. -/
theorem effect_of_semOpen {name : Name} {oflag : Oflag} {value : BitVec 32} {os : List Outcome}
    (hlive : Live s) (h : semOpen name oflag value os s = some (r, s')) :
    Effect s name.tail r s' := by
  unfold semOpen at h
  split at h
  · split at h
    · rename_i hexcl
      cases os with
      | nil => cases h
      | cons o os => exact effect_of_tryCreate hlive (.inr hexcl.2) h
    · cases os with
      | nil => cases h
      | cons o os =>
          rw [tryOpen] at h
          split at h
          · rename_i f hlookup
            exact effect_of_open (State.fileNameLookup_eq_ok hlookup) (Option.some.inj h)
          · rename_i e hlookup
            split at h
            · rename_i hcreat
              refine effect_of_tryCreate hlive (.inl ?_) h
              exact State.fileNameLookup_eq_enoent (hcreat.2 ▸ hlookup)
            · cases h
              exact .failed (le_refl _)
  · cases h
    exact .failed (le_refl _)

/-! ### One call -/

/-- In every reachable state files are numbered as they are created, and the semaphores of
the list are mapped, each at its own address. -/
structure Sound (s : State) : Prop where
  dir : ∀ n f, s.dir n = some f → f < s.files ∧ s.linkedAs f = n
  maps : ∀ a f, s.maps a = some f → f < s.files
  live : Live s
  apart : (s.mappedSems.map SharedSem.semp).Nodup

/-- A `sem_open` that succeeds returns a mapping of the file that is linked under its name,
if and only if it found none or one of that file. -/
theorem Effect.maps_iff (hs : Sound s) (h : Effect s n (.ok a) s') : Maps s' n a ↔ Fits s n := by
  have hfits : ∀ {sp : SharedSem} {l : List SharedSem},
      findMapping n s.mappedSems = some (sp, l) → (Fits s n ↔ Maps s n sp.semp) := by
    intro sp l hfind
    have hfirst : s.mappedSems.find? (·.matchesName n) = some sp := by
      rw [← findMapping_fst, hfind]
      rfl
    rw [Fits, hfirst]
    exact ⟨fun h => h sp rfl, fun h sp' hsp => Option.some.inj hsp ▸ h⟩
  have hnew : findMapping n s.mappedSems = none → Fits s n := by
    intro hfind sp hsp
    have hfirst : s.mappedSems.find? (·.matchesName n) = none := by
      rw [← findMapping_fst, hfind]
      rfl
    rw [hfirst] at hsp
    cases hsp
  cases h with
  | found hdir hfind => exact (hfits hfind).symm
  | @foundNew f sp l hnone hf hfind =>
      rw [hfits hfind]
      refine iff_of_false ?_ ?_
      · -- Nothing that is mapped is a mapping of a new file.
        rintro ⟨k, hdir, hmap⟩
        have hself : Function.update s.dir n (some f) n = some f := Function.update_self _ _ _
        obtain rfl := Option.some.inj (hself.symm.trans hdir)
        exact absurd (hs.maps _ _ hmap) (not_lt_of_ge hf)
      · rintro ⟨f, hdir, -⟩
        cases hnone.symm.trans hdir
  | mapped hdir hfind ha =>
      refine iff_of_true ⟨_, hdir, Function.update_self _ _ _⟩ (hnew hfind)
  | mappedNew hnone hf hfind ha =>
      exact iff_of_true ⟨_, Function.update_self _ _ _, Function.update_self _ _ _⟩ (hnew hfind)

/-- One more reference leaves the addresses. -/
theorem map_semp_of_findMapping {l l' : List SharedSem} {sp : SharedSem}
    (h : findMapping n l = some (sp, l')) :
    l'.map SharedSem.semp = l.map SharedSem.semp := by
  obtain ⟨l₁, l₂, rfl, rfl⟩ := findMapping_split h
  rw [List.map_append, List.map_append, List.map_cons, List.map_cons]

/-- A new file is linked. -/
theorem Sound.link {f k : File} {m : Name} (hs : Sound s) (hf : s.files ≤ f)
    (h : Function.update s.dir n (some f) m = some k) :
    k < f + 1 ∧ Function.update s.linkedAs f n k = m := by
  by_cases hm : m = n
  · subst hm
    rw [Function.update_self] at h
    cases h
    exact ⟨Nat.lt_succ_self _, Function.update_self _ _ _⟩
  · rw [Function.update_of_ne hm] at h
    obtain ⟨hlt, hname⟩ := hs.dir m k h
    have hkf : k < f := lt_of_lt_of_le hlt hf
    refine ⟨Nat.lt_succ_of_lt hkf, ?_⟩
    rw [Function.update_of_ne (ne_of_lt hkf), hname]

/-- A file is mapped at a free address, and the semaphore goes to the end of the list. -/
theorem Sound.insert {f : File} (hs : Sound s) (ha : s.maps a = none) :
    (∀ b ∈ (s.addTail n a).mappedSems.map SharedSem.semp,
      Function.update s.maps a (some f) b ≠ none) ∧
    ((s.addTail n a).mappedSems.map SharedSem.semp).Nodup := by
  have hnot : a ∉ s.mappedSems.map SharedSem.semp := fun h => hs.live a h ha
  rw [State.addTail, List.map_append, List.map_singleton]
  constructor
  · intro b hb
    by_cases hba : b = a
    · rw [hba, Function.update_self]
      exact nofun
    · rw [Function.update_of_ne hba]
      rcases List.mem_append.mp hb with hb | hb
      · exact hs.live b hb
      · exact absurd (List.mem_singleton.mp hb) hba
  · refine List.nodup_append.mpr ⟨hs.apart, List.nodup_singleton a, fun b hb c hc => ?_⟩
    rintro rfl
    have hba : b = a := List.mem_singleton.mp hc
    exact hnot (hba ▸ hb)

/-- What is mapped is a file that was created. -/
theorem Sound.maps_update {f k : File} {b : Addr} (hs : Sound s) {j : ℕ} (hf : f < j)
    (hj : s.files ≤ j) (h : Function.update s.maps a (some f) b = some k) : k < j := by
  by_cases hba : b = a
  · rw [hba, Function.update_self] at h
    exact Option.some.inj h ▸ hf
  · rw [Function.update_of_ne hba] at h
    exact lt_of_lt_of_le (hs.maps b k h) hj

/-- `sem_open` keeps the lists as they should be. -/
theorem Sound.open (hs : Sound s) (h : Effect s n r s') : Sound s' := by
  cases h with
  | failed hk =>
      refine ⟨fun m f hm => ?_, fun b f hb => ?_, hs.live, hs.apart⟩
      · exact ⟨lt_of_lt_of_le (hs.dir m f hm).1 hk, (hs.dir m f hm).2⟩
      · exact lt_of_lt_of_le (hs.maps b f hb) hk
  | left hnone hf =>
      refine ⟨fun m k hm => hs.link hf hm, fun b k hb => ?_, hs.live, hs.apart⟩
      exact Nat.lt_succ_of_lt (lt_of_lt_of_le (hs.maps b k hb) hf)
  | found hdir hfind =>
      have hsemp := map_semp_of_findMapping hfind
      refine ⟨hs.dir, hs.maps, ?_, ?_⟩
      · intro b hb
        exact hs.live b (hsemp ▸ hb)
      · exact hsemp ▸ hs.apart
  | foundNew hnone hf hfind =>
      have hsemp := map_semp_of_findMapping hfind
      refine ⟨fun m k hm => hs.link hf hm, fun b k hb => ?_, ?_, ?_⟩
      · exact Nat.lt_succ_of_lt (lt_of_lt_of_le (hs.maps b k hb) hf)
      · intro b hb
        exact hs.live b (hsemp ▸ hb)
      · exact hsemp ▸ hs.apart
  | mapped hdir hfind ha =>
      obtain ⟨hlive, hapart⟩ := hs.insert (n := n) ha
      refine ⟨hs.dir, fun b k hb => ?_, hlive, hapart⟩
      exact hs.maps_update (hs.dir n _ hdir).1 (le_refl _) hb
  | mappedNew hnone hf hfind ha =>
      obtain ⟨hlive, hapart⟩ := hs.insert (n := n) ha
      refine ⟨fun m k hm => hs.link hf hm, fun b k hb => ?_, hlive, hapart⟩
      exact hs.maps_update (Nat.lt_succ_self _) (Nat.le_succ_of_le hf) hb

/-- `sem_close` keeps them so. -/
theorem Sound.close (hs : Sound s) (a : Addr) : Sound (semClose a s).2 := by
  unfold semClose
  split
  · rename_i l hdrop
    obtain ⟨sp, l₁, l₂, hl, hsemp, hcase⟩ := dropMapping_split hdrop
    obtain ⟨-, -, rfl⟩ := hcase.resolve_right nofun
    have hnodup := hs.apart
    rw [hl, List.map_append, List.map_cons, List.nodup_middle, hsemp] at hnodup
    obtain ⟨hnot, hrest⟩ := List.nodup_cons.mp hnodup
    refine ⟨hs.dir, fun b f hb => ?_, fun b hb => ?_, ?_⟩
    · by_cases hba : b = a
      · have hgone : Function.update s.maps a none b = none := hba ▸ Function.update_self _ _ _
        cases hgone.symm.trans hb
      · exact hs.maps b f ((Function.update_of_ne hba _ _).symm.trans hb)
    · have hb : b ∈ (l₁ ++ l₂).map SharedSem.semp := hb
      rw [List.map_append] at hb
      have hba : b ≠ a := fun he => hnot (he ▸ hb)
      have hin : b ∈ s.mappedSems.map SharedSem.semp := by
        rw [hl, List.map_append, List.map_cons]
        rcases List.mem_append.mp hb with hb | hb
        · exact List.mem_append_left _ hb
        · exact List.mem_append_right _ (List.mem_cons_of_mem _ hb)
      show Function.update s.maps a none b ≠ none
      rw [Function.update_of_ne hba]
      exact hs.live b hin
    · show ((l₁ ++ l₂).map SharedSem.semp).Nodup
      rw [List.map_append]
      exact hrest
  · rename_i l hdrop
    obtain ⟨sp, l₁, l₂, hl, hsemp, hcase⟩ := dropMapping_split hdrop
    obtain ⟨-, -, rfl⟩ := hcase.resolve_left nofun
    have hmap : (l₁ ++ { sp with refcount := sp.refcount - 1 } :: l₂).map SharedSem.semp =
        s.mappedSems.map SharedSem.semp := by
      rw [hl, List.map_append, List.map_append, List.map_cons, List.map_cons]
    refine ⟨hs.dir, hs.maps, fun b hb => hs.live b (hmap ▸ hb), ?_⟩
    exact hmap ▸ hs.apart
  · exact hs

/-- `sem_unlink` keeps them so. -/
theorem Sound.unlink (hs : Sound s) (name : Name) (ok : Bool) : Sound (semUnlink name ok s).2 := by
  unfold semUnlink
  split
  · split
    · split
      · exact hs
      · refine ⟨fun m f hm => ?_, hs.maps, hs.live, hs.apart⟩
        by_cases hmn : m = name.tail
        · have hgone : Function.update s.dir name.tail none m = none :=
            hmn ▸ Function.update_self _ _ _
          cases hgone.symm.trans hm
        · exact hs.dir m f ((Function.update_of_ne hmn _ _).symm.trans hm)
    · exact hs
  · exact hs

/-- The open handles play no part. -/
theorem Sound.handles {o : List Handle} (hs : Sound s) : Sound { s with opened := o } :=
  ⟨hs.dir, hs.maps, hs.live, hs.apart⟩

/-- In every reachable state the lists are as they should be. -/
theorem sound_of_reach {ok : State → Call → Prop} (h : machine.ReachVia ok s) : Sound s := by
  refine h.invariant (fun s hs => ?_) fun s call s' hs _ hstep => ?_
  · obtain ⟨hdir, hmaps, hsems, -⟩ := hs
    constructor
    · exact hdir
    · intro a f ha
      cases (hmaps a).symm.trans ha
    · simp [Live, hsems]
    · simp [hsems]
  · cases call with
    | «open» name oflag value os =>
        obtain ⟨⟨r, s₁⟩, hopen, rfl⟩ := Option.map_eq_some_iff.mp hstep
        have hsound := hs.open (effect_of_semOpen hs.live hopen)
        cases r with
        | ok a => exact hsound.handles
        | error e => exact hsound
    | close a =>
        cases hstep
        have hsound := hs.close a
        cases hr : (semClose a s).1 with
        | ok => exact hsound.handles
        | error e => exact hsound
    | unlink name ok =>
        cases hstep
        exact hs.unlink name ok

/-! ### The open handles -/

/-- Every handle is a mapping of the file that was linked under its name when it was opened.
It is in the list, and the reference counts count the handles. -/
structure Accounted (s : State) : Prop where
  follows : ∀ h ∈ s.opened, ∃ f, h.file = some f ∧ s.maps h.semp = some f ∧ s.linkedAs f = h.name
  held : ∀ h ∈ s.opened, h.semp ∈ s.mappedSems.map SharedSem.semp
  count : ∀ sp ∈ s.mappedSems, sp.refcount = BitVec.ofNat 32 (handles s.opened sp.semp) ∧
    0 < handles s.opened sp.semp

/-- A new handle counts for its own semaphore. -/
theorem handles_cons {h : Handle} {o : List Handle} :
    handles (h :: o) a = handles o a + if h.semp = a then 1 else 0 := by
  simp only [handles, List.countP_cons, decide_eq_true_eq]

/-- A semaphore that nobody has open has no handles. -/
theorem Accounted.handles_eq_zero (hs : Accounted s) (ha : a ∉ s.mappedSems.map SharedSem.semp) :
    handles s.opened a = 0 := by
  rw [handles, List.countP_eq_zero]
  intro h hh he
  exact ha (of_decide_eq_true he ▸ hs.held h hh)

/-- The other semaphores of the list are at other addresses. -/
theorem Sound.other {sp sp' : SharedSem} {l₁ l₂ : List SharedSem} (hs : Sound s)
    (hl : s.mappedSems = l₁ ++ sp :: l₂) (h : sp' ∈ l₁ ++ l₂) :
    sp' ∈ s.mappedSems ∧ sp'.semp ≠ sp.semp := by
  have hnodup := hs.apart
  rw [hl, List.map_append, List.map_cons, List.nodup_middle, ← List.map_append] at hnodup
  refine ⟨?_, fun he => (List.nodup_cons.mp hnodup).1 (he ▸ List.mem_map_of_mem h)⟩
  rw [hl]
  exact List.perm_middle.mem_iff.mpr (List.mem_cons_of_mem _ h)

/-- `sem_open` of a semaphore that is in the list. -/
theorem Accounted.found {f : File} {sp : SharedSem} {l : List SharedSem} (hs : Accounted s)
    (hsound : Sound s) (hfind : findMapping n s.mappedSems = some (sp, l))
    (hdir : s.dir n = some f) (hmaps : s.maps sp.semp = some f) :
    Accounted { s with mappedSems := l, opened := ⟨sp.semp, n, s.dir n⟩ :: s.opened } := by
  obtain ⟨l₁, l₂, hl, rfl⟩ := findMapping_split hfind
  have hsemp := map_semp_of_findMapping hfind
  have hmem : sp ∈ s.mappedSems := by
    rw [hl]
    exact List.mem_append_right l₁ List.mem_cons_self
  constructor
  · intro h hh
    rcases List.mem_cons.mp hh with rfl | hh
    · exact ⟨f, hdir, hmaps, (hsound.dir n f hdir).2⟩
    · exact hs.follows h hh
  · intro h hh
    show h.semp ∈ List.map SharedSem.semp _
    rw [hsemp]
    rcases List.mem_cons.mp hh with rfl | hh
    · exact List.mem_map_of_mem hmem
    · exact hs.held h hh
  · intro sp' hsp'
    obtain ⟨hcount, hpos⟩ := hs.count sp hmem
    show _ = BitVec.ofNat 32 (handles (_ :: s.opened) sp'.semp) ∧
      0 < handles (_ :: s.opened) sp'.semp
    rw [handles_cons]
    rcases List.mem_cons.mp (List.perm_middle.mem_iff.mp hsp') with rfl | hsp'
    · rw [if_pos rfl]
      exact ⟨word_step hcount (.inr (.inl ⟨rfl, rfl⟩)), Nat.succ_pos _⟩
    · obtain ⟨hin, hne⟩ := hsound.other hl hsp'
      rw [if_neg fun he => hne he.symm]
      exact hs.count sp' hin

/-- `sem_open` of a file that is mapped for it. -/
theorem Accounted.mapped {f : File} (hs : Accounted s) (hsound : Sound s)
    (ha : s.maps a = none) (hdir : s.dir n = some f) :
    Accounted { s.addTail n a with
      maps := Function.update s.maps a (some f)
      opened := ⟨a, n, s.dir n⟩ :: s.opened } := by
  have hnot : a ∉ s.mappedSems.map SharedSem.semp := fun h => hsound.live a h ha
  have hne : ∀ h ∈ s.opened, h.semp ≠ a := fun h hh he => hnot (he ▸ hs.held h hh)
  have hmap : (s.addTail n a).mappedSems.map SharedSem.semp =
      s.mappedSems.map SharedSem.semp ++ [a] := by
    rw [State.addTail, List.map_append, List.map_singleton]
  constructor
  · intro h hh
    rcases List.mem_cons.mp hh with rfl | hh
    · exact ⟨f, hdir, Function.update_self _ _ _, (hsound.dir n f hdir).2⟩
    · obtain ⟨k, hfile, hmaps, hlinked⟩ := hs.follows h hh
      exact ⟨k, hfile, (Function.update_of_ne (hne h hh) _ _).trans hmaps, hlinked⟩
  · intro h hh
    show h.semp ∈ (s.addTail n a).mappedSems.map SharedSem.semp
    rw [hmap]
    rcases List.mem_cons.mp hh with rfl | hh
    · exact List.mem_append_right _ List.mem_cons_self
    · exact List.mem_append_left _ (hs.held h hh)
  · intro sp hsp
    show _ = BitVec.ofNat 32 (handles (_ :: s.opened) sp.semp) ∧
      0 < handles (_ :: s.opened) sp.semp
    rw [handles_cons]
    rcases List.mem_append.mp hsp with hsp | hsp
    · have hother : a ≠ sp.semp := fun he => hnot (he ▸ List.mem_map_of_mem hsp)
      rw [if_neg hother]
      exact hs.count sp hsp
    · obtain rfl := List.mem_singleton.mp hsp
      have hzero : handles s.opened a = 0 := hs.handles_eq_zero hnot
      rw [if_pos rfl, hzero]
      exact ⟨rfl, Nat.one_pos⟩

/-- One handle less on one semaphore, if there was one. -/
theorem handles_eraseP {o : List Handle} {b : Addr} (h : 0 < handles o a) :
    handles (o.eraseP (·.semp = a)) b + (if a = b then 1 else 0) = handles o b := by
  obtain ⟨x, hx, hxa⟩ := List.countP_pos_iff.mp h
  obtain ⟨y, l₁, l₂, -, hy, ho, herase⟩ :=
    List.exists_of_eraseP (p := fun h : Handle => h.semp = a) hx hxa
  have hya : y.semp = a := of_decide_eq_true hy
  rw [herase, ho, handles, handles, List.countP_append, List.countP_append, List.countP_cons]
  simp only [hya, decide_eq_true_eq]
  omega

/-- A file that is not new was linked under its name before. -/
theorem Accounted.link {f : File} (hs : Accounted s) (hsound : Sound s) (hf : s.files ≤ f)
    {k : ℕ} {d : Name → Option File} :
    Accounted { s with files := k, dir := d, linkedAs := Function.update s.linkedAs f n } := by
  refine ⟨fun h hh => ?_, hs.held, hs.count⟩
  obtain ⟨j, hfile, hmaps, hlinked⟩ := hs.follows h hh
  have hjf : j < f := lt_of_lt_of_le (hsound.maps _ _ hmaps) hf
  exact ⟨j, hfile, hmaps, (Function.update_of_ne (ne_of_lt hjf) _ _).trans hlinked⟩

/-- `sem_open` keeps the accounts, if it finds its own file or none. -/
theorem Accounted.open (hs : Accounted s) (hsound : Sound s) (h : Effect s n r s')
    (hwell : ∀ a, r = .ok a → Fits s n) : Accounted (s'.record n r) := by
  cases h with
  | failed hk => exact ⟨hs.follows, hs.held, hs.count⟩
  | left hnone hf => exact hs.link hsound hf
  | @found f sp l hdir hfind =>
      have hfirst : sp ∈ s.mappedSems.find? (·.matchesName n) := by
        rw [← findMapping_fst, hfind]
        rfl
      obtain ⟨k, hk, hmaps⟩ := hwell _ rfl sp hfirst
      obtain rfl := Option.some.inj (hdir.symm.trans hk)
      exact hs.found hsound hfind hdir hmaps
  | @foundNew f sp l hnone hf hfind =>
      have hfirst : sp ∈ s.mappedSems.find? (·.matchesName n) := by
        rw [← findMapping_fst, hfind]
        rfl
      obtain ⟨k, hk, -⟩ := hwell _ rfl sp hfirst
      cases hnone.symm.trans hk
  | @mapped f a hdir hfind ha =>
      exact hs.mapped hsound ha hdir
  | @mappedNew f a hnone hf hfind ha =>
      -- The file is linked first, and then mapped.
      have hlinked : Accounted { s with
          files := f + 1
          dir := Function.update s.dir n (some f)
          linkedAs := Function.update s.linkedAs f n } := hs.link hsound hf
      have hsound' := hsound.open (.left (e := .enomem) hnone hf)
      exact hlinked.mapped hsound' ha (Function.update_self _ _ _)

/-- The reference count of a semaphore that has a handle less to count. -/
theorem Accounted.count_other (hs : Accounted s) (hsound : Sound s) {sp sp' : SharedSem}
    {l₁ l₂ : List SharedSem} (hl : s.mappedSems = l₁ ++ sp :: l₂) (h : sp' ∈ l₁ ++ l₂)
    (hpos : 0 < handles s.opened sp.semp) :
    sp'.refcount = BitVec.ofNat 32 (handles (s.opened.eraseP (·.semp = sp.semp)) sp'.semp) ∧
      0 < handles (s.opened.eraseP (·.semp = sp.semp)) sp'.semp := by
  obtain ⟨hin, hne⟩ := hsound.other hl h
  have hsame := handles_eraseP (b := sp'.semp) hpos
  rw [if_neg hne.symm, Nat.add_zero] at hsame
  rw [hsame]
  exact hs.count sp' hin

/-- `sem_close` of one handle of many. -/
theorem Accounted.drop {sp : SharedSem} {l₁ l₂ : List SharedSem} (hs : Accounted s)
    (hsound : Sound s) (hl : s.mappedSems = l₁ ++ sp :: l₂) (hmore : sp.refcount - 1 ≠ 0) :
    Accounted { s with
      mappedSems := l₁ ++ { sp with refcount := sp.refcount - 1 } :: l₂
      opened := s.opened.eraseP (·.semp = sp.semp) } := by
  have hmem : sp ∈ s.mappedSems := by
    rw [hl]
    exact List.mem_append_right l₁ List.mem_cons_self
  obtain ⟨hcount, hpos⟩ := hs.count sp hmem
  have hleft := handles_eraseP (b := sp.semp) hpos
  rw [if_pos rfl] at hleft
  have hless := word_step hcount (.inr (.inr ⟨rfl, hleft⟩))
  have hmap : (l₁ ++ { sp with refcount := sp.refcount - 1 } :: l₂).map SharedSem.semp =
      s.mappedSems.map SharedSem.semp := by
    rw [hl, List.map_append, List.map_append, List.map_cons, List.map_cons]
  refine ⟨fun h hh => hs.follows h (List.mem_of_mem_eraseP hh), fun h hh => ?_,
    fun sp' hsp' => ?_⟩
  · show h.semp ∈ List.map SharedSem.semp _
    rw [hmap]
    exact hs.held h (List.mem_of_mem_eraseP hh)
  · rcases List.mem_cons.mp (List.perm_middle.mem_iff.mp hsp') with rfl | hsp'
    · refine ⟨hless, Nat.pos_of_ne_zero fun hzero => hmore ?_⟩
      exact hless.trans (congrArg (BitVec.ofNat 32) hzero)
    · exact hs.count_other hsound hl hsp' hpos

/-- `sem_close` of the last handle. -/
theorem Accounted.drop_last {sp : SharedSem} {l₁ l₂ : List SharedSem} (hs : Accounted s)
    (hsound : Sound s) (hl : s.mappedSems = l₁ ++ sp :: l₂)
    (hlast : handles s.opened sp.semp ≤ 1) :
    Accounted { s with
      maps := Function.update s.maps sp.semp none
      mappedSems := l₁ ++ l₂
      opened := s.opened.eraseP (·.semp = sp.semp) } := by
  have hmem : sp ∈ s.mappedSems := by
    rw [hl]
    exact List.mem_append_right l₁ List.mem_cons_self
  obtain ⟨-, hpos⟩ := hs.count sp hmem
  have hleft := handles_eraseP (b := sp.semp) hpos
  rw [if_pos rfl] at hleft
  have hzero : handles (s.opened.eraseP (·.semp = sp.semp)) sp.semp = 0 := by omega
  have hne : ∀ h ∈ s.opened.eraseP (·.semp = sp.semp), h.semp ≠ sp.semp := by
    intro h hh he
    exact List.countP_eq_zero.mp hzero h hh (decide_eq_true he)
  refine ⟨fun h hh => ?_, fun h hh => ?_, fun sp' hsp' => hs.count_other hsound hl hsp' hpos⟩
  · obtain ⟨f, hfile, hmaps, hlinked⟩ := hs.follows h (List.mem_of_mem_eraseP hh)
    exact ⟨f, hfile, (Function.update_of_ne (hne h hh) _ _).trans hmaps, hlinked⟩
  · have hheld := hs.held h (List.mem_of_mem_eraseP hh)
    rw [hl] at hheld
    obtain ⟨sp', hsp', hsemp⟩ := List.mem_map.mp hheld
    rcases List.mem_cons.mp (List.perm_middle.mem_iff.mp hsp') with rfl | hsp'
    · exact absurd hsemp.symm (hne h hh)
    · exact List.mem_map.mpr ⟨sp', hsp', hsemp⟩

/-- `sem_close` keeps the accounts, if it takes the last reference from the last handle. -/
theorem Accounted.close (hs : Accounted s) (hsound : Sound s) (hwell : LastIsLast s a) :
    Accounted ((semClose a s).2.forget a (semClose a s).1) := by
  unfold semClose
  split
  · rename_i l hdrop
    obtain ⟨sp, l₁, l₂, hl, rfl, hcase⟩ := dropMapping_split hdrop
    obtain ⟨-, hlast, rfl⟩ := hcase.resolve_right nofun
    have hmem : sp ∈ s.mappedSems := by
      rw [hl]
      exact List.mem_append_right l₁ List.mem_cons_self
    exact hs.drop_last hsound hl (hwell sp hmem rfl hlast)
  · rename_i l hdrop
    obtain ⟨sp, l₁, l₂, hl, rfl, hcase⟩ := dropMapping_split hdrop
    obtain ⟨-, hmore, rfl⟩ := hcase.resolve_left nofun
    exact hs.drop hsound hl hmore
  · exact hs

/-- `sem_unlink` changes the directory only. -/
theorem Accounted.unlink (hs : Accounted s) (name : Name) (ok : Bool) :
    Accounted (semUnlink name ok s).2 := by
  unfold semUnlink
  split
  · split
    · split
      · exact hs
      · exact ⟨hs.follows, hs.held, hs.count⟩
    · exact hs
  · exact hs

/-- The accounts hold in every state of a run whose calls go well. -/
theorem accounted_of_reach (h : machine.ReachVia GoesWell s) : Accounted s := by
  refine h.invariant_of (fun s hs => sound_of_reach hs) (fun s hs => ?_)
    fun s call s' hsound hs hok hstep => ?_
  · obtain ⟨-, -, hsems, hopened⟩ := hs
    constructor <;> simp [hsems, hopened]
  · cases call with
    | «open» name oflag value os =>
        obtain ⟨⟨r, s₁⟩, hopen, rfl⟩ := Option.map_eq_some_iff.mp hstep
        apply hs.open hsound (effect_of_semOpen hsound.live hopen)
        intro a ha
        obtain rfl : r = .ok a := ha
        exact hok (by rw [hopen]; rfl)
    | close a =>
        cases hstep
        exact hs.close hsound hok
    | unlink name ok =>
        cases hstep
        exact hs.unlink name ok

/-! ### Named semaphores follow their names -/

/-- A successful `sem_open` returns a mapping of the file that is linked under its name then,
if and only if the first semaphore whose name begins with it, if there is one, is a mapping of
that file. In a run in which every successful `sem_open` finds it so, and `sem_close` takes the
last reference only from the last handle, the open handles are mappings of the files that were
linked under their names, and two of them are equal only if they were opened under one name
while it had one file. -/
theorem sem_open_follows (s : State) :
    (machine.Reach s → ∀ name oflag value os a s',
      semOpen name oflag value os s = some (.ok a, s') →
        (Maps s' name.tail a ↔ Fits s name.tail)) ∧
    (machine.ReachVia GoesWell s → (∀ h ∈ s.opened, h.Follows s) ∧
      ∀ h ∈ s.opened, ∀ h' ∈ s.opened, h.semp = h'.semp →
        h.name = h'.name ∧ h.file = h'.file) := by
  constructor
  · intro hs name oflag value os a s' hopen
    have hsound := sound_of_reach hs
    exact (effect_of_semOpen hsound.live hopen).maps_iff hsound
  · intro hs
    have hacc := accounted_of_reach hs
    refine ⟨fun h hh => ?_, fun h hh h' hh' heq => ?_⟩
    · obtain ⟨f, hfile, hmaps, -⟩ := hacc.follows h hh
      exact ⟨f, hfile, hmaps⟩
    · -- One address has one file, and one file was linked under one name.
      obtain ⟨f, hfile, hmaps, hname⟩ := hacc.follows h hh
      obtain ⟨f', hfile', hmaps', hname'⟩ := hacc.follows h' hh'
      rw [heq] at hmaps
      obtain rfl := Option.some.inj (hmaps.symm.trans hmaps')
      exact ⟨hname.symm.trans hname', hfile.trans hfile'.symm⟩

instance (s : State) (n : Name) (a : Addr) : Decidable (Maps s n a) :=
  decidable_of_iff ((s.dir n).any fun f => s.maps a = some f) (by
    simp [Maps, Option.any_eq_true])

instance (s : State) (n : Name) : Decidable (Fits s n) :=
  inferInstanceAs (Decidable (∀ sp ∈ s.mappedSems.find? _, _))

instance (s : State) (a : Addr) : Decidable (LastIsLast s a) :=
  inferInstanceAs (Decidable (∀ sp ∈ s.mappedSems, _))

instance (s : State) (call : Call) : Decidable (GoesWell s call) :=
  match call with
  | .open .. => inferInstanceAs (Decidable (_ → _))
  | .close semp => inferInstanceAs (Decidable (LastIsLast s semp))
  | .unlink .. => .isTrue trivial

/-- A process before its first call, and no semaphore in the directory. -/
def State.start : State := ⟨fun _ => none, 0, fun _ => none, [], [], fun _ => []⟩

/-- `sem_open (name, O_CREAT, 0600, 0)`, with the address of a new mapping. -/
def create (name : Name) (a : Addr) : Call := .open name ⟨true, false⟩ 0 [{ addr := a }]

/-- The names `/a` and `/ab`, in the order in which the loop tells them apart, and `/a` once
more. -/
theorem sem_open_follows_three : ∃ s a s', machine.ReachVia GoesWell s ∧
    (s.opened.map Handle.name = [['a', 'b'], ['a']] ∧ ∀ h ∈ s.opened, h.Follows s) ∧
    semOpen ['/', 'a'] ⟨false, false⟩ 0 [{}] s = some (.ok a, s') ∧ Maps s' ['a'] a := by
  obtain ⟨s, hs, hnames, hfits, hopen⟩ := machine.exists_reachVia GoesWell
    (s := State.start) ⟨nofun, fun _ => rfl, rfl, rfl⟩
    [create ['/', 'a'] 1, create ['/', 'a', 'b'] 2]
    (fun s => s.opened.map Handle.name = [['a', 'b'], ['a']] ∧ Fits s ['a'] ∧
      succeeds (semOpen ['/', 'a'] ⟨false, false⟩ 0 [{}] s) = true) (by decide +kernel)
  obtain ⟨hmaps, hfollows⟩ := sem_open_follows s
  match hr : semOpen ['/', 'a'] ⟨false, false⟩ 0 [{}] s with
  | some (.ok a, s') =>
      exact ⟨s, a, s', hs, ⟨hnames, (hfollows hs).1⟩, hr,
        (hmaps hs.reach _ _ _ _ a s' hr).mpr hfits⟩
  | some (.error e, s') =>
      rw [hr] at hopen
      cases hopen
  | none =>
      rw [hr] at hopen
      cases hopen

/-- A name that begins another one. The process opens `/ab` and then creates `/a`. The handle
of `/a` is the one of `/ab`, whose file is not the new one. -/
theorem sem_open_prefix : ∃ s, machine.Reach s ∧ (∃ h ∈ s.opened, ¬ h.Follows s) ∧
    ∃ h ∈ s.opened, ∃ h' ∈ s.opened, h.semp = h'.semp ∧ h.name ≠ h'.name := by
  obtain ⟨s, hs, hopened, hmaps⟩ := machine.exists_reach
    (s := State.start) ⟨nofun, fun _ => rfl, rfl, rfl⟩
    [create ['/', 'a', 'b'] 1, create ['/', 'a'] 2]
    (fun s => s.opened = [⟨1, ['a'], some 1⟩, ⟨1, ['a', 'b'], some 0⟩] ∧ s.maps 1 = some 0)
    (by decide +kernel)
  refine ⟨s, hs, ?_, ?_⟩
  · rw [hopened]
    refine ⟨_, List.mem_cons_self, ?_⟩
    rintro ⟨f, hfile, hf⟩
    have hone : f = 1 := (Option.some.inj hfile).symm
    have hzero : f = 0 := Option.some.inj (hf.symm.trans hmaps)
    exact absurd (hone.symm.trans hzero) (by decide)
  · rw [hopened]
    exact ⟨_, List.mem_cons_self, _, List.mem_cons_of_mem _ List.mem_cons_self, rfl, by decide⟩

/-- A name that was linked again. The process opens `/a`, unlinks it and creates it. The new
handle is the old one, whose file has no name. -/
theorem sem_open_stale : ∃ s, machine.Reach s ∧ (∃ h ∈ s.opened, ¬ h.Follows s) ∧
    ∃ h ∈ s.opened, ∃ h' ∈ s.opened, h.semp = h'.semp ∧ h.file ≠ h'.file := by
  obtain ⟨s, hs, hopened, hmaps⟩ := machine.exists_reach
    (s := State.start) ⟨nofun, fun _ => rfl, rfl, rfl⟩
    [create ['/', 'a'] 1, .unlink ['/', 'a'] true, create ['/', 'a'] 2]
    (fun s => s.opened = [⟨1, ['a'], some 1⟩, ⟨1, ['a'], some 0⟩] ∧ s.maps 1 = some 0)
    (by decide +kernel)
  refine ⟨s, hs, ?_, ?_⟩
  · rw [hopened]
    refine ⟨_, List.mem_cons_self, ?_⟩
    rintro ⟨f, hfile, hf⟩
    have hone : f = 1 := (Option.some.inj hfile).symm
    have hzero : f = 0 := Option.some.inj (hf.symm.trans hmaps)
    exact absurd (hone.symm.trans hzero) (by decide)
  · rw [hopened]
    exact ⟨_, List.mem_cons_self, _, List.mem_cons_of_mem _ List.mem_cons_self, rfl, by decide⟩

end Hlpt.NamedSem
