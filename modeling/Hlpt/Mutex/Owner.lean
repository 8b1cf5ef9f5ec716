import Hlpt.Lib.Counter
import Hlpt.LowLevelLock.Invariant
import Hlpt.Mutex.Model

/-!
# `Hlpt.Mutex.Owner`: who owns a mutex, and how often

The fields of the owner and of the counter are plain words. Only the owner writes them,
and only while it owns the mutex: after the word was acquired and before it is released.
The invariant `Inv` says what they hold at each control point of the owner (`PcOk`), and
that they name nobody else (`ownerId`, `shpid`).

The thread that reads them is another matter. A test of the id alone is right when all
threads are of one process. A test of both fields reads them one after the other, and
is right as long as no thread shares its id with a thread of another process and its
process with a third thread (`Distinguished`).
-/

set_option autoImplicit false

namespace Hlpt.Mutex

open Hlpt.Lib

universe u

variable {T : Type u} [DecidableEq T]

/-! ### The invariant -/

/-- A thread that shares its id with a thread of another process is alone in its
process. -/
def Distinguished (I : Threads T) : Prop :=
  ∀ t u v, I.pid u ≠ I.pid t → I.id u = I.id t → I.pid v = I.pid t → v = t

/-- The operations of a mutex that several processes share. -/
def SharedOp : Op T → Prop
  | .lock .lock | .lock .trylock | .unlock => True
  | .lock (.timedlock _) => False
  | .transfer _ => False

/-- An operation that the thread may call: a transfer goes to another thread of its
process. -/
def OpOk (I : Threads T) (K : Attr) (t : T) (k : Op T) : Prop :=
  (K.shared = true → SharedOp k) ∧ ∀ u, k = .transfer u → u ≠ t ∧ I.pid u = I.pid t

/-- The counter and the levels of a mutex that is owned. -/
def Settled (K : Attr) (m : Mem T) : Prop :=
  1 ≤ m.levels ∧
  match K.kind with
  | .recursive => m.cnt.toNat = m.levels
  | .errorcheck => m.levels = 1

/-- The fields record the thread as the owner. -/
def Recorded (I : Threads T) (K : Attr) (m : Mem T) (t : T) : Prop :=
  m.ownerId = I.id t ∧ (K.shared = true → m.shpid = I.pid t) ∧ Settled K m

/-- The thread is the owner, and recorded. -/
def Owning (I : Threads T) (K : Attr) (m : Mem T) (t : T) : Prop :=
  t ∈ m.owners ∧ Recorded I K m t

/-- An owner that is not at work on the fields is recorded. -/
def Resting (I : Threads T) (K : Attr) (m : Mem T) (t : T) : Prop :=
  t ∈ m.owners → Recorded I K m t

/-- What the fields hold at the control points of a thread. -/
def PcOk (I : Threads T) (K : Attr) (m : Mem T) (t : T) : Pc T → Prop
  | .idle => Resting I K m t
  | .ret _ => Resting I K m t
  | .testOwner k => Resting I K m t ∧ OpOk I K t k
  | .testPid k => Resting I K m t ∧ K.shared = true ∧ OpOk I K t k ∧
      (t ∈ m.owners ∨ ∃ u, I.pid u ≠ I.pid t ∧ I.id u = I.id t)
  | .lockWord p => Resting I K m t ∧ LowLevelLock.InLock p
  | .cntTest => Owning I K m t ∧ K.kind = .recursive
  | .incLoad => Owning I K m t ∧ K.kind = .recursive ∧ m.cnt + 1 ≠ 0
  | .incStore cnt => Owning I K m t ∧ K.kind = .recursive ∧ cnt = m.cnt ∧ m.cnt + 1 ≠ 0
  | .decLoad => Owning I K m t ∧ K.kind = .recursive
  | .decStore cnt => Owning I K m t ∧ K.kind = .recursive ∧ cnt = m.cnt
  | .giveOwner u => Owning I K m t ∧ K.shared = false ∧ u ≠ t ∧ I.pid u = I.pid t
  | .givePid => False
  | .setOwner => t ∈ m.owners ∧ m.ownerId = 0 ∧ m.shpid = 0 ∧ m.levels = 1
  | .setPid => t ∈ m.owners ∧ m.ownerId = I.id t ∧ m.levels = 1
  | .setCnt => t ∈ m.owners ∧ m.ownerId = I.id t ∧ m.levels = 1 ∧ K.kind = .recursive ∧
      (K.shared = true → m.shpid = I.pid t)
  | .clearPid => t ∈ m.owners ∧ m.ownerId = I.id t ∧
      m.levels = match K.kind with
        | .recursive => 0
        | .errorcheck => 1
  | .clearOwner => t ∈ m.owners ∧ m.ownerId = I.id t ∧ m.shpid = 0 ∧ m.levels = 0
  | .unlockWord p =>
      (p = .unlockSwap ∧ t ∈ m.owners ∧ m.ownerId = 0 ∧ m.shpid = 0 ∧ m.levels = 0) ∨
      (p = .unlockWake ∧ Resting I K m t)

/-- There is one owner at most, the word is taken while there is one, and the fields name
nobody else. -/
structure Inv (I : Threads T) (K : Attr) (s : Global T (Mem T) (Pc T)) : Prop where
  one : ∀ t u, t ∈ s.mem.owners → u ∈ s.mem.owners → t = u
  free : s.mem.lock.word = 0 ↔ s.mem.owners = ∅
  unused : s.mem.owners = ∅ → s.mem.levels = 0
  ownerId : s.mem.ownerId ≠ 0 → ∃ t ∈ s.mem.owners, s.mem.ownerId = I.id t
  shpid : s.mem.shpid ≠ 0 → ∃ t ∈ s.mem.owners, s.mem.shpid = I.pid t
  pc : ∀ t, PcOk I K s.mem t (s.loc t)

variable {I : Threads T} {K : Attr} {t u : T} {c : Choice T} {m m' : Mem T} {pc pc' : Pc T}

/-! ### The other threads -/

omit [DecidableEq T] in
/-- A thread that does not own the mutex is content with any memory, unless it becomes an
owner there. -/
theorem PcOk.frame (h : PcOk I K m u pc) (hu : u ∉ m.owners) (hu' : Resting I K m' u) :
    PcOk I K m' u pc := by
  cases pc <;> simp_all [PcOk, Owning, Resting]

omit [DecidableEq T] in
/-- Nobody rests as an owner in a memory without that owner. -/
theorem resting_of_notMem (h : t ∉ m.owners) : Resting I K m t := fun ht => absurd ht h

omit [DecidableEq T] in
/-- The lock word is not one of the fields. -/
theorem pcOk_lock {lk : LowLevelLock.Mem T} :
    PcOk I K { m with lock := lk } t pc ↔ PcOk I K m t pc := by
  cases pc <;> exact Iff.rfl

/-! ### One step, by what it changes -/

section

variable {s : Global T (Mem T) (Pc T)}

/-- A step that changes none of the fields, and leaves a taken word taken. -/
theorem Inv.quiet (hs : Inv I K s) {lk : LowLevelLock.Mem T}
    (hw : lk.word = 0 ↔ s.mem.lock.word = 0) (hpc : PcOk I K s.mem t pc') :
    Inv I K ⟨{ s.mem with lock := lk }, Function.update s.loc t pc'⟩ where
  one := hs.one
  free := hw.trans hs.free
  unused := hs.unused
  ownerId := hs.ownerId
  shpid := hs.shpid
  pc := (forall_loc_iff (P := fun u p => PcOk I K { s.mem with lock := lk } u p)).mpr
    ⟨pcOk_lock.mpr hpc, fun u _ => pcOk_lock.mpr (hs.pc u)⟩

/-- A step that changes nothing. -/
theorem Inv.stay (hs : Inv I K s) (hpc : PcOk I K s.mem t pc') :
    Inv I K ⟨s.mem, Function.update s.loc t pc'⟩ :=
  hs.quiet Iff.rfl hpc

/-- A step of the owner that writes one of the fields. -/
theorem Inv.write (hs : Inv I K s) (ht : t ∈ s.mem.owners) (ho : m.owners = s.mem.owners)
    (hlock : m.lock = s.mem.lock) (hid : m.ownerId ≠ 0 → m.ownerId = I.id t)
    (hpid : m.shpid ≠ 0 → m.shpid = I.pid t) (hpc : PcOk I K m t pc') :
    Inv I K ⟨m, Function.update s.loc t pc'⟩ where
  one := by
    rw [ho]
    exact hs.one
  free := by
    rw [ho, hlock]
    exact hs.free
  unused h := by
    rw [ho] at h
    rw [h] at ht
    exact absurd ht (Finset.notMem_empty t)
  ownerId h := ⟨t, ho ▸ ht, hid h⟩
  shpid h := ⟨t, ho ▸ ht, hpid h⟩
  pc := by
    refine (forall_loc_iff (P := fun u p => PcOk I K m u p)).mpr ⟨hpc, fun u hut => ?_⟩
    have hu : u ∉ s.mem.owners := fun hu => hut (hs.one u t hu ht)
    exact (hs.pc u).frame hu (resting_of_notMem (ho ▸ hu))

omit [DecidableEq T] in
/-- The id of an owner is the owner's. -/
theorem Inv.ownerId_eq (hs : Inv I K s) (ht : t ∈ s.mem.owners) (h : s.mem.ownerId ≠ 0) :
    s.mem.ownerId = I.id t := by
  obtain ⟨u, hu, hid⟩ := hs.ownerId h
  rw [hid, hs.one u t hu ht]

omit [DecidableEq T] in
/-- The process of an owner is the owner's. -/
theorem Inv.shpid_eq (hs : Inv I K s) (ht : t ∈ s.mem.owners) (h : s.mem.shpid ≠ 0) :
    s.mem.shpid = I.pid t := by
  obtain ⟨u, hu, hpid⟩ := hs.shpid h
  rw [hpid, hs.one u t hu ht]

/-- There is no owner beside an owner. -/
theorem Inv.erase_eq_empty (hs : Inv I K s) (ht : t ∈ s.mem.owners) :
    s.mem.owners.erase t = ∅ := by
  apply Finset.eq_empty_of_forall_notMem
  intro u hu
  exact Finset.ne_of_mem_erase hu (hs.one u t (Finset.mem_of_mem_erase hu) ht)

/-- The acquisition of the word. -/
theorem Inv.acquire (hs : Inv I K s) {lk : LowLevelLock.Mem T} (hw : s.mem.lock.word = 0)
    (hw' : lk.word ≠ 0) : Inv I K ⟨s.mem.onWord t lk true, Function.update s.loc t .setOwner⟩ := by
  have hnone : s.mem.owners = ∅ := hs.free.mp hw
  have hnot : ∀ u, u ∉ s.mem.owners := fun u => hnone ▸ Finset.notMem_empty u
  have hid : s.mem.ownerId = 0 := by
    by_contra hne
    obtain ⟨u, hu, -⟩ := hs.ownerId hne
    exact hnot u hu
  have hpid : s.mem.shpid = 0 := by
    by_contra hne
    obtain ⟨u, hu, -⟩ := hs.shpid hne
    exact hnot u hu
  have howners : (s.mem.onWord t lk true).owners = {t} := by simp [Mem.onWord, hnone]
  have hlevels : (s.mem.onWord t lk true).levels = 1 := by
    simp [Mem.onWord, hnone, hs.unused hnone]
  exact
    { one := fun u v hu hv => by
        rw [howners, Finset.mem_singleton] at hu hv
        rw [hu, hv]
      free := by
        rw [howners]
        exact ⟨fun h => absurd h hw', fun h => absurd h (Finset.singleton_ne_empty t)⟩
      unused := fun h => by
        rw [howners] at h
        exact absurd h (Finset.singleton_ne_empty t)
      ownerId := fun h => absurd hid h
      shpid := fun h => absurd hpid h
      pc := by
        refine (forall_loc_iff (P := fun u p => PcOk I K (s.mem.onWord t lk true) u p)).mpr
          ⟨⟨by simp [howners], hid, hpid, hlevels⟩, fun u hut => ?_⟩
        exact (hs.pc u).frame (hnot u) (resting_of_notMem (by simp [howners, hut])) }

/-- The release of the word. -/
theorem Inv.release (hs : Inv I K s) (ht : t ∈ s.mem.owners) (hid : s.mem.ownerId = 0)
    (hpid : s.mem.shpid = 0) (hlevels : s.mem.levels = 0) {lk : LowLevelLock.Mem T}
    (hw : lk.word = 0) (hpc : ∀ m, t ∉ m.owners → PcOk I K m t pc') :
    Inv I K ⟨s.mem.onWord t lk false, Function.update s.loc t pc'⟩ := by
  have howners : (s.mem.onWord t lk false).owners = ∅ := hs.erase_eq_empty ht
  exact
    { one := fun u v hu => by
        rw [howners] at hu
        exact absurd hu (Finset.notMem_empty u)
      free := ⟨fun _ => howners, fun _ => hw⟩
      unused := fun _ => by simpa [Mem.onWord] using hlevels
      ownerId := fun h => absurd hid h
      shpid := fun h => absurd hpid h
      pc := by
        refine (forall_loc_iff (P := fun u p => PcOk I K (s.mem.onWord t lk false) u p)).mpr
          ⟨hpc _ (by simp [howners]), fun u hut => ?_⟩
        have hu : u ∉ s.mem.owners := fun hu => hut (hs.one u t hu ht)
        exact (hs.pc u).frame hu (resting_of_notMem (by simp [howners])) }

/-- The store that passes the mutex on to another thread. -/
theorem Inv.give (hs : Inv I K s) (ht : Owning I K s.mem t) (hK : K.shared = false)
    (hut : u ≠ t) (hproc : I.pid u = I.pid t) :
    Inv I K ⟨{ s.mem with ownerId := I.id u, owners := insert u (s.mem.owners.erase t) },
      Function.update s.loc t (.ret .ok)⟩ := by
  obtain ⟨htmem, -, -, hsettled⟩ := ht
  have hnone := hs.erase_eq_empty htmem
  have hown : ∀ v, v ∈ insert u (s.mem.owners.erase t) ↔ v = u := by simp [hnone]
  exact
    { one := fun v w hv hw => by rw [(hown v).mp hv, (hown w).mp hw]
      free := by
        have htaken : s.mem.lock.word ≠ 0 := fun hw =>
          absurd htmem (hs.free.mp hw ▸ Finset.notMem_empty t)
        exact ⟨fun hw => absurd hw htaken, fun h => absurd h (Finset.insert_ne_empty u _)⟩
      unused := fun h => absurd h (Finset.insert_ne_empty u _)
      ownerId := fun _ => ⟨u, (hown u).mpr rfl, rfl⟩
      shpid := fun h => ⟨u, (hown u).mpr rfl, by rw [hproc]; exact hs.shpid_eq htmem h⟩
      pc := by
        refine (forall_loc_iff (P := fun v p => PcOk I K
          { s.mem with ownerId := I.id u, owners := insert u (s.mem.owners.erase t) } v p)).mpr
          ⟨fun h => absurd ((hown t).mp h).symm hut, fun v hv => ?_⟩
        have hvnot : v ∉ s.mem.owners := fun h => hv (hs.one v t h htmem)
        apply (hs.pc v).frame hvnot
        intro h
        -- The new owner finds itself recorded.
        obtain rfl := (hown v).mp h
        exact ⟨rfl, fun hshared => absurd hshared (by simp [hK]), hsettled⟩ }

/-! ### The test of the owner -/

omit [DecidableEq T] in
/-- A thread that finds its id in `__owner_id` owns the mutex, or shares its id with a
thread of another process. -/
theorem Inv.owner_or_twin (hs : Inv I K s) (hid : s.mem.ownerId = I.id t) :
    t ∈ s.mem.owners ∨ ∃ u, I.pid u ≠ I.pid t ∧ I.id u = I.id t := by
  obtain ⟨u, hu, hid'⟩ := hs.ownerId (by rw [hid]; exact I.id_ne t)
  by_cases hproc : I.pid u = I.pid t
  · rw [← I.inj u t hproc (hid'.symm.trans hid)]
    exact .inl hu
  · exact .inr ⟨u, hproc, hid'.symm.trans hid⟩

omit [DecidableEq T] in
/-- A thread that finds its process as well owns the mutex, when the threads are
distinguished. -/
theorem Inv.owner_of_pid (hs : Inv I K s) (hI : Distinguished I)
    (htwin : t ∈ s.mem.owners ∨ ∃ u, I.pid u ≠ I.pid t ∧ I.id u = I.id t)
    (hpid : s.mem.shpid = I.pid t) : t ∈ s.mem.owners := by
  rcases htwin with ht | ⟨u, hproc, hid⟩
  · exact ht
  · obtain ⟨v, hv, hpid'⟩ := hs.shpid (by rw [hpid]; exact I.pid_ne t)
    rwa [← hI t u v hproc hid (hpid'.symm.trans hpid)]

omit [DecidableEq T] in
/-- The control point of an owner whose test succeeded. -/
theorem pcOk_owned {k : Op T} (ht : Owning I K m t) (hop : OpOk I K t k) :
    PcOk I K m t (K.owned k) := by
  obtain ⟨kind, shared⟩ := K
  cases k with
  | lock k =>
      cases kind with
      | recursive => exact ⟨ht, rfl⟩
      | errorcheck => exact fun _ => ht.2
  | unlock =>
      cases kind with
      | recursive => exact ⟨ht, rfl⟩
      | errorcheck => exact ⟨ht.1, ht.2.1, ht.2.2.2.2⟩
  | transfer u =>
      refine ⟨ht, ?_, hop.2 u rfl⟩
      cases shared with
      | false => rfl
      | true => exact (hop.1 rfl).elim

omit [DecidableEq T] in
/-- The control point of a thread whose test failed. -/
theorem pcOk_unowned {k : Op T} (ht : Resting I K m t) : PcOk I K m t (unowned k) := by
  cases k with
  | lock k => cases k <;> exact ⟨ht, trivial⟩
  | unlock => exact ht
  | transfer u => exact ht

omit [DecidableEq T] in
/-- The control point of an owner that is recorded in all fields but the counter. -/
theorem pcOk_counted (ht : t ∈ m.owners) (hid : m.ownerId = I.id t)
    (hpid : K.shared = true → m.shpid = I.pid t) (hlevels : m.levels = 1) :
    PcOk I K m t K.counted := by
  obtain ⟨kind, shared⟩ := K
  cases kind with
  | recursive => exact ⟨ht, hid, hlevels, rfl, hpid⟩
  | errorcheck => exact fun _ => ⟨hid, hpid, hlevels.ge, hlevels⟩

/-! ### Every step -/

/-- A call that the mutex of several processes is used with. -/
def SharedCall : Call T → Prop
  | .lock .lock | .lock .trylock | .unlock => True
  | .lock (.timedlock _) => False
  | .transfer _ => False

instance (k : Call T) : Decidable (SharedCall k) := by
  unfold SharedCall
  split <;> infer_instance

/-- The entry of a call. -/
theorem pcOk_enter {k : Call T} (hrest : Resting I K m t) (hcall : K.shared = true → SharedCall k)
    (h : enter I t k = some pc') : PcOk I K m t pc' := by
  cases k with
  | lock k =>
      cases h
      refine ⟨hrest, fun hshared => ?_, fun u hu => by cases hu⟩
      have hk := hcall hshared
      cases k <;> exact hk
  | unlock =>
      cases h
      exact ⟨hrest, fun _ => trivial, fun u hu => by cases hu⟩
  | transfer th =>
      cases th with
      | none =>
          cases h
          exact hrest
      | some u =>
          simp only [enter] at h
          split at h
          · cases h
            exact hrest
          · rename_i hut
            split at h
            · rename_i hproc
              cases h
              refine ⟨hrest, fun hshared => (hcall hshared).elim, fun v hv => ?_⟩
              obtain rfl := Op.transfer.inj hv
              exact ⟨hut, hproc⟩
            · cases h

/-- An access to the word that does not change who holds it. -/
theorem onWord_same {lk : LowLevelLock.Mem T} {b : Bool} (hb : b = decide (t ∈ m.owners)) :
    m.onWord t lk b = { m with lock := lk } := by
  by_cases ht : t ∈ m.owners <;> simp [Mem.onWord, hb, ht]

omit [DecidableEq T] in
/-- The test of the process is left out for a mutex of one process, where the id says
enough, and for nothing else. -/
theorem Inv.test (hs : Inv I K s) (hproc : K.shared = false → ∀ t u, I.pid t = I.pid u)
    {k : Op T} (hrest : Resting I K s.mem t) (hop : OpOk I K t k)
    (hid : s.mem.ownerId = I.id t) :
    PcOk I K s.mem t (if K.testsPid k then .testPid k else K.owned k) := by
  have htwin := hs.owner_or_twin hid
  cases hshared : K.shared with
  | false =>
      have hno : K.testsPid k = false := by
        rcases k with (_ | _ | _) | _ | _ <;> simp [Attr.testsPid, hshared]
      have ht : t ∈ s.mem.owners := by
        rcases htwin with ht | ⟨u, hne, -⟩
        · exact ht
        · exact absurd (hproc hshared u t) hne
      rw [hno]
      exact pcOk_owned ⟨ht, hrest ht⟩ hop
  | true =>
      have hyes : K.testsPid k = true := by
        have hk := hop.1 hshared
        rcases k with (_ | _ | _) | _ | _ <;>
          first | exact hk.elim | simp [Attr.testsPid, hshared]
      rw [hyes]
      exact ⟨hrest, hshared, hop, htwin⟩

/-- Every step keeps the invariant, if the ids tell the threads apart. -/
theorem Inv.step (hs : Inv I K s) (hproc : K.shared = false → ∀ t u, I.pid t = I.pid u)
    (hI : K.shared = true → Distinguished I)
    (hcall : K.shared = true → s.loc t = .idle → SharedCall c.call)
    (h : exec I K t c s.mem (s.loc t) = some (m, pc)) :
    Inv I K ⟨m, Function.update s.loc t pc⟩ := by
  have hok := hs.pc t
  generalize hpc : s.loc t = pc₀ at h hok
  cases pc₀ with
  | idle =>
      obtain ⟨p, henter, hr⟩ := Option.map_eq_some_iff.mp h
      cases hr
      exact hs.stay (pcOk_enter hok (fun hshared => hcall hshared hpc) henter)
  | ret r =>
      cases h
      exact hs.stay hok
  -- The test of the id is right up to a thread with the same id in another process.
  | testOwner k =>
      cases h
      refine hs.stay ?_
      by_cases hid : s.mem.ownerId = I.id t
      · rw [if_pos hid]
        exact hs.test hproc hok.1 hok.2 hid
      · rw [if_neg hid]
        exact pcOk_unowned hok.1
  | testPid k =>
      obtain ⟨hrest, hshared, hop, htwin⟩ := hok
      cases h
      refine hs.stay ?_
      by_cases hpid : s.mem.shpid = I.pid t
      · rw [if_pos hpid]
        have ht := hs.owner_of_pid (hI hshared) htwin hpid
        exact pcOk_owned ⟨ht, hrest ht⟩ hop
      · rw [if_neg hpid]
        exact pcOk_unowned hrest
  -- The owner of a recursive mutex counts one level more.
  | cntTest =>
      cases h
      refine hs.stay ?_
      split
      · exact fun _ => hok.1.2
      · rename_i hcnt
        exact ⟨hok.1, hok.2, hcnt⟩
  | incLoad =>
      cases h
      exact hs.stay ⟨hok.1, hok.2.1, rfl, hok.2.2⟩
  | incStore cnt =>
      obtain ⟨⟨ht, hid, hpid, hsettled⟩, hkind, rfl, hcnt⟩ := hok
      cases h
      refine hs.write ht rfl rfl (hs.ownerId_eq ht) (hs.shpid_eq ht) fun _ => ⟨hid, hpid, ?_⟩
      simp only [Settled, hkind] at hsettled ⊢
      exact ⟨by omega, by rw [toNat_add_one hcnt, hsettled.2]⟩
  -- Only the step that takes the free word makes an owner.
  | lockWord p =>
      obtain ⟨r, hword, hr⟩ := Option.map_eq_some_iff.mp h
      cases hr
      rcases LowLevelLock.exec_inLock hword hok.2 with ⟨hp, hw, hw', hb⟩ | ⟨hp, hw, hb⟩
      · rw [hp, hb]
        exact hs.acquire hw hw'
      · rw [onWord_same hb]
        refine hs.quiet hw ?_
        rcases hp with hp | ⟨r', hr', -, hp⟩
        · generalize r.2.pc = p' at hp
          cases p' <;> first | exact hp.elim | exact ⟨hok.1, hp⟩
        · rw [hp, afterLock, if_neg hr']
          exact hok.1
  -- The fields of the new owner.
  | setOwner =>
      obtain ⟨ht, hid, hpid, hlevels⟩ := hok
      cases h
      refine hs.write ht rfl rfl (fun _ => rfl) (fun hne => absurd hpid hne) ?_
      split
      · exact ⟨ht, rfl, hlevels⟩
      · rename_i hshared
        exact pcOk_counted ht rfl (fun h => absurd h hshared) hlevels
  | setPid =>
      obtain ⟨ht, hid, hlevels⟩ := hok
      cases h
      exact hs.write ht rfl rfl (hs.ownerId_eq ht) (fun _ => rfl)
        (pcOk_counted ht hid (fun _ => rfl) hlevels)
  | setCnt =>
      obtain ⟨ht, hid, hlevels, hkind, hpid⟩ := hok
      cases h
      refine hs.write ht rfl rfl (hs.ownerId_eq ht) (hs.shpid_eq ht) fun _ => ⟨hid, hpid, ?_⟩
      simp [Settled, hkind, hlevels]
  -- An unlock gives a level back, and clears the fields after the last one.
  | decLoad =>
      cases h
      exact hs.stay ⟨hok.1, hok.2, rfl⟩
  | decStore cnt =>
      obtain ⟨⟨ht, hid, hpid, hsettled⟩, hkind, rfl⟩ := hok
      cases h
      refine hs.write ht rfl rfl (hs.ownerId_eq ht) (hs.shpid_eq ht) ?_
      simp only [Settled, hkind] at hsettled
      obtain ⟨n, hn⟩ : ∃ n, s.mem.cnt.toNat = n + 1 :=
        Nat.exists_eq_succ_of_ne_zero (by omega)
      have hlast := sub_one_eq_zero_iff hn
      split
      · rename_i hzero
        refine ⟨ht, hid, ?_⟩
        have hn0 := hlast.mp hzero
        simp only [hkind]
        omega
      · rename_i hne
        refine fun _ => ⟨hid, hpid, ?_⟩
        have hn0 : n ≠ 0 := fun h0 => hne (hlast.mpr h0)
        simp only [Settled, hkind, toNat_sub_one hn]
        omega
  | clearPid =>
      obtain ⟨ht, hid, hlevels⟩ := hok
      cases h
      refine hs.write ht rfl rfl (hs.ownerId_eq ht) (fun hne => absurd rfl hne)
        ⟨ht, hid, rfl, ?_⟩
      cases hkind : K.kind <;> simp [hlevels, hkind]
  | clearOwner =>
      obtain ⟨ht, hid, hpid, hlevels⟩ := hok
      cases h
      exact hs.write ht rfl rfl (fun hne => absurd rfl hne) (fun hne => absurd hpid hne)
        (.inl ⟨rfl, ht, rfl, hpid, hlevels⟩)
  -- With the swap of `lll_unlock` the thread is no owner any more.
  | unlockWord p =>
      obtain ⟨r, hword, hr⟩ := Option.map_eq_some_iff.mp h
      cases hr
      rcases hok with ⟨rfl, ht, hid, hpid, hlevels⟩ | ⟨rfl, hrest⟩
      · obtain ⟨hlk, hb, hp⟩ := LowLevelLock.exec_unlockSwap hword
        rw [hb]
        apply hs.release ht hid hpid hlevels (by rw [hlk])
        intro m hm
        rcases hp with ⟨hp, -⟩ | ⟨hp, -⟩
        · rw [hp]
          exact resting_of_notMem hm
        · rw [hp]
          exact .inr ⟨rfl, resting_of_notMem hm⟩
      · obtain ⟨hlk, hl⟩ := LowLevelLock.exec_unlockWake hword
        rw [hl, onWord_same rfl]
        exact hs.quiet (by rw [hlk]) hrest
  | giveOwner u =>
      obtain ⟨ht, hshared, hut, hproc'⟩ := hok
      cases h
      simp only [hshared, Bool.false_eq_true, if_false]
      exact hs.give ht hshared hut hproc'
  | givePid => exact hok.elim

end

/-- A mutex of several processes is used with `lock`, `trylock` and `unlock`. -/
def SharedUse (K : Attr) (s : Global T (Mem T) (Pc T)) (a : T × Choice T) : Prop :=
  K.shared = true → s.loc a.1 = .idle → SharedCall a.2.call

instance (s : Global T (Mem T) (Pc T)) (a : T × Choice T) : Decidable (SharedUse K s a) :=
  inferInstanceAs (Decidable (_ → _ → _))

/-- The invariant holds in every reached state, if the ids tell the threads apart. -/
theorem inv_of_reach {ok : Global T (Mem T) (Pc T) → T × Choice T → Prop}
    (hok : ∀ s a, ok s a → SharedUse K s a)
    (hproc : K.shared = false → ∀ t u, I.pid t = I.pid u)
    (hI : K.shared = true → Distinguished I) {s : Global T (Mem T) (Pc T)}
    (h : (machine I K).ReachVia ok s) : Inv I K s := by
  refine Exec.invariant (fun s hs => ?_)
    (fun s t c m p hp ha he => hp.step hproc hI (fun hshared => hok _ _ ha hshared) he) h
  obtain ⟨hm, hl⟩ := hs
  constructor <;> simp [hm, hl, PcOk, Resting]

end Hlpt.Mutex
