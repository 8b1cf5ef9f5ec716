import Hlpt.Lib.Loop
import Hlpt.Tsd.Model

/-!
# `Hlpt.Tsd.Destroy`: the destructors of thread-specific data

`__pthread_dealloc_tsd` walks over the two levels of the table and counts a key index
`q` along. A block that is missing has `PTHREAD_KEY_L2_SIZE` keys, but `q` advances by
`PTHREAD_KEY_L1_SIZE`, so every missing block moves `q` by 16 away from the key whose
value is looked at (`WalkInv.q`).

* `tsd_destroyed_iff`: the destruction is right exactly when, at each value behind a
  missing block, the shifted entry is still in the table and says the same.
* `tsd_wrong_destructor`: a value that goes to the destructor of another key.
-/

set_option autoImplicit false

namespace Hlpt.Tsd

open Hlpt.Lib

/-! ### What the destruction should do -/

/-- The destructor that a value gets: the one of the key with the entry `key`, if the
sequence number of the value is that of the live key and there is a destructor. -/
def destructor (key : Key) (value : KeyData) : Option (BitVec 32) :=
  if value.seq = key.seq ∧ unusedP key.seq = false ∧ key.destr ≠ 0 then some key.destr
  else none

/-- The index of an entry, which is the key that it belongs to. -/
def slotIndex (cnt : Fin PTHREAD_KEY_L1_SIZE) (inner : Fin PTHREAD_KEY_L2_SIZE) : ℕ :=
  PTHREAD_KEY_L2_SIZE * cnt + inner

/-- The key whose value was visited. -/
def Visit.key (v : Visit) : ℕ := slotIndex v.cnt v.inner

/-- The destruction is right: every value goes to the destructor of its own key, and its
slot is empty then; the table of the keys is indexed inside its bounds; there are at most
`PTHREAD_DESTRUCTION_ITERATIONS` passes, and fewer only when no value is left. -/
structure Destroyed (B : Behaviour) (s : State) : Prop where
  own : ∀ v ∈ (walk B s).visits,
    v.call = (destructor (v.keys v.key) v.value).map fun destr => (destr, v.value.data)
  cleared : ∀ v ∈ (walk B s).visits, v.slot = 0
  inside : ∀ v ∈ (walk B s).visits, v.q < PTHREAD_KEYS_MAX
  bounded : (walk B s).passes ≤ PTHREAD_DESTRUCTION_ITERATIONS
  early : (walk B s).passes < PTHREAD_DESTRUCTION_ITERATIONS →
    ∀ cnt inner, ((walk B s).st.thread.entry cnt inner).data = 0

/-- No block was missing before the value, or the entry that lies 16 keys further for
each missing block is in the table and selects the same destructor. -/
def Visit.Aligned (v : Visit) : Prop :=
  v.holes = 0 ∨ v.key + PTHREAD_KEY_L2_SIZE * v.holes < PTHREAD_KEYS_MAX ∧
    destructor (v.keys (v.key + PTHREAD_KEY_L2_SIZE * v.holes)) v.value =
      destructor (v.keys v.key) v.value

/-! ### The two levels of the table -/

namespace Thread

variable {self : Thread} {cnt c : Fin PTHREAD_KEY_L1_SIZE} {inner i : Fin PTHREAD_KEY_L2_SIZE}
  {d : KeyData}

@[simp] theorem specificUsed_store : (self.store cnt inner d).specificUsed = self.specificUsed :=
  rfl

@[simp] theorem specificUsed_alloc : (self.alloc cnt).specificUsed = self.specificUsed := rfl

/-- A store into an allocated block changes one entry. -/
theorem entry_store (h : (self.specific cnt).isSome) :
    (self.store cnt inner d).entry c i = if c = cnt ∧ i = inner then d else self.entry c i := by
  obtain ⟨blk, hblk⟩ := Option.isSome_iff_exists.mp h
  by_cases hc : c = cnt
  · subst hc
    by_cases hi : i = inner
    · subst hi
      simp [entry, store, hblk]
    · simp [entry, store, hblk, hi]
  · simp [entry, store, hc]

/-- A new block is empty, as the missing one was. -/
theorem entry_alloc (h : self.specific cnt = none) :
    (self.alloc cnt).entry c i = self.entry c i := by
  by_cases hc : c = cnt
  · subst hc
    simp [entry, alloc, h, Block.zero]
  · simp [entry, alloc, hc]

/-- An entry with a value is in an allocated block. -/
theorem isSome_of_entry (h : (self.entry cnt inner).data ≠ 0) : (self.specific cnt).isSome := by
  cases hs : self.specific cnt with
  | some blk => rfl
  | none => simp [entry, hs] at h

end Thread

/-! ### What an operation can do -/

/-- Every value was stored for a key that was in use. -/
def Thread.Stored (self : Thread) : Prop :=
  ∀ cnt inner, (self.entry cnt inner).data ≠ 0 → unusedP (self.entry cnt inner).seq = false

/-- `t'` comes from `t` by operations: new values go with `specific_used`. -/
structure Thread.Later (t t' : Thread) : Prop where
  used : t.specificUsed = true → t'.specificUsed = true
  data : ∀ cnt inner, (t'.entry cnt inner).data ≠ 0 →
    t'.specificUsed = true ∨ (t.entry cnt inner).data ≠ 0

theorem Thread.Later.refl (self : Thread) : self.Later self :=
  ⟨id, fun _ _ h => .inr h⟩

theorem Thread.Later.trans {t₁ t₂ t₃ : Thread} (h : t₁.Later t₂) (h' : t₂.Later t₃) :
    t₁.Later t₃ where
  used hu := h'.used (h.used hu)
  data cnt inner hd := by
    rcases h'.data cnt inner hd with hu | hd'
    · exact .inl hu
    · rcases h.data cnt inner hd' with hu | hd''
      · exact .inl (h'.used hu)
      · exact .inr hd''

/-- A value that is put into an allocated block. -/
theorem Thread.later_put {self : Thread} {cnt : Fin PTHREAD_KEY_L1_SIZE}
    {inner : Fin PTHREAD_KEY_L2_SIZE} {d : KeyData} (h : (self.specific cnt).isSome) :
    self.Later (self.put cnt inner d) where
  used hu := by simp [Thread.put, hu]
  data c i hd := by
    change ((self.store cnt inner d).entry c i).data ≠ 0 at hd
    rw [Thread.entry_store h] at hd
    split at hd
    · exact .inl (by simpa [Thread.put] using Or.inr hd)
    · exact .inr hd

/-- A store keeps `Stored`, when the new entry is empty or for a key in use. -/
theorem Thread.Stored.store {self : Thread} (hs : self.Stored) {cnt : Fin PTHREAD_KEY_L1_SIZE}
    {inner : Fin PTHREAD_KEY_L2_SIZE} {d : KeyData} (h : (self.specific cnt).isSome)
    (hd : d.data ≠ 0 → unusedP d.seq = false) : (self.store cnt inner d).Stored := by
  intro c i hne
  rw [Thread.entry_store h] at hne ⊢
  split
  · rename_i heq
    rw [if_pos heq] at hne
    exact hd hne
  · rename_i heq
    rw [if_neg heq] at hne
    exact hs c i hne

/-- What `pthread_setspecific` does to the thread: nothing, or it puts a value for a key in
use into a block that was there or was just allocated. -/
theorem setspecific_cases (key : ℕ) (valp : BitVec 32) (mem : Bool) (keys : ℕ → Key)
    (self : Thread) : (setspecific key valp mem keys self).2 = self ∨
      ∃ (cnt : Fin PTHREAD_KEY_L1_SIZE) (inner : Fin PTHREAD_KEY_L2_SIZE) (t : Thread),
        (t = self ∨ self.specific cnt = none ∧ t = self.alloc cnt) ∧
        (t.specific cnt).isSome ∧ unusedP (keys key).seq = false ∧
        (setspecific key valp mem keys self).2 = t.put cnt inner ⟨(keys key).seq, valp⟩ := by
  unfold setspecific
  split
  · rename_i hkey
    cases hseq : unusedP (keys key).seq with
    | true => exact .inl rfl
    | false =>
        cases hblk : self.specific (blockOf key hkey) with
        | some blk =>
            exact .inr ⟨blockOf key hkey, indexOf key, self, .inl rfl, by simp [hblk], rfl,
              by simp [hblk]⟩
        | none =>
            by_cases hv : valp = 0#32
            · exact .inl (by simp [hblk, hv])
            · cases mem with
              | false => exact .inl (by simp [hblk, hv])
              | true =>
                  refine .inr ⟨blockOf key hkey, indexOf key, self.alloc (blockOf key hkey),
                    .inr ⟨hblk, rfl⟩, by simp [Thread.alloc], rfl, ?_⟩
                  simp [hblk, hv]
  · exact .inl rfl

/-- One operation. -/
theorem Op.run_later (op : Op) {s : State} (hs : s.thread.Stored) :
    s.thread.Later (op.run s).thread ∧ (op.run s).thread.Stored := by
  cases op with
  | keyCreate destr | keyDelete key =>
      simp only [Op.run]
      exact ⟨.refl _, hs⟩
  | getspecific key =>
      simp only [Op.run, Tsd.getspecific]
      split
      · split
        · rename_i hkey hstale
          have hsome := Thread.isSome_of_entry hstale.1
          refine ⟨⟨id, fun c i hd => .inr ?_⟩, hs.store hsome fun h => absurd rfl h⟩
          rw [Thread.entry_store hsome] at hd
          split at hd
          · exact absurd rfl hd
          · exact hd
        · exact ⟨.refl _, hs⟩
      · exact ⟨.refl _, hs⟩
  | setspecific key valp mem =>
      simp only [Op.run]
      rcases setspecific_cases key valp mem s.keys s.thread with h | ⟨cnt, inner, self, h⟩
      · rw [h]
        exact ⟨.refl _, hs⟩
      · obtain ⟨hself, hsome, hseq, hput⟩ := h
        -- A block that was just allocated is still empty.
        have hself' : s.thread.Later self ∧ self.Stored := by
          rcases hself with rfl | ⟨hnone, rfl⟩
          · exact ⟨.refl _, hs⟩
          · exact ⟨⟨id, fun c i hd => .inr (Thread.entry_alloc hnone ▸ hd)⟩,
              fun c i hd => by
                rw [Thread.entry_alloc hnone] at hd ⊢
                exact hs c i hd⟩
        rw [hput]
        exact ⟨hself'.1.trans (Thread.later_put hsome), hself'.2.store hsome fun _ => hseq⟩

/-- A list of operations. -/
theorem run_later (ops : List Op) {s : State} (hs : s.thread.Stored) :
    s.thread.Later (run ops s).thread ∧ (run ops s).thread.Stored := by
  induction ops generalizing s with
  | nil => exact ⟨.refl _, hs⟩
  | cons op ops ih =>
      obtain ⟨hl, hs'⟩ := op.run_later hs
      obtain ⟨hl', hs''⟩ := ih hs'
      exact ⟨hl.trans hl', hs''⟩

/-- A new thread has no value. -/
theorem Thread.init_data (cnt : Fin PTHREAD_KEY_L1_SIZE) (inner : Fin PTHREAD_KEY_L2_SIZE) :
    (Thread.init.entry cnt inner).data = 0 := by
  unfold Thread.entry Thread.init
  by_cases h : cnt.val = 0 <;> simp [h, Block.zero]

/-- In every state that operations reach, a value comes with `specific_used`. -/
theorem run_init (ops : List Op) (keys : ℕ → Key) :
    let s := run ops ⟨keys, Thread.init⟩
    s.thread.Stored ∧ (s.thread.specificUsed = false →
      ∀ cnt inner, (s.thread.entry cnt inner).data = 0) := by
  have hinit : Thread.init.Stored := fun cnt inner hd =>
    absurd (Thread.init_data cnt inner) hd
  obtain ⟨hl, hs⟩ := run_later ops (s := ⟨keys, Thread.init⟩) hinit
  refine ⟨hs, ?_⟩
  intro hu cnt inner
  by_contra hd
  rcases hl.data cnt inner hd with h | h
  · rw [hu] at h
    cases h
  · exact h (Thread.init_data cnt inner)

/-! ### The loops -/

/-- What is known of a visit, whatever the blocks that are missing. -/
structure Visit.Ok (v : Visit) : Prop where
  q : v.q = v.key + PTHREAD_KEY_L2_SIZE * v.holes
  slot : v.slot = 0
  call : v.call = (destructor (v.keys v.q) v.value).map fun destr => (destr, v.value.data)

/-- The invariant of a pass that has walked over the first `n` slots. -/
structure WalkInv (n : ℕ) (w : Walk) : Prop where
  q : w.q = n + PTHREAD_KEY_L2_SIZE * w.holes
  stored : w.st.thread.Stored
  cleared : w.st.thread.specificUsed = false →
    ∀ cnt inner, slotIndex cnt inner < n → (w.st.thread.entry cnt inner).data = 0
  visits : ∀ v ∈ w.visits, v.Ok

/-- Different entries have different indices. -/
theorem slotIndex_inj {c cnt : Fin PTHREAD_KEY_L1_SIZE} {i inner : Fin PTHREAD_KEY_L2_SIZE}
    (h : slotIndex c i = slotIndex cnt inner) : c = cnt ∧ i = inner := by
  have hi := i.isLt
  have hinner := inner.isLt
  simp only [slotIndex, PTHREAD_KEY_L2_SIZE] at h hi hinner
  exact ⟨Fin.ext (by omega), Fin.ext (by omega)⟩

variable {B : Behaviour} {cnt : Fin PTHREAD_KEY_L1_SIZE} {inner : Fin PTHREAD_KEY_L2_SIZE}
  {w : Walk} {n : ℕ}

/-- The test of the source selects the destructor of the entry, as a value that was
stored never has the sequence number of an unused key. -/
theorem selects_iff {key : Key} {d : KeyData} (h : unusedP d.seq = false) :
    (if d.seq = key.seq ∧ key.destr ≠ 0 then some (key.destr, d.data) else none) =
      (destructor key d).map fun destr => (destr, d.data) := by
  unfold destructor
  by_cases hseq : d.seq = key.seq
  · rw [hseq] at h
    by_cases hd : key.destr = 0#32 <;> simp [hseq, h, hd]
  · simp [hseq]

/-- The visit of a value that was stored. -/
theorem WalkInv.record_ok (hw : WalkInv (slotIndex cnt inner) w)
    (hd : (w.entry cnt inner).data ≠ 0) : (w.record cnt inner).Ok where
  q := hw.q
  slot := by
    simp only [Walk.record, Walk.clear]
    rw [Thread.entry_store (Thread.isSome_of_entry hd), if_pos ⟨rfl, rfl⟩]
  call := selects_iff (hw.stored cnt inner hd)

/-- The state after a turn of the inner loop that found a value: whatever the destructor
did, it kept what `Thread.Later` says. -/
theorem visit_later (hs : w.st.thread.Stored) (hd : (w.entry cnt inner).data ≠ 0) :
    (w.clear cnt inner).thread.Later (visit B cnt w inner).st.thread ∧
      (visit B cnt w inner).st.thread.Stored := by
  have hstored : (w.clear cnt inner).thread.Stored :=
    hs.store (Thread.isSome_of_entry hd) fun h => absurd rfl h
  simp only [Tsd.visit, if_neg hd]
  split
  · exact run_later _ hstored
  · exact ⟨.refl _, hstored⟩

/-- A turn of the inner loop leaves no value behind, unless the destructor set one. -/
theorem WalkInv.cleared_visit (hw : WalkInv (slotIndex cnt inner) w)
    (hd : (w.entry cnt inner).data ≠ 0)
    (hu : (visit B cnt w inner).st.thread.specificUsed = false)
    {c : Fin PTHREAD_KEY_L1_SIZE} {i : Fin PTHREAD_KEY_L2_SIZE}
    (hlt : slotIndex c i < slotIndex cnt inner + 1) :
    ((visit B cnt w inner).st.thread.entry c i).data = 0 := by
  obtain ⟨hl, -⟩ := visit_later (B := B) hw.stored hd
  have hu' : w.st.thread.specificUsed = false := by
    by_contra h
    have hused := hl.used (Bool.not_eq_false _ ▸ h)
    rw [hu] at hused
    cases hused
  by_contra hne
  have hold := (hl.data c i hne).resolve_left (by simp [hu])
  simp only [Walk.clear] at hold
  rw [Thread.entry_store (Thread.isSome_of_entry hd)] at hold
  split at hold
  · exact hold rfl
  · rename_i hother
    have hidx : slotIndex c i ≠ slotIndex cnt inner := fun h => hother (slotIndex_inj h)
    exact hold (hw.cleared hu' c i (by omega))

/-- One turn of the inner loop. -/
theorem WalkInv.visit (hw : WalkInv (slotIndex cnt inner) w) :
    WalkInv (slotIndex cnt inner + 1) (visit B cnt w inner) := by
  have hq : w.q + 1 = slotIndex cnt inner + 1 + PTHREAD_KEY_L2_SIZE * w.holes := by
    rw [hw.q]
    omega
  by_cases hd : (w.entry cnt inner).data = 0
  · simp only [Tsd.visit, if_pos hd]
    refine ⟨hq, hw.stored, fun hu c i hlt => ?_, hw.visits⟩
    by_cases heq : slotIndex c i = slotIndex cnt inner
    · obtain ⟨rfl, rfl⟩ := slotIndex_inj heq
      exact hd
    · exact hw.cleared hu c i (by omega)
  · have hvisits : (Tsd.visit B cnt w inner).visits = w.visits ++ [w.record cnt inner] := by
      simp only [Tsd.visit, if_neg hd]
    refine ⟨?_, (visit_later hw.stored hd).2, fun hu c i hlt => hw.cleared_visit hd hu hlt, ?_⟩
    · simp only [Tsd.visit, if_neg hd]
      exact hq
    · intro v hv
      rw [hvisits, List.mem_append, List.mem_singleton] at hv
      rcases hv with hv | rfl
      · exact hw.visits v hv
      · exact hw.record_ok hd

/-- One turn of the outer loop. -/
theorem WalkInv.visitBlock (hw : WalkInv (PTHREAD_KEY_L2_SIZE * cnt) w) :
    WalkInv (PTHREAD_KEY_L2_SIZE * (cnt + 1)) (visitBlock B w cnt) := by
  unfold Tsd.visitBlock
  split
  · have hloop := finRange_loop (P := fun i => WalkInv (PTHREAD_KEY_L2_SIZE * cnt + i))
      (f := Tsd.visit B cnt) (n := PTHREAD_KEY_L2_SIZE) hw
      fun inner w hi => @WalkInv.visit B cnt inner w hi
    rwa [Nat.mul_succ]
  · rename_i hnone
    refine ⟨?_, hw.stored, fun hu c i hlt => ?_, hw.visits⟩
    · -- The missing block has 16 keys, and `q` moves by 32.
      have hq := hw.q
      simp only [PTHREAD_KEY_L2_SIZE, PTHREAD_KEY_L1_SIZE, PTHREAD_KEYS_MAX] at hq ⊢
      omega
    · by_cases hc : c = cnt
      · subst hc
        by_contra hd
        exact hnone (Thread.isSome_of_entry hd)
      · refine hw.cleared hu c i ?_
        have hi := i.isLt
        have hne : c.val ≠ cnt.val := fun h => hc (Fin.ext h)
        simp only [slotIndex, PTHREAD_KEY_L2_SIZE] at hlt hi ⊢
        omega

/-- Every slot is walked over in a pass. -/
theorem slotIndex_lt (cnt : Fin PTHREAD_KEY_L1_SIZE) (inner : Fin PTHREAD_KEY_L2_SIZE) :
    slotIndex cnt inner < PTHREAD_KEY_L2_SIZE * PTHREAD_KEY_L1_SIZE := by
  have hc := cnt.isLt
  have hi := inner.isLt
  simp only [slotIndex, PTHREAD_KEY_L2_SIZE, PTHREAD_KEY_L1_SIZE, PTHREAD_KEYS_MAX] at hc hi ⊢
  omega

/-- One pass, from any state that the passes before left. -/
theorem pass_inv (hs : w.st.thread.Stored) (hv : ∀ v ∈ w.visits, v.Ok) :
    WalkInv (PTHREAD_KEY_L2_SIZE * PTHREAD_KEY_L1_SIZE) (pass B w) := by
  unfold pass
  refine finRange_loop (P := fun cnt => WalkInv (PTHREAD_KEY_L2_SIZE * cnt))
    (f := visitBlock B) ?_ fun cnt w hw => hw.visitBlock
  exact ⟨rfl, hs, fun _ _ _ h => absurd h (Nat.not_lt_zero _), hv⟩

/-- A pass is counted once. -/
theorem pass_passes (B : Behaviour) (w : Walk) : (pass B w).passes = w.passes + 1 := by
  have hvisit : ∀ cnt (w : Walk) inner, (visit B cnt w inner).passes = w.passes := by
    intro cnt w inner
    unfold visit
    split <;> rfl
  unfold pass
  refine finRange_loop (P := fun _ w' => w'.passes = w.passes + 1) (f := visitBlock B) ?_
    fun cnt w' hw' => ?_
  · rfl
  unfold visitBlock
  split
  · refine finRange_loop (P := fun _ w' => w'.passes = w.passes + 1) (f := visit B cnt) hw'
      fun inner w'' hw'' => ?_
    rw [hvisit, hw'']
  · exact hw'

/-- The `do` loop: at most `n` further passes, and fewer only when no value is left. -/
theorem passes_inv (n : ℕ) (hs : w.st.thread.Stored) (hv : ∀ v ∈ w.visits, v.Ok) :
    (∀ v ∈ (passes B n w).visits, v.Ok) ∧ (passes B n w).passes ≤ w.passes + n ∧
      ((passes B n w).passes < w.passes + n →
        ∀ cnt inner, ((passes B n w).st.thread.entry cnt inner).data = 0) := by
  induction n generalizing w with
  | zero => exact ⟨hv, le_rfl, fun h => absurd h (lt_irrefl _)⟩
  | succ n ih =>
      have hpass := pass_inv (B := B) hs hv
      have hcount := pass_passes B w
      simp only [passes]
      split
      · obtain ⟨h₁, h₂, h₃⟩ := ih hpass.stored hpass.visits
        exact ⟨h₁, by omega, fun h => h₃ (by omega)⟩
      · rename_i hu
        exact ⟨hpass.visits, by omega, fun _ cnt inner =>
          hpass.cleared (by simpa using hu) cnt inner (slotIndex_lt cnt inner)⟩

/-- The loops on a state that operations reach. -/
theorem walk_inv (ops : List Op) (keys : ℕ → Key) (B : Behaviour) :
    let w := walk B (run ops ⟨keys, Thread.init⟩)
    (∀ v ∈ w.visits, v.Ok) ∧ w.passes ≤ PTHREAD_DESTRUCTION_ITERATIONS ∧
      (w.passes < PTHREAD_DESTRUCTION_ITERATIONS →
        ∀ cnt inner, (w.st.thread.entry cnt inner).data = 0) := by
  obtain ⟨hs, hunused⟩ := run_init ops keys
  simp only [walk]
  split
  · have h := passes_inv (B := B) (w := ⟨run ops ⟨keys, Thread.init⟩, 0, 0, [], 0⟩)
      PTHREAD_DESTRUCTION_ITERATIONS hs (fun v hv => absurd hv List.not_mem_nil)
    simpa only [Nat.zero_add] using h
  · rename_i hu
    exact ⟨fun v hv => absurd hv List.not_mem_nil, Nat.zero_le _,
      fun _ => hunused (by simpa using hu)⟩

/-! ### The destruction -/

/-- The loops of `__pthread_dealloc_tsd`, for every history of the keys and of the thread
and all destructors. They are right exactly when every value that they find behind a
missing block is tested against an entry that says the same as its own. -/
theorem tsd_destroyed_iff (ops : List Op) (keys : ℕ → Key) (B : Behaviour) :
    Destroyed B (run ops ⟨keys, Thread.init⟩) ↔
      ∀ v ∈ (walk B (run ops ⟨keys, Thread.init⟩)).visits, v.Aligned := by
  obtain ⟨hok, hbound, hearly⟩ := walk_inv ops keys B
  constructor
  · intro h v hv
    right
    have hq := (hok v hv).q
    have hown := h.own v hv
    rw [(hok v hv).call, hq] at hown
    refine ⟨hq ▸ h.inside v hv, ?_⟩
    exact Option.map_injective (fun a b hab => (Prod.mk.inj hab).1) hown
  · intro h
    have hkey : ∀ v ∈ (walk B (run ops ⟨keys, Thread.init⟩)).visits, v.q < PTHREAD_KEYS_MAX ∧
        destructor (v.keys v.q) v.value = destructor (v.keys v.key) v.value := by
      intro v hv
      rw [(hok v hv).q]
      rcases h v hv with h0 | hshift
      · rw [h0, Nat.mul_zero, Nat.add_zero]
        exact ⟨slotIndex_lt v.cnt v.inner, rfl⟩
      · exact hshift
    exact ⟨fun v hv => by rw [(hok v hv).call, (hkey v hv).2], fun v hv => (hok v hv).slot,
      fun v hv => (hkey v hv).1, hbound, hearly⟩

/-- 512 live keys, the key `k` with the destructor `k + 1`, and nothing behind the
table. -/
def fullTable (key : ℕ) : Key :=
  if key < PTHREAD_KEYS_MAX then ⟨1, BitVec.ofNat 32 (key + 1)⟩ else ⟨0, 0⟩

/-- A thread that set only the keys 32 and 496, and destructors that do nothing. The value
of the key 32 goes to the destructor of the key 48, and for the value of the key 496 the
code reads the entry 960 of a table of 512. -/
theorem tsd_wrong_destructor :
    (walk (fun _ _ _ _ => []) (run [.setspecific 32 7 true, .setspecific 496 9 true]
        ⟨fullTable, Thread.init⟩)).visits.map (fun v => (v.key, v.q, v.call)) =
      [(32, 48, some (49, 7)), (496, 960, none)] ∧
    ¬ Destroyed (fun _ _ _ _ => []) (run [.setspecific 32 7 true, .setspecific 496 9 true]
        ⟨fullTable, Thread.init⟩) := by
  have hrun : (walk (fun _ _ _ _ => []) (run [.setspecific 32 7 true, .setspecific 496 9 true]
      ⟨fullTable, Thread.init⟩)).visits.map (fun v => (v.key, v.q, v.call)) =
      [(32, 48, some (49, 7)), (496, 960, none)] := by
    decide +kernel
  refine ⟨hrun, ?_⟩
  intro h
  have hmem : (496, 960, none) ∈ (walk (fun _ _ _ _ => [])
      (run [.setspecific 32 7 true, .setspecific 496 9 true]
        ⟨fullTable, Thread.init⟩)).visits.map (fun v => (v.key, v.q, v.call)) := by
    rw [hrun]
    exact List.mem_cons_of_mem _ (List.mem_cons_self ..)
  obtain ⟨v, hv, heq⟩ := List.mem_map.mp hmem
  have hq : v.q = 960 := (Prod.mk.inj (Prod.mk.inj heq).2).1
  have hlt := h.inside v hv
  rw [hq] at hlt
  exact absurd hlt (by decide)

end Hlpt.Tsd
