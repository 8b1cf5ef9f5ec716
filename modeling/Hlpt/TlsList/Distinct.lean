import Hlpt.Lib.Links
import Hlpt.TlsList.Model

/-!
# `Hlpt.TlsList.Distinct`: no TCB is handed out twice

`alloc_tls` reads the first TCB of the list and its successor, and then compares only the
first one. Between the read and the compare-and-swap that TCB may be taken off, its successor
as well, and the first one put back. Then the compare-and-swap succeeds and the successor, a
TCB in use, is the head of the list again.

As long as this does not happen (`SameNext`), `Inv` holds: the first words lead from
`tls_list` through the free blocks to NULL, and every block is free or belongs to one
descriptor, which alone writes its first word.

* `tls_distinct`: the free blocks are distinct, none of them is held, and no block is held
  twice.
* `tls_handed_out_twice`: a run in which a block that is held is at the head of the list, and
  then is held twice.
-/

set_option autoImplicit false

namespace Hlpt.TlsList

open Hlpt.Lib

universe u

variable {T : Type u} {main t : T} {c : Choice} {m m' : Mem} {pc pc' : Pc} {a : Addr}

/-- The pointers of the free list. -/
def Mem.next (m : Mem) (a : Addr) : Option Addr := some (m.word a)

/-- The blocks reachable from `tls_list` are distinct, none of them is held by a descriptor,
and no block is held by two. -/
structure Distinct (s : Global T Mem Pc) : Prop where
  free : ∃ l, Seg s.mem.next s.mem.tlsList l 0 ∧ l.Nodup ∧ ∀ a ∈ l, ∀ t, s.loc t ≠ .held a
  held : ∀ t u a, s.loc t = .held a → s.loc u = .held a → t = u

/-- A compare-and-swap of `alloc_tls` that finds the head it has read finds it with the
successor that was read. -/
def SameNext (s : Global T Mem Pc) (a : T × Choice) : Prop :=
  match s.loc a.1 with
  | .allocCas b next => s.mem.tlsList = b → s.mem.word b = next
  | _ => True

/-! ### The blocks of the descriptors -/

/-- The block that belongs to a descriptor: from the compare-and-swap that takes it off the
list, or its allocation, to the one that puts it back. -/
def Pc.block : Pc → Option Addr
  | .allocTls a => if a ≠ 0 then some a else none
  | .setup a | .held a | .pushHead a | .pushStore a _ | .pushCas a _ => some a
  | .unused | .allocHead | .allocNext _ | .allocCas .. => none

/-- What a descriptor knows at its control point. -/
def PcOk (m : Mem) : Pc → Prop
  | .allocNext a | .allocCas a _ => a ≠ 0
  | .pushCas a tmp => m.word a = tmp
  | _ => True

/-- The free blocks, and the others. -/
structure Inv (l : List Addr) (s : Global T Mem Pc) : Prop where
  seg : Seg s.mem.next s.mem.tlsList l 0
  nodup : l.Nodup
  known : ∀ a ∈ l, a ∈ s.mem.blocks
  null : 0 ∉ l
  free : ∀ a ∈ l, ∀ t, (s.loc t).block ≠ some a
  block : ∀ t a, (s.loc t).block = some a → a ∈ s.mem.blocks ∧ a ≠ 0
  one : ∀ t u a, (s.loc t).block = some a → (s.loc u).block = some a → t = u
  pc : ∀ t, PcOk s.mem (s.loc t)

/-- What one step does to the list and to the block of the descriptor. -/
inductive Effect (m m' : Mem) (pc pc' : Pc) : Prop
  /-- Only the control point changes, and no block with it. -/
  | quiet (hm : m' = m) (hb : pc'.block = pc.block)
  /-- The head of the list becomes the block of the descriptor. -/
  | pop (hne : m.tlsList ≠ 0) (next : Addr) (hpc : pc = .allocCas m.tlsList next)
      (hm : m' = { m with tlsList := next }) (hpc' : pc' = .allocTls m.tlsList)
  /-- A new block does. -/
  | new (a : Addr) (word : Addr) (hne : a ≠ 0) (hnew : a ∉ m.blocks) (hb : pc.block = none)
      (hm : m' = { m with
        word := Function.update m.word a word
        blocks := insert a m.blocks })
      (hpc' : pc' = .setup a)
  /-- The first word of its block is written. -/
  | write (a : Addr) (word : Addr) (hb : pc.block = some a) (hb' : pc'.block = some a)
      (hm : m' = { m with word := Function.update m.word a word })
  /-- The block becomes the head of the list. -/
  | push (a : Addr) (hpc : pc = .pushCas a m.tlsList) (hm : m' = { m with tlsList := a })
      (hpc' : pc' = .unused)

/-- Every step does one of these, and the descriptor knows what it has to know. -/
theorem exec_effect (h : exec t c m pc = some (m', pc')) (hok : PcOk m pc) :
    Effect m m' pc pc' ∧ PcOk m' pc' := by
  cases pc with
  | unused =>
      cases h
      exact ⟨.quiet rfl rfl, trivial⟩
  | allocHead =>
      cases h
      by_cases hhead : m.tlsList = 0
      · rw [if_pos hhead]
        exact ⟨.quiet rfl rfl, trivial⟩
      · rw [if_neg hhead]
        exact ⟨.quiet rfl rfl, hhead⟩
  | allocNext a =>
      cases h
      exact ⟨.quiet rfl rfl, hok⟩
  -- The head is taken off the list, whatever is its successor by now.
  | allocCas a next =>
      simp only [exec] at h
      split at h
      · rename_i hhead
        cases h
        subst hhead
        exact ⟨.pop hok next rfl rfl rfl, trivial⟩
      · cases h
        exact ⟨.quiet rfl rfl, trivial⟩
  | allocTls a =>
      simp only [exec] at h
      split at h
      · rename_i ha
        cases h
        exact ⟨.quiet rfl (if_pos ha).symm, trivial⟩
      rename_i ha
      split at h
      · cases h
        exact ⟨.quiet rfl (if_neg ha).symm, trivial⟩
      rename_i hne
      split at h
      · cases h
      · rename_i hnew
        cases h
        exact ⟨.new c.fresh c.word hne hnew (if_neg ha) rfl rfl, trivial⟩
  | setup a =>
      cases h
      exact ⟨.write a a rfl rfl rfl, trivial⟩
  | held a | pushHead a =>
      cases h
      exact ⟨.quiet rfl rfl, trivial⟩
  | pushStore a tmp =>
      cases h
      exact ⟨.write a tmp rfl rfl rfl, Function.update_self _ _ _⟩
  | pushCas a tmp =>
      simp only [exec] at h
      split at h
      · rename_i hhead
        cases h
        subst hhead
        exact ⟨.push a rfl rfl rfl, trivial⟩
      · cases h
        exact ⟨.quiet rfl rfl, trivial⟩

/-- What a descriptor knows concerns the first word of its own block only. -/
theorem PcOk.frame (h : PcOk m pc)
    (heq : ∀ a, pc.block = some a → m'.word a = m.word a) : PcOk m' pc := by
  cases pc with
  | pushCas a tmp => exact (heq a rfl).trans h
  | _ => exact h

/-! ### One step -/

variable [DecidableEq T] {s : Global T Mem Pc} {l : List Addr}

namespace Inv

/-- A step that changes no block. -/
theorem quiet (hs : Inv l s) (hb : pc'.block = (s.loc t).block) (hpc : PcOk s.mem pc') :
    Inv l ⟨s.mem, Function.update s.loc t pc'⟩ := by
  have hsame : ∀ u, (Function.update s.loc t pc' u).block = (s.loc u).block := by
    refine forall_loc_iff (P := fun u (q : Pc) => q.block = (s.loc u).block) |>.mpr ⟨hb, ?_⟩
    exact fun _ _ => rfl
  refine ⟨hs.seg, hs.nodup, hs.known, hs.null, fun a ha u => ?_, fun u a hu => ?_,
    fun u v a hu hv => ?_, forall_loc_iff.mpr ⟨hpc, fun u _ => hs.pc u⟩⟩
  · show (Function.update s.loc t pc' u).block ≠ some a
    rw [hsame]
    exact hs.free a ha u
  · exact hs.block u a ((hsame u).symm.trans hu)
  · exact hs.one u v a ((hsame u).symm.trans hu) ((hsame v).symm.trans hv)

/-- The block that is taken off the list belongs to the descriptor now. -/
theorem pop (hs : Inv l s) {next : Addr} (hne : s.mem.tlsList ≠ 0)
    (hnext : s.mem.word s.mem.tlsList = next) :
    ∃ l', Inv l' ⟨{ s.mem with tlsList := next },
      Function.update s.loc t (.allocTls s.mem.tlsList)⟩ := by
  have hseg := hs.seg
  cases l with
  | nil => exact absurd (Seg.nil_iff.mp hseg) hne
  | cons a l =>
      obtain ⟨ha, b, hb, hrest⟩ := Seg.cons_iff.mp hseg
      obtain ⟨hal, hnodup⟩ := List.nodup_cons.mp hs.nodup
      have hmine : ∀ x, (Pc.allocTls s.mem.tlsList).block = some x → x = a := by
        intro x hx
        exact (Option.some.inj ((if_pos hne).symm.trans hx)).symm.trans ha
      obtain rfl : b = next := by
        rw [← ha] at hb
        exact (Option.some.inj hb).symm.trans hnext
      have hfree := hs.free a List.mem_cons_self
      refine ⟨l, hrest, hnodup, fun x hx => hs.known x (List.mem_cons_of_mem _ hx),
        fun h0 => hs.null (List.mem_cons_of_mem _ h0), fun x hx => ?_, ?_, fun u v x => ?_, ?_⟩
      · refine forall_loc_iff (P := fun u (q : Pc) => q.block ≠ some x) |>.mpr ⟨?_, fun u _ => ?_⟩
        · intro hmem
          exact hal (hmine x hmem ▸ hx)
        · exact hs.free x (List.mem_cons_of_mem _ hx) u
      · refine forall_loc_iff (P := fun u (q : Pc) => ∀ x, q.block = some x →
          x ∈ s.mem.blocks ∧ x ≠ 0) |>.mpr ⟨fun x hx => ?_, fun u _ => hs.block u⟩
        obtain rfl := hmine x hx
        exact ⟨hs.known x List.mem_cons_self, fun h0 => hs.null (h0 ▸ List.mem_cons_self)⟩
      · refine unique_update (P := fun q : Pc => q.block = some x) (fun u v => hs.one u v x)
          fun hx => .inr fun u _ => ?_
        obtain rfl := hmine x hx
        exact hfree u
      · exact forall_loc_iff.mpr ⟨trivial, fun u _ => (hs.pc u).frame fun _ _ => rfl⟩

/-- So does a new block. -/
theorem new (hs : Inv l s) {a word : Addr} (hne : a ≠ 0) (hnew : a ∉ s.mem.blocks) :
    Inv l ⟨{ s.mem with
      word := Function.update s.mem.word a word
      blocks := insert a s.mem.blocks }, Function.update s.loc t (.setup a)⟩ := by
  have hother : ∀ x ∈ s.mem.blocks, x ≠ a := fun x hx he => hnew (he ▸ hx)
  have hword : ∀ x ∈ s.mem.blocks, Function.update s.mem.word a word x = s.mem.word x :=
    fun x hx => Function.update_of_ne (hother x hx) _ _
  refine ⟨hs.seg.congr fun x hx => ?_, hs.nodup, fun x hx => ?_, hs.null, fun x hx => ?_, ?_,
    fun u v x => ?_, ?_⟩
  · exact congrArg some (hword x (hs.known x hx))
  · exact Finset.mem_insert_of_mem (hs.known x hx)
  · refine forall_loc_iff (P := fun u (q : Pc) => q.block ≠ some x) |>.mpr ⟨?_, fun u _ => ?_⟩
    · intro hmem
      exact hother x (hs.known x hx) (Option.some.inj hmem).symm
    · exact hs.free x hx u
  · refine forall_loc_iff (P := fun u (q : Pc) => ∀ x, q.block = some x →
      x ∈ insert a s.mem.blocks ∧ x ≠ 0) |>.mpr ⟨fun x hx => ?_, fun u _ x hx => ?_⟩
    · cases hx
      exact ⟨Finset.mem_insert_self _ _, hne⟩
    · obtain ⟨hmem, hx0⟩ := hs.block u x hx
      exact ⟨Finset.mem_insert_of_mem hmem, hx0⟩
  · refine unique_update (P := fun q : Pc => q.block = some x) (fun u v => hs.one u v x)
      fun hx => .inr fun u _ hu => ?_
    cases hx
    exact hnew (hs.block u _ hu).1
  · refine forall_loc_iff.mpr ⟨trivial, fun u _ => (hs.pc u).frame fun x hx => ?_⟩
    exact hword x (hs.block u x hx).1

/-- The first word of a block is written by the descriptor that has it. -/
theorem write (hs : Inv l s) {a word : Addr} (hb : (s.loc t).block = some a)
    (hb' : pc'.block = some a)
    (hpc : PcOk { s.mem with word := Function.update s.mem.word a word } pc') :
    Inv l ⟨{ s.mem with word := Function.update s.mem.word a word },
      Function.update s.loc t pc'⟩ := by
  have hsame : ∀ u, (Function.update s.loc t pc' u).block = (s.loc u).block :=
    forall_loc_iff (P := fun u (q : Pc) => q.block = (s.loc u).block) |>.mpr
      ⟨hb'.trans hb.symm, fun _ _ => rfl⟩
  have hword : ∀ x, x ≠ a → Function.update s.mem.word a word x = s.mem.word x :=
    fun x hx => Function.update_of_ne hx _ _
  refine ⟨hs.seg.congr fun x hx => ?_, hs.nodup, hs.known, hs.null, fun x hx u => ?_,
    fun u x hu => ?_, fun u v x hu hv => ?_, ?_⟩
  · have hxa : x ≠ a := fun he => hs.free x hx t (he ▸ hb)
    exact congrArg some (hword x hxa)
  · show (Function.update s.loc t pc' u).block ≠ some x
    rw [hsame]
    exact hs.free x hx u
  · exact hs.block u x ((hsame u).symm.trans hu)
  · exact hs.one u v x ((hsame u).symm.trans hu) ((hsame v).symm.trans hv)
  · refine forall_loc_iff.mpr ⟨hpc, fun u hut => (hs.pc u).frame fun x hx => ?_⟩
    refine hword x ?_
    rintro rfl
    exact hut (hs.one u t x hx hb)

/-- A block that is put back is free. -/
theorem push (hs : Inv l s) {a : Addr} (hpc : s.loc t = .pushCas a s.mem.tlsList) :
    Inv (a :: l) ⟨{ s.mem with tlsList := a }, Function.update s.loc t .unused⟩ := by
  have hb : (s.loc t).block = some a := by
    rw [hpc]
    rfl
  have hword : s.mem.word a = s.mem.tlsList := by
    have hok := hs.pc t
    rw [hpc] at hok
    exact hok
  obtain ⟨hmem, hne⟩ := hs.block t a hb
  have hal : a ∉ l := fun ha => hs.free a ha t hb
  refine ⟨.cons (congrArg some hword) hs.seg, List.nodup_cons.mpr ⟨hal, hs.nodup⟩,
    List.forall_mem_cons.mpr ⟨hmem, hs.known⟩, ?_, fun x hx => ?_, ?_, fun u v x => ?_, ?_⟩
  · intro h0
    rcases List.mem_cons.mp h0 with rfl | h0
    · exact hne rfl
    · exact hs.null h0
  · refine (forall_loc_iff (P := fun u (q : Pc) => q.block ≠ some x)).mpr
      ⟨nofun, fun u hut hu => ?_⟩
    rcases List.mem_cons.mp hx with rfl | hx
    · exact hut (hs.one u t x hu hb)
    · exact hs.free x hx u hu
  · exact forall_loc_iff (P := fun u (q : Pc) => ∀ x, q.block = some x →
      x ∈ s.mem.blocks ∧ x ≠ 0) |>.mpr ⟨nofun, fun u _ => hs.block u⟩
  · refine unique_update (P := fun q : Pc => q.block = some x) (fun u v => hs.one u v x)
      fun hx => ?_
    cases hx
  · exact forall_loc_iff.mpr ⟨trivial, fun u _ => (hs.pc u).frame fun _ _ => rfl⟩

/-- One step keeps the blocks apart, if it finds the same successor. -/
theorem step (hs : Inv l s) (hok : SameNext s (t, c))
    (h : exec t c s.mem (s.loc t) = some (m, pc)) :
    ∃ l', Inv l' ⟨m, Function.update s.loc t pc⟩ := by
  obtain ⟨heffect, hpc⟩ := exec_effect h (hs.pc t)
  cases heffect with
  | quiet hm hb =>
      subst hm
      exact ⟨l, hs.quiet hb hpc⟩
  | pop hne next hloc hm hpc' =>
      subst hm hpc'
      have hnext : s.mem.word s.mem.tlsList = next := by
        rw [SameNext, hloc] at hok
        exact hok rfl
      exact hs.pop hne hnext
  | new a word hne hnew hb hm hpc' =>
      subst hm hpc'
      exact ⟨l, hs.new hne hnew⟩
  | write a word hb hb' hm =>
      subst hm
      exact ⟨l, hs.write hb hb' hpc⟩
  | push a hloc hm hpc' =>
      subst hm hpc'
      exact ⟨a :: l, hs.push hloc⟩

end Inv

/-- The invariant holds in every state of a run that finds the same successors. -/
theorem inv_of_reach (h : (machine main).ReachVia SameNext s) : ∃ l, Inv l s := by
  refine Exec.invariant (P := fun s => ∃ l, Inv l s) (fun s hs => ?_)
    (fun s t c m p ⟨l, hs⟩ hok he => hs.step hok he) h
  obtain ⟨a, word, hne, hm, hl⟩ := hs
  have hblock : ∀ t b, (s.loc t).block = some b → t = main ∧ b = a := by
    intro t b ht
    rw [hl] at ht
    split at ht
    · rename_i hmain
      exact ⟨hmain, (Option.some.inj ht).symm⟩
    · cases ht
  refine ⟨[], ?_, List.nodup_nil, nofun, nofun, nofun, fun t b ht => ?_, fun t u b ht hu => ?_,
    fun t => ?_⟩
  · rw [hm]
    exact .nil 0
  · obtain ⟨-, rfl⟩ := hblock t b ht
    rw [hm]
    exact ⟨Finset.mem_singleton_self _, hne⟩
  · exact (hblock t b ht).1.trans (hblock u b hu).1.symm
  · rw [hl]
    split <;> trivial

/-! ### The free list -/

/-- In every run whose compare-and-swaps in `alloc_tls` find the successor that was read, the
free blocks are distinct, none of them is held by a descriptor, and no block is held by two
descriptors. -/
theorem tls_distinct (h : (machine main).ReachVia SameNext s) : Distinct s := by
  obtain ⟨l, hs⟩ := inv_of_reach h
  have hheld : ∀ {t a}, s.loc t = .held a → (s.loc t).block = some a := by
    intro t a ht
    rw [ht]
    rfl
  constructor
  · exact ⟨l, hs.seg, hs.nodup, fun a ha t ht => hs.free a ha t (hheld ht)⟩
  · exact fun t u a ht hu => hs.one t u a (hheld ht) (hheld hu)

instance (s : Global T Mem Pc) (a : T × Choice) : Decidable (SameNext s a) := by
  unfold SameNext
  split <;> infer_instance

/-- The main thread 0 and three other descriptors. -/
def start : Global (Fin 4) Mem Pc :=
  ⟨⟨0, fun _ => 0, {0x1000}⟩, fun t => if t = 0 then .held 0x1000 else .unused⟩

theorem start_isInit : IsInit 0 start := ⟨0x1000, fun _ => 0, by decide, rfl, fun _ => rfl⟩

/-- A new TCB for the descriptor `t`. -/
def allocNew (t : Fin 4) (a : Addr) : List (Fin 4 × Choice) :=
  [(t, {}), (t, {}), (t, { fresh := a }), (t, {})]

/-- The next `n` accesses for the descriptor `t`. -/
def accesses (t : Fin 4) (n : ℕ) : List (Fin 4 × Choice) := List.replicate n (t, {})

/-- A TCB from the list. -/
def allocFree (t : Fin 4) : List (Fin 4 × Choice) := accesses t 6

/-- The TCB goes back to the list. -/
def dealloc (t : Fin 4) : List (Fin 4 × Choice) := accesses t 4

/-- Two blocks are put back, and two descriptors get them again. -/
theorem tls_distinct_four : ∃ s : Global (Fin 4) Mem Pc, (machine 0).ReachVia SameNext s ∧
    (s.loc 3 = .held 0x2000 ∧ s.loc 2 = .held 0x3000) ∧ Distinct s := by
  obtain ⟨s, hs, hp⟩ := (machine (0 : Fin 4)).exists_reachVia SameNext start_isInit
    (allocNew 1 0x2000 ++ allocNew 2 0x3000 ++ dealloc 2 ++ dealloc 1 ++ allocFree 3 ++
      allocFree 2)
    (fun s => s.loc 3 = .held 0x2000 ∧ s.loc 2 = .held 0x3000) (by decide)
  exact ⟨s, hs, hp, tls_distinct hs⟩

/-- The list holds two blocks. The descriptor 3 reads the first one and its successor. Then
1 and 2 take both blocks off, and 1 puts its one back. The compare-and-swap of 3 succeeds, and
the block of 2 is the head of the list. In the end 1 gets it as well. -/
theorem tls_handed_out_twice :
    (∃ s : Global (Fin 4) Mem Pc, (machine 0).Reach s ∧
      (s.mem.tlsList = 0x3000 ∧ s.loc 2 = .held 0x3000) ∧ ¬ Distinct s) ∧
    ∃ s : Global (Fin 4) Mem Pc, (machine 0).Reach s ∧
      (s.loc 1 = .held 0x3000 ∧ s.loc 2 = .held 0x3000) ∧ ¬ Distinct s := by
  constructor
  · obtain ⟨s, hs, hhead, hheld⟩ := (machine (0 : Fin 4)).exists_reach start_isInit
      (allocNew 1 0x2000 ++ allocNew 2 0x3000 ++ dealloc 2 ++ dealloc 1 ++
        accesses 3 3 ++ allocFree 1 ++ allocFree 2 ++ dealloc 1 ++ accesses 3 1)
      (fun s => s.mem.tlsList = 0x3000 ∧ s.loc 2 = .held 0x3000) (by decide)
    refine ⟨s, hs, ⟨hhead, hheld⟩, fun hd => ?_⟩
    obtain ⟨l, hseg, -, hfree⟩ := hd.free
    rw [hhead] at hseg
    cases hseg with
    | cons h hl => exact hfree _ List.mem_cons_self 2 hheld
  · obtain ⟨s, hs, h1, h2⟩ := (machine (0 : Fin 4)).exists_reach start_isInit
      (allocNew 1 0x2000 ++ allocNew 2 0x3000 ++ dealloc 2 ++ dealloc 1 ++
        accesses 3 3 ++ allocFree 1 ++ allocFree 2 ++ dealloc 1 ++ accesses 3 1 ++
        allocFree 1)
      (fun s => s.loc 1 = .held 0x3000 ∧ s.loc 2 = .held 0x3000) (by decide)
    refine ⟨s, hs, ⟨h1, h2⟩, fun hd => ?_⟩
    exact absurd (hd.held 1 2 _ h1 h2) (by decide)

end Hlpt.TlsList
