import Hlpt.Create.Model
import Hlpt.Lib.Bits

/-!
# `Hlpt.Create.Stack`: the sizes of a stack of the library

`pt_allocate` rounds the stack size and the guard size to pages and maps their sum. The
setters accept every size from a minimum on, and the two roundings and the sum are 32-bit
arithmetic. A guard size of more than `2 ^ 32 - vm_page_size` is rounded to 0, and the thread
gets no guard area. When the stack size or the sum wraps, the guard area covers the whole
mapping, with the descriptor in it.

* `roundupPage_toNat`: the rounding of a size that does not wrap.
* `inStack_of_fits`: the descriptor is above the guard area then.
* `stack_arithmetic_iff`: exactly then everything about the stack is right.
* `guard_wraps`: a thread that asked for a guard area and has none.
-/

set_option autoImplicit false

namespace Hlpt.Create

open Hlpt.Lib

/-- `vm_page_size` as a number. -/
abbrev Env.page (E : Env) : ℕ := 2 ^ E.pageShift

/-- The next multiple of the page size. -/
def Env.ceilPage (E : Env) (n : ℕ) : ℕ := (n + E.page - 1) / E.page * E.page

/-- An attribute object with no stack of the program, with sizes that the setters accept. -/
structure Accepted (E : Env) (attr : Attr) : Prop where
  stack : attr.stack = 0
  stacksize : (pthreadAttrSetstacksize attr attr.stacksize).1 = .ok
  guardsize : attr.guardsize = 0 ∨ (pthreadAttrSetguardsize E attr attr.guardsize).1 = .ok

/-- The sizes that are computed for a stack fit into 32 bits. -/
structure Fits (E : Env) (attr : Attr) : Prop where
  stacksize : attr.stacksize.toNat + E.page ≤ 2 ^ 32
  guardsize : attr.guardsize.toNat + E.page ≤ 2 ^ 32
  sum : E.ceilPage attr.stacksize.toNat + E.ceilPage attr.guardsize.toNat < 2 ^ 32

/-- What a thread may expect of its stack, for the descriptor `d` at `pt` and the mapping at
`base`. -/
structure StackOk (E : Env) (attr : Attr) (base pt : Addr) (d : Desc) : Prop where
  /-- No size has wrapped. -/
  stacksize : attr.stacksize.toNat + E.page - 1 < 2 ^ 32
  guardsize : attr.guardsize.toNat + E.page - 1 < 2 ^ 32
  sum : (roundupPage E attr.stacksize).toNat + (attr.guard E).toNat < 2 ^ 32
  /-- The stack is as large as requested, in the mapping and above the guard area. -/
  usable : attr.stacksize.toNat ≤ d.stacksize.toNat
  aboveGuard : base.toNat + (attr.guard E).toNat ≤ d.stack.toNat
  inMapping : d.stack.toNat + d.stacksize.toNat ≤ base.toNat + (attr.mapSize E).toNat
  /-- So is the descriptor. -/
  desc : InStack E attr base pt
  /-- The release of the stack is the release of the mapping. -/
  usrStack : d.usrStack = false
  freeRange : d.freeRange = (base, attr.mapSize E)
  cleanupRange : d.cleanupRange true = (base, attr.mapSize E)

variable {E : Env} {K : Answers} {attr : Attr} {s s' : State} {base pt p : Addr}

/-! ### The roundings -/

theorem vmPageSize_toNat (E : Env) : E.vmPageSize.toNat = E.page := by
  rw [Env.vmPageSize, BitVec.toNat_twoPow]
  exact Nat.mod_eq_of_lt (Nat.pow_lt_pow_right (by decide) E.pageShift_lt)

theorem page_pos (E : Env) : 0 < E.page := Nat.two_pow_pos _

/-- A size that does not wrap is rounded up to the next multiple of the page size. -/
theorem roundupPage_toNat {size : BitVec 32} (h : size.toNat + E.page ≤ 2 ^ 32) :
    (roundupPage E size).toNat = E.ceilPage size.toNat := by
  have hpage := vmPageSize_toNat E
  have hpos := page_pos E
  have hlt := E.vmPageSize.isLt
  have hsum : (size + E.vmPageSize - 1).toNat = size.toNat + E.page - 1 := by
    rw [BitVec.toNat_sub, BitVec.toNat_add, hpage]
    show (2 ^ 32 - 1 + (size.toNat + E.page) % 2 ^ 32) % 2 ^ 32 = _
    omega
  rw [roundupPage, Env.ceilPage, ← hsum]
  exact toNat_and_not E.pageShift_lt _

theorem le_ceilPage (E : Env) (n : ℕ) : n ≤ E.ceilPage n := by
  have hpos := page_pos E
  have hdiv := Nat.div_add_mod (n + E.page - 1) E.page
  have hmod := Nat.mod_lt (n + E.page - 1) hpos
  rw [Env.ceilPage, Nat.mul_comm]
  omega

theorem ceilPage_zero (E : Env) : E.ceilPage 0 = 0 := by
  have hpos := page_pos E
  rw [Env.ceilPage, Nat.zero_add, Nat.div_eq_of_lt (by omega), Nat.zero_mul]

/-- The guard size, which stays 0. -/
theorem guard_toNat (h : attr.guardsize.toNat + E.page ≤ 2 ^ 32) :
    (attr.guard E).toNat = E.ceilPage attr.guardsize.toNat := by
  unfold Attr.guard
  split
  · exact roundupPage_toNat h
  · next h0 =>
      rw [not_not.mp h0]
      exact (ceilPage_zero E).symm

/-- A stack size that the setter accepts is the one that is used. -/
theorem Accepted.size (h : Accepted E attr) :
    PTHREAD_STACK_MIN.toNat ≤ attr.stacksize.toNat ∧ attr.size E = attr.stacksize := by
  have hsize := h.stacksize
  unfold pthreadAttrSetstacksize at hsize
  split at hsize
  · cases hsize
  · next hlt =>
      have hle : PTHREAD_STACK_MIN.toNat ≤ attr.stacksize.toNat :=
        BitVec.le_def.mp (BitVec.not_lt.mp hlt)
      refine ⟨hle, if_pos ?_⟩
      intro h0
      rw [h0] at hle
      exact absurd hle (by decide)

/-- The size of the mapping. -/
theorem Fits.mapSize (h : Fits E attr) (ha : Accepted E attr) : (attr.mapSize E).toNat =
    E.ceilPage attr.stacksize.toNat + E.ceilPage attr.guardsize.toNat := by
  rw [Attr.mapSize, ha.size.2, BitVec.toNat_add, roundupPage_toNat h.stacksize,
    guard_toNat h.guardsize]
  exact Nat.mod_eq_of_lt h.sum

/-! ### The descriptor -/

/-- The place of the descriptor, below the end of the mapping. -/
theorem placeDesc_toNat {top : ℕ} {stack : Addr} (htop : stack.toNat = top % 2 ^ 32)
    (hle : top ≤ 2 ^ 32) (hroom : E.sizeofPthread.toNat ≤ top) :
    (placeDesc E stack).toNat =
      (top - E.sizeofPthread.toNat) / 2 ^ E.alignShift * 2 ^ E.alignShift := by
  have hfits : E.sizeofPthread.toNat + 2 ^ E.alignShift ≤ 16384 := E.fits
  have halign : E.alignShift < 32 := by
    by_contra hge
    have hpow : 2 ^ 32 ≤ 2 ^ E.alignShift := Nat.pow_le_pow_right (by decide) (by omega)
    omega
  have hsub : (stack - E.sizeofPthread).toNat = top - E.sizeofPthread.toNat := by
    have hpos := E.sizeofPthread_pos
    have hlt := E.sizeofPthread.isLt
    rw [BitVec.toNat_sub, htop]
    omega
  rw [placeDesc, ← hsub]
  exact toNat_and_not halign _

/-- When everything fits, the descriptor lies above the guard area. -/
theorem inStack_of_fits (h : Fits E attr) (ha : Accepted E attr)
    (hmap : base.toNat + (attr.mapSize E).toNat ≤ 2 ^ 32) :
    InStack E attr base (placeDesc E (base + attr.mapSize E)) := by
  have hsize := h.mapSize ha
  have hfits : E.sizeofPthread.toNat + 2 ^ E.alignShift ≤ 16384 := E.fits
  have hmin : 16384 ≤ attr.stacksize.toNat := ha.size.1
  have hceil := le_ceilPage E attr.stacksize.toNat
  have hpos := Nat.two_pow_pos E.alignShift
  have hplace := placeDesc_toNat (BitVec.toNat_add base (attr.mapSize E)) hmap (E := E) (by omega)
  -- The descriptor is rounded down by less than its alignment.
  have hdown := Nat.div_mul_le_self
    (base.toNat + (attr.mapSize E).toNat - E.sizeofPthread.toNat) (2 ^ E.alignShift)
  have hdiv := Nat.div_add_mod
    (base.toNat + (attr.mapSize E).toNat - E.sizeofPthread.toNat) (2 ^ E.alignShift)
  have hmod := Nat.mod_lt
    (base.toNat + (attr.mapSize E).toNat - E.sizeofPthread.toNat) (Nat.two_pow_pos E.alignShift)
  rw [Nat.mul_comm] at hdiv
  unfold InStack
  rw [hplace, guard_toNat h.guardsize]
  constructor <;> omega

/-! ### What `pt_allocate` leaves in the descriptor -/

/-- The fields of the descriptor that say where the stack is. -/
def Desc.SameStack (d d' : Desc) : Prop :=
  d'.flags = d.flags ∧ d'.stack = d.stack ∧ d'.stacksize = d.stacksize ∧
    d'.guardsize = d.guardsize

/-- `alloc_tls` changes only the TCB of a descriptor. -/
theorem allocTls_sameStack (K : Answers) (pt : Addr) (ktid : Port) (s : State) :
    (s.desc pt).SameStack ((allocTls K pt ktid s).2.desc pt) := by
  unfold allocTls popTls
  simp only
  split_ifs <;> simp [State.setDesc, State.setTcb, Desc.SameStack]

/-- The steps from `thread_create` on leave them alone, and succeed for no other descriptor. -/
theorem acquire_some (h : acquire K pt s = (some p, s')) :
    p = pt ∧ (s.desc pt).SameStack (s'.desc pt) := by
  unfold acquire at h
  split at h
  · cases h
  · next ktid _ =>
      simp only at h
      split at h
      · cases h
      · split at h
        · cases h
        · next s₁ halloc =>
            obtain ⟨hp, rfl⟩ := Prod.mk.inj h
            have hsame := allocTls_sameStack K pt ktid
              ((s.threadCreate ktid).hurdThreadSigstate ktid)
            rw [halloc] at hsame
            exact ⟨(Option.some.inj hp).symm, hsame⟩

/-- The range is computed back from what `pt_allocate` has left, also when the sizes wrapped. -/
theorem freeRange_eq {d : Desc} {total : BitVec 32} (htotal : total = d.stacksize + d.guardsize)
    (hstack : d.stack = base + total - d.stacksize) : d.freeRange = (base, total) := by
  subst htotal
  unfold Desc.freeRange
  rw [hstack]
  refine Prod.ext ?_ rfl
  show base + (d.stacksize + d.guardsize) - d.stacksize - d.guardsize = base
  bv_omega

/-- A stack with a descriptor in it is all right, when the sizes fit. -/
theorem stackOk_of_fits (h : Fits E attr) (ha : Accepted E attr)
    (hmap : base.toNat + (attr.mapSize E).toNat ≤ 2 ^ 32) (hin : InStack E attr base pt) {d : Desc}
    (hflags : d.flags = 0) (hsize : d.stacksize = roundupPage E attr.stacksize)
    (hstack : d.stack = base + attr.mapSize E - d.stacksize) (hguard : d.guardsize = attr.guard E) :
    StackOk E attr base pt d := by
  have hmin : 16384 ≤ attr.stacksize.toNat := ha.size.1
  have hceil := le_ceilPage E attr.stacksize.toNat
  have htotal := h.mapSize ha
  have hd : d.stacksize.toNat = E.ceilPage attr.stacksize.toNat := by
    rw [hsize]
    exact roundupPage_toNat h.stacksize
  have hg := guard_toNat h.guardsize
  have hpos := page_pos E
  have hfits := h.stacksize
  have hfits' := h.guardsize
  have hbottom : d.stack.toNat = base.toNat + E.ceilPage attr.guardsize.toNat := by
    rw [hstack, BitVec.toNat_sub, BitVec.toNat_add, hd]
    omega
  have husr : d.usrStack = false := by
    rw [Desc.usrStack, hflags]
    rfl
  have hfree : d.freeRange = (base, attr.mapSize E) := by
    refine freeRange_eq ?_ hstack
    rw [Attr.mapSize, ha.size.2, hsize, hguard]
  have hcleanup : d.cleanupRange true = (base, attr.mapSize E) := by
    rw [← hfree, Desc.cleanupRange, husr]
    rfl
  constructor
  · omega
  · omega
  · rw [roundupPage_toNat h.stacksize, hg]
    exact h.sum
  · omega
  · omega
  · omega
  · exact hin
  · exact husr
  · exact hfree
  · exact hcleanup

/-! ### The whole function -/

/-- The descriptor that `pt_allocate` begins with, in the memory of a new mapping. -/
theorem initDesc_vmMap (hin : InStack E attr base pt) (size guardsize : BitVec 32) (stack : Addr) :
    let d := (initDesc attr pt stack size guardsize (s.vmMap base (attr.mapSize E))).desc pt
    d.flags = 0 ∧ d.stack = stack - size ∧ d.stacksize = size ∧ d.guardsize = guardsize := by
  have hrange : (pt - base).toNat < (attr.mapSize E).toNat := by
    obtain ⟨hlow, hhigh⟩ := hin
    have hpos := E.sizeofPthread_pos
    rw [BitVec.toNat_sub_of_le (BitVec.le_def.mpr (by omega))]
    omega
  have hzero : (s.vmMap base (attr.mapSize E)).desc pt = Desc.zero := if_pos hrange
  simp [initDesc, State.setDesc, hzero, Desc.zero]

/-- A call of `pt_allocate` that does not return NULL, for a stack of the library. -/
theorem ptAllocate_library (hstack : attr.stack = 0) (hbase : K.vmMap = some base)
    (hnull : ∀ s', ptAllocate E K attr s ≠ some (none, s')) :
    ptAllocate E K attr s =
      if InStack E attr base (placeDesc E (base + attr.mapSize E)) then
        some (acquire K (placeDesc E (base + attr.mapSize E))
          (initDesc attr (placeDesc E (base + attr.mapSize E)) (base + attr.mapSize E)
            (roundupPage E (attr.size E)) (attr.guard E) (s.vmMap base (attr.mapSize E))))
      else none := by
  unfold ptAllocate at hnull ⊢
  rw [if_pos hstack, hbase] at hnull ⊢
  simp only at hnull ⊢
  split
  · next hprotect =>
      rw [if_pos hprotect] at hnull
      exact absurd rfl (hnull _)
  · rfl

/-- Of the calls that the kernel does not make fail, exactly those with sizes that fit lead to
a thread with a stack that is all right. -/
theorem stack_arithmetic_iff (E : Env) (K : Answers) (attr : Attr) (s : State) {base : Addr}
    (ha : Accepted E attr) (hbase : K.vmMap = some base)
    (hmap : base.toNat + (attr.mapSize E).toNat ≤ 2 ^ 32)
    (hnull : ∀ s', ptAllocate E K attr s ≠ some (none, s')) :
    (∃ pt s', ptAllocate E K attr s = some (some pt, s') ∧
      StackOk E attr base pt (s'.desc pt)) ↔ Fits E attr := by
  have hcall := ptAllocate_library ha.stack hbase hnull
  constructor
  · rintro ⟨pt, s', -, hok⟩
    have hpos := page_pos E
    have hsize := hok.stacksize
    have hguard := hok.guardsize
    have hstack : attr.stacksize.toNat + E.page ≤ 2 ^ 32 := by omega
    have hguard' : attr.guardsize.toNat + E.page ≤ 2 ^ 32 := by omega
    refine ⟨hstack, hguard', ?_⟩
    rw [← roundupPage_toNat hstack, ← guard_toNat hguard']
    exact hok.sum
  · intro h
    have hin := inStack_of_fits h ha hmap
    rw [if_pos hin] at hcall
    generalize placeDesc E (base + attr.mapSize E) = pt at hin hcall
    generalize hstate : initDesc attr pt (base + attr.mapSize E) (roundupPage E (attr.size E))
      (attr.guard E) (s.vmMap base (attr.mapSize E)) = s₁ at hcall
    cases hacquire : acquire K pt s₁ with
    | mk p s' =>
        rw [hacquire] at hcall
        cases p with
        | none => exact absurd hcall (hnull s')
        | some p =>
            obtain ⟨rfl, hflags, hstk, hsize, hguard⟩ := acquire_some hacquire
            obtain ⟨hf, hs, hz, hg⟩ := initDesc_vmMap hin (s := s)
              (roundupPage E (attr.size E)) (attr.guard E) (base + attr.mapSize E)
            rw [hstate] at hf hs hz hg
            refine ⟨p, s', hcall, stackOk_of_fits h ha hmap hin (hflags.trans hf) ?_ ?_
              (hguard.trans hg)⟩
            · rw [hsize, hz, ha.size.2]
            · rw [hstk, hs, hsize, hz]

/-! ### Two calls -/

/-- Pages of 4 KiB, and a descriptor of 1 KiB. -/
def Env.pages : Env where
  pageShift := 12
  pageShift_lt := by decide
  alignShift := 4
  sizeofPthread := 1024
  sizeofPthread_pos := by decide
  fits := by decide
  dflAttr := ⟨0, 0x200000, 0, 1⟩

/-- Everything succeeds, with a mapping at 1 MiB. -/
def Answers.all : Answers where
  vmMap := some 0x100000
  vmProtect := true
  threadCreate := some 5
  threadSigstate := true
  dlAllocateTls := true
  freshTcb := 0x8000
  freshTcb_ne := by decide
  setMachineState := true

/-- A process that has created no thread. -/
def State.fresh : State :=
  ⟨[], fun _ => .zero, fun _ => ⟨0, 0, 0, 0, none⟩, {1}, fun _ => none, 0, 1, [], false, 0⟩

/-- The smallest stack, with a guard area of one page. -/
theorem stack_arithmetic_small : ∃ pt s',
    ptAllocate .pages .all ⟨0, 16384, 4096, 1⟩ .fresh = some (some pt, s') ∧
      StackOk .pages ⟨0, 16384, 4096, 1⟩ 0x100000 pt (s'.desc pt) := by
  have ha : Accepted .pages ⟨0, 16384, 4096, 1⟩ := ⟨rfl, rfl, .inr rfl⟩
  have hnull : ∀ s', ptAllocate .pages .all ⟨0, 16384, 4096, 1⟩ .fresh ≠ some (none, s') := nofun
  have hfits : Fits .pages ⟨0, 16384, 4096, 1⟩ := ⟨by decide, by decide, by decide⟩
  exact (stack_arithmetic_iff .pages .all _ .fresh ha rfl (by decide) hnull).mpr hfits

/-- The setter accepts a guard size of `2 ^ 32 - 1`. It is rounded to 0, and the call succeeds
without a guard area. -/
theorem guard_wraps : Accepted .pages ⟨0, 16384, 0xffffffff, 1⟩ ∧
    ∃ pt s', ptAllocate .pages .all ⟨0, 16384, 0xffffffff, 1⟩ .fresh = some (some pt, s') ∧
      (s'.desc pt).guardsize = 0 ∧
      ¬ StackOk .pages ⟨0, 16384, 0xffffffff, 1⟩ 0x100000 pt (s'.desc pt) := by
  refine ⟨⟨rfl, rfl, .inr rfl⟩, _, _, rfl, rfl, ?_⟩
  intro hok
  exact absurd hok.guardsize (by decide)

end Hlpt.Create
