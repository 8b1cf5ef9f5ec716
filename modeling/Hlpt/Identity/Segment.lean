import Mathlib.Data.BitVec
import Mathlib.Tactic.IntervalCases

/-!
# `Hlpt.Identity.Segment`: the segment that leads to a TCB, from `sysdeps/i386.h`

A thread of the i386 finds its TCB at the base of the segment that its register `%gs` selects.
`HURD_TLS_DESC_DECL` scatters the address of the TCB over the two words of a segment
descriptor, and the processor puts it together again.

* `base_hurdTlsDesc`: what comes out is what went in.
* `limit_hurdTlsDesc` and `access_hurdTlsDesc`: the segment reaches over the whole address
  space, and a thread may read and write it, whatever the address is.
-/

set_option autoImplicit false

namespace Hlpt.Identity

/-- `struct descriptor` of `<mach/i386/mach_i386.h>`. -/
structure Descriptor where
  lowWord : BitVec 32
  highWord : BitVec 32
  deriving DecidableEq, Repr

/-- `HURD_TLS_DESC_DECL (desc, tcb)` -/
def hurdTlsDesc (tcb : BitVec 32) : Descriptor where
  lowWord := 0xffff ||| (tcb <<< 16)
  highWord := ((tcb >>> 16) &&& (0xff : BitVec 32)) |||
    ((0x12 ||| 0x60 ||| 0x80 : BitVec 32) <<< 8) ||| ((0xf : BitVec 32) <<< 16) |||
    ((4 ||| 8 : BitVec 32) <<< 20) ||| (tcb &&& 0xff000000)

namespace Descriptor

/-- The address that the processor adds to the offset of an access. -/
def base (d : Descriptor) : BitVec 32 :=
  (d.lowWord >>> 16) ||| ((d.highWord &&& 0xff) <<< 16) ||| (d.highWord &&& 0xff000000)

/-- The last offset of the segment. With the granularity bit, the limit counts pages. -/
def limit (d : Descriptor) : BitVec 32 :=
  let count := (d.lowWord &&& 0xffff) ||| (d.highWord &&& 0xf0000)
  if d.highWord &&& 0x800000 ≠ 0 then (count <<< 12) ||| 0xfff else count

/-- The type of the segment, its privilege level and the present bit. -/
def access (d : Descriptor) : BitVec 32 := (d.highWord >>> 8) &&& 0xff

/-- A writable data segment that is present, for the user. -/
def userData : BitVec 32 := 0xf2

end Descriptor

/-- The constants of the high word lie outside of the bits for the address. -/
theorem highWord_eq (tcb : BitVec 32) : (hurdTlsDesc tcb).highWord =
    ((tcb >>> 16) &&& 0xff) ||| 0xcff200 ||| (tcb &&& 0xff000000) := by
  have hconst : ((0x12 ||| 0x60 ||| 0x80 : BitVec 32) <<< 8) ||| ((0xf : BitVec 32) <<< 16) |||
      ((4 ||| 8 : BitVec 32) <<< 20) = 0xcff200 := by decide
  rw [← hconst, hurdTlsDesc]
  simp only [BitVec.or_assoc]

/-- The segment begins at the TCB. -/
theorem base_hurdTlsDesc (tcb : BitVec 32) : (hurdTlsDesc tcb).base = tcb := by
  unfold Descriptor.base
  rw [highWord_eq]
  ext i hi
  interval_cases i <;> simp [hurdTlsDesc]

/-- The segment has no end. -/
theorem limit_hurdTlsDesc (tcb : BitVec 32) : (hurdTlsDesc tcb).limit = 0xffffffff := by
  have hcount : ((hurdTlsDesc tcb).lowWord &&& 0xffff) |||
      ((hurdTlsDesc tcb).highWord &&& 0xf0000) = 0xfffff := by
    rw [highWord_eq]
    ext i hi
    interval_cases i <;> simp [hurdTlsDesc]
  have hpages : (hurdTlsDesc tcb).highWord &&& 0x800000 = 0x800000 := by
    rw [highWord_eq]
    ext i hi
    interval_cases i <;> simp
  unfold Descriptor.limit
  simp only [hcount, hpages]
  decide

/-- The thread may read and write its TCB. -/
theorem access_hurdTlsDesc (tcb : BitVec 32) :
    (hurdTlsDesc tcb).access = Descriptor.userData := by
  unfold Descriptor.access
  rw [highWord_eq]
  ext i hi
  interval_cases i <;> simp [Descriptor.userData]

end Hlpt.Identity
