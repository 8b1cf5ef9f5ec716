import Hlpt.Flags
import Hlpt.Lib.Links
import Mathlib.Logic.Function.Basic

/-!
# `Hlpt.Stacks.Release`: the stacks of the threads that a fork leaves behind

In the child of a fork `__pthread_free_stacks` goes along `__running_threads`, and releases
the TCB and the stack of every thread but the one that survives. A descriptor lies at the top
of its stack, and the link of the list lies in the descriptor. So the list is threaded through
the memory that is released, and `hurd_list_each` reads the link of a thread after the body of
the loop has released its stack.

* `kept_visit`: a thread with a stack of the program keeps its link.
* `turn_linkNext`: a thread with a stack of the library does not.
* `free_stacks_iff`: the walk is safe exactly when no other thread has a stack of the library.
-/

set_option autoImplicit false

namespace Hlpt.Stacks

open Hlpt.Lib

abbrev Addr := BitVec 32

/-- The fields of `struct pthread` that the walk uses. -/
structure Desc where
  tcb : Addr
  linkNext : Addr
  flags : BitVec 32
  stack : Addr
  stacksize : BitVec 32
  guardsize : BitVec 32
  deriving DecidableEq, Repr

/-- `__builtin_offsetof (struct pthread, link)` -/
def LINK_OFFSET : Addr := 4

/-- The memory. `head` is the address of `__running_threads`, and `headNext` is its `next`.
`desc p` is `none` when the memory at `p` is gone. The last three are ghosts: the threads that
were visited, the TCBs and the ranges that were released. -/
structure Mem where
  head : Addr
  headNext : Addr
  desc : Addr → Option Desc
  tlsList : Addr
  word : Addr → Addr
  visited : List Addr
  tcbs : List Addr
  unmapped : List (Addr × BitVec 32)

/-- `nodep->next`. There is no such read when the memory of the node is gone. -/
def Mem.linkNext (m : Mem) (nodep : Addr) : Option Addr :=
  if nodep = m.head then some m.headNext else (m.desc (nodep - LINK_OFFSET)).map Desc.linkNext

/-- `vm_deallocate (mach_task_self (), addr, total)` -/
def vmDeallocate (addr : Addr) (total : BitVec 32) (m : Mem) : Mem :=
  { m with
    desc := fun p => if (p - addr).toNat < total.toNat then none else m.desc p
    unmapped := m.unmapped ++ [(addr, total)] }

/-- The range of the stack, with its guard area. -/
def Desc.range (d : Desc) : Addr × BitVec 32 := (d.stack - d.guardsize, d.stacksize + d.guardsize)

/-- `pt->flags & PT_FLG_USR_STACK` -/
def Desc.usrStack (d : Desc) : Bool := d.flags &&& PT_FLG_USR_STACK != 0

/-- `dealloc_tls`. No other thread acts, so the compare-and-swap succeeds. -/
def deallocTls (pt : Addr) (m : Mem) : Option Mem :=
  (m.desc pt).map fun d =>
    { m with
      desc := Function.update m.desc pt (some { d with tcb := 0 })
      tlsList := d.tcb
      word := Function.update m.word d.tcb m.tlsList
      tcbs := m.tcbs ++ [d.tcb] }

/-- `free_stack` -/
def freeStack (pt : Addr) (m : Mem) : Option Mem :=
  (m.desc pt).map fun d =>
    if d.usrStack then m else vmDeallocate d.range.1 d.range.2 m

/-- The body of the loop. -/
def turn (self pt : Addr) (m : Mem) : Option Mem :=
  let m := { m with visited := m.visited ++ [pt] }
  if pt = self then some m else (deallocTls pt m).bind (freeStack pt)

/-- The loop from `runp` on, with at most so many turns. `none` is a loop that has not ended,
or a read of memory that is gone. -/
def freeStacksLoop (self : Addr) : ℕ → Addr → Mem → Option Mem
  | 0, runp, m => if runp = m.head then some m else none
  | n + 1, runp, m =>
      if runp = m.head then some m
      else
        (turn self (runp - LINK_OFFSET) m).bind fun m =>
          (m.linkNext runp).bind fun runp => freeStacksLoop self n runp m

/-- `__pthread_free_stacks` -/
def pthreadFreeStacks (turns : ℕ) (self : Addr) (m : Mem) : Option Mem :=
  freeStacksLoop self turns m.headNext m

/-- From `runp` on the list has the threads `l`, in this order: their descriptors are there,
and a stack of the library contains its thread's descriptor. -/
structure Running (l : List Addr) (runp : Addr) (m : Mem) : Prop where
  desc : ∀ p ∈ l, ∃ d, m.desc p = some d
  nodup : l.Nodup
  head : ∀ p ∈ l, p + LINK_OFFSET ≠ m.head
  list : Seg m.linkNext runp (l.map (· + LINK_OFFSET)) m.head
  contains : ∀ p ∈ l, ∀ d, m.desc p = some d → d.usrStack = false →
    (p - d.range.1).toNat < d.range.2.toNat

/-- The descriptors of the threads `l` other than `self`. -/
def others (self : Addr) (l : List Addr) (m : Mem) : List Desc :=
  (l.filter (· ≠ self)).filterMap m.desc

/-- The walk ends without a read of memory that is gone, visits every thread, and releases the
TCB of each other thread and its stack, if that is the library's, once. -/
def Releases (self : Addr) (l : List Addr) (m : Mem) : Prop :=
  ∃ turns m', pthreadFreeStacks turns self m = some m' ∧
    m'.visited = m.visited ++ l ∧
    m'.tcbs = m.tcbs ++ (others self l m).map Desc.tcb ∧
    m'.unmapped = m.unmapped ++ ((others self l m).filter fun d => !d.usrStack).map Desc.range

/-- No thread of the list but `self` has a stack of the library. -/
def OnlyUsrStacks (self : Addr) (l : List Addr) (m : Mem) : Prop :=
  ∀ d ∈ others self l m, d.usrStack = true

instance (self : Addr) (l : List Addr) (m : Mem) : Decidable (OnlyUsrStacks self l m) :=
  inferInstanceAs (Decidable (∀ d ∈ others self l m, d.usrStack = true))

variable {self p runp next : Addr} {l : List Addr} {m m' : Mem} {d : Desc} {n : ℕ}

/-! ### One turn -/

/-- The turn of `self` releases nothing. -/
theorem turn_self : turn self self m = some { m with visited := m.visited ++ [self] } := by
  simp [turn]

/-- The memory after a thread was visited and its TCB released. -/
def Mem.visit (m : Mem) (p : Addr) (d : Desc) : Mem :=
  { m with
    visited := m.visited ++ [p]
    desc := Function.update m.desc p (some { d with tcb := 0 })
    tlsList := d.tcb
    word := Function.update m.word d.tcb m.tlsList
    tcbs := m.tcbs ++ [d.tcb] }

/-- The turn of another thread releases its TCB, and its stack if that is the library's. -/
theorem turn_other (hp : m.desc p = some d) (hne : p ≠ self) :
    turn self p m = some (if d.usrStack then m.visit p d
      else vmDeallocate d.range.1 d.range.2 (m.visit p d)) := by
  have htls : deallocTls p { m with visited := m.visited ++ [p] } = some (m.visit p d) := by
    show (m.desc p).map _ = _
    rw [hp]
    rfl
  have hdesc : (m.visit p d).desc p = some { d with tcb := 0 } := Function.update_self _ _ _
  unfold turn
  simp only [if_neg hne, htls, Option.bind_some]
  rw [freeStack, hdesc]
  rfl

/-- A thread with a stack of the program loses its TCB only. -/
theorem turn_usrStack (hp : m.desc p = some d) (hne : p ≠ self) (husr : d.usrStack = true) :
    turn self p m = some (m.visit p d) := by
  rw [turn_other hp hne, if_pos husr]

/-- A thread with a stack of the library loses its link with the stack. -/
theorem turn_linkNext (hp : m.desc p = some d) (hne : p ≠ self) (husr : d.usrStack = false)
    (hhead : p + LINK_OFFSET ≠ m.head) (hin : (p - d.range.1).toNat < d.range.2.toNat)
    (h : turn self p m = some m') : m'.linkNext (p + LINK_OFFSET) = none := by
  rw [turn_other hp hne, if_neg (by simp [husr])] at h
  cases h
  have hgone : (vmDeallocate d.range.1 d.range.2 (m.visit p d)).desc p = none := if_pos hin
  show (if p + LINK_OFFSET = m.head then _ else _) = none
  rw [if_neg hhead, BitVec.add_sub_cancel, hgone]
  rfl

/-- What a turn leaves: the links, and the descriptors of the other threads. -/
structure Kept (p : Addr) (m m' : Mem) : Prop where
  head : m'.head = m.head
  link : m'.linkNext = m.linkNext
  desc : ∀ q, q ≠ p → m'.desc q = m.desc q

/-- The turn of a thread with a stack of the program leaves the links. -/
theorem kept_visit (hp : m.desc p = some d) : Kept p m (m.visit p d) := by
  refine ⟨rfl, funext fun q => ?_, fun q hq => Function.update_of_ne hq _ _⟩
  show (if q = m.head then some m.headNext else _) = if q = m.head then some m.headNext else _
  apply ite_congr rfl (fun _ => rfl)
  intro _
  by_cases hq : q - LINK_OFFSET = p
  · rw [hq, hp]
    show Option.map Desc.linkNext (Function.update m.desc p _ p) = _
    rw [Function.update_self]
    rfl
  · exact congrArg (Option.map Desc.linkNext) (Function.update_of_ne hq _ _)

/-- The rest of the list after a turn. -/
theorem Running.tail (h : Running (p :: l) runp m) (hk : Kept p m m') :
    runp = p + LINK_OFFSET ∧ ∃ next, m'.linkNext runp = some next ∧ Running l next m' := by
  obtain ⟨rfl, next, hnext, hlist⟩ := Seg.cons_iff.mp h.list
  have hne : ∀ q ∈ l, q ≠ p := by
    rintro q hq rfl
    exact (List.nodup_cons.mp h.nodup).1 hq
  refine ⟨rfl, next, by rw [hk.link, hnext], ?_⟩
  constructor
  · intro q hq
    rw [hk.desc q (hne q hq)]
    exact h.desc q (List.mem_cons_of_mem p hq)
  · exact (List.nodup_cons.mp h.nodup).2
  · intro q hq
    rw [hk.head]
    exact h.head q (List.mem_cons_of_mem p hq)
  · rw [hk.link, hk.head]
    exact hlist
  · intro q hq d hd
    rw [hk.desc q (hne q hq)] at hd
    exact h.contains q (List.mem_cons_of_mem p hq) d hd

/-- The other threads of a list that begins with `self`. -/
theorem others_self : others self (self :: l) m = others self l m := by
  rw [others, List.filter_cons_of_neg (by simp), others]

/-- The other threads of a list that begins with another one. -/
theorem others_cons (hp : m.desc p = some d) (hne : p ≠ self) :
    others self (p :: l) m = d :: others self l m := by
  rw [others, List.filter_cons_of_pos (by simpa using hne), List.filterMap_cons_some hp, others]

/-- A turn leaves the descriptors of the threads that come later. -/
theorem others_kept (hk : Kept p m m') (hp : p ∉ l) : others self l m' = others self l m := by
  refine List.filterMap_congr fun q hq => hk.desc q ?_
  rintro rfl
  exact hp (List.mem_of_mem_filter hq)

/-! ### The walk -/

/-- With stacks of the program only, the walk is safe. -/
theorem loop_releases (h : Running l runp m) (honly : OnlyUsrStacks self l m) :
    ∃ m', freeStacksLoop self l.length runp m = some m' ∧
      m'.visited = m.visited ++ l ∧
      m'.tcbs = m.tcbs ++ (others self l m).map Desc.tcb ∧ m'.unmapped = m.unmapped := by
  induction l generalizing runp m with
  | nil =>
      refine ⟨m, ?_, by simp, by simp [others], rfl⟩
      rw [List.length_nil, freeStacksLoop, if_pos (Seg.nil_iff.mp h.list)]
  | cons p l ih =>
      obtain ⟨d, hp⟩ := h.desc p List.mem_cons_self
      have hnot := (List.nodup_cons.mp h.nodup).1
      have hhead := h.head p List.mem_cons_self
      by_cases hself : p = self
      · subst hself
        have hk : Kept p m { m with visited := m.visited ++ [p] } := ⟨rfl, rfl, fun _ _ => rfl⟩
        obtain ⟨rfl, next, hnext, hrest⟩ := h.tail hk
        rw [OnlyUsrStacks, others_self] at honly
        obtain ⟨m', hrun, hv, ht, hu⟩ := ih hrest honly
        refine ⟨m', ?_, by simpa using hv, ?_, hu⟩
        · rw [List.length_cons, freeStacksLoop, if_neg hhead, BitVec.add_sub_cancel, turn_self,
            Option.bind_some, hnext, Option.bind_some, hrun]
        · rw [others_self]
          exact ht
      · rw [OnlyUsrStacks, others_cons hp hself] at honly
        have hk := kept_visit hp
        obtain ⟨rfl, next, hnext, hrest⟩ := h.tail hk
        have hsame : others self l (m.visit p d) = others self l m := others_kept hk hnot
        have honly' : OnlyUsrStacks self l (m.visit p d) := by
          rw [OnlyUsrStacks, hsame]
          exact fun e he => honly e (List.mem_cons_of_mem d he)
        obtain ⟨m', hrun, hv, ht, hu⟩ := ih hrest honly'
        refine ⟨m', ?_, ?_, ?_, hu⟩
        · rw [List.length_cons, freeStacksLoop, if_neg hhead, BitVec.add_sub_cancel,
            turn_usrStack hp hself (honly d List.mem_cons_self), Option.bind_some, hnext,
            Option.bind_some, hrun]
        · rw [hv]
          simp [Mem.visit]
        · rw [ht, hsame, others_cons hp hself]
          simp [Mem.visit]

/-- A walk that ends has met no other thread with a stack of the library. -/
theorem loop_onlyUsrStacks (h : Running l runp m)
    (hrun : freeStacksLoop self n runp m = some m') : OnlyUsrStacks self l m := by
  induction l generalizing runp m n with
  | nil => simp [OnlyUsrStacks, others]
  | cons p l ih =>
      obtain ⟨d, hp⟩ := h.desc p List.mem_cons_self
      have hnot := (List.nodup_cons.mp h.nodup).1
      have hhead := h.head p List.mem_cons_self
      obtain ⟨rfl, -⟩ := Seg.cons_iff.mp h.list
      cases n with
      | zero =>
          rw [freeStacksLoop, if_neg hhead] at hrun
          cases hrun
      | succ n =>
          rw [freeStacksLoop, if_neg hhead, BitVec.add_sub_cancel] at hrun
          obtain ⟨m₁, h₁, hrun⟩ := Option.bind_eq_some_iff.mp hrun
          obtain ⟨next, hnext, hrun⟩ := Option.bind_eq_some_iff.mp hrun
          by_cases hself : p = self
          · subst hself
            obtain rfl := Option.some.inj (turn_self.symm.trans h₁)
            have hk : Kept p m { m with visited := m.visited ++ [p] } := ⟨rfl, rfl, fun _ _ => rfl⟩
            obtain ⟨-, next', hnext', hrest⟩ := h.tail hk
            obtain rfl := Option.some.inj (hnext.symm.trans hnext')
            have hlater := ih hrest hrun
            rw [OnlyUsrStacks, others_self]
            exact hlater
          · cases husr : d.usrStack with
            | false =>
                -- The link is read after the stack is gone.
                have hin := h.contains p List.mem_cons_self d hp husr
                rw [turn_linkNext hp hself husr hhead hin h₁] at hnext
                cases hnext
            | true =>
                obtain rfl := Option.some.inj ((turn_usrStack hp hself husr).symm.trans h₁)
                have hk := kept_visit hp
                obtain ⟨-, next', hnext', hrest⟩ := h.tail hk
                obtain rfl := Option.some.inj (hnext.symm.trans hnext')
                have hlater := ih hrest hrun
                rw [OnlyUsrStacks, others_kept hk hnot] at hlater
                rw [OnlyUsrStacks, others_cons hp hself]
                intro e he
                rcases List.mem_cons.mp he with rfl | he
                · exact husr
                · exact hlater e he

/-- The release of the other threads' stacks in the child of a fork. For every list of running
threads and every surviving thread, the walk does its work and reads no memory that is gone,
exactly when no other thread has a stack of the library. -/
theorem free_stacks_iff (h : Running l m.headNext m) :
    Releases self l m ↔ OnlyUsrStacks self l m := by
  constructor
  · rintro ⟨turns, m', hrun, -⟩
    exact loop_onlyUsrStacks h hrun
  · intro honly
    obtain ⟨m', hrun, hv, ht, hu⟩ := loop_releases h honly
    refine ⟨l.length, m', hrun, hv, ht, ?_⟩
    rw [hu, List.filter_eq_nil_iff.mpr, List.map_nil, List.append_nil]
    intro d hd
    simp [honly d hd]

/-- Two threads: the survivor at 0x50, and another one at 0x90 whose stack is the program's
or the library's. -/
def twoThreads (usrStack : Bool) : Mem where
  head := 0x08
  headNext := 0x54
  desc := fun p =>
    if p = 0x50 then some ⟨0x20, 0x94, PT_FLG_USR_STACK, 0x40, 0x20, 0⟩
    else if p = 0x90 then
      some ⟨0x24, 0x08, if usrStack then PT_FLG_USR_STACK else 0, 0x70, 0x30, 0x10⟩
    else none
  tlsList := 0
  word _ := 0
  visited := []
  tcbs := []
  unmapped := []

/-- They are in the list. -/
theorem running_two (usrStack : Bool) : Running [0x50, 0x90] 0x54 (twoThreads usrStack) where
  desc := by
    intro p hp
    rcases List.mem_pair.mp hp with rfl | rfl <;> exact ⟨_, rfl⟩
  nodup := by simp
  head := by
    intro p hp
    rcases List.mem_pair.mp hp with rfl | rfl <;> decide +revert
  list := .cons (b := 0x94) rfl (.cons (b := 0x08) rfl (.nil 0x08))
  contains := by
    intro p hp d hd husr
    rcases List.mem_pair.mp hp with rfl | rfl
    · cases hd
      cases husr
    · cases hd
      cases usrStack <;> decide

/-- A stack of the program. -/
theorem free_stacks_two : Releases 0x50 [0x50, 0x90] (twoThreads true) :=
  (free_stacks_iff (running_two true)).mpr (by decide)

/-- A stack of the library. -/
theorem free_stacks_fails : Running [0x50, 0x90] 0x54 (twoThreads false) ∧
    ¬ Releases 0x50 [0x50, 0x90] (twoThreads false) := by
  refine ⟨running_two false, ?_⟩
  rintro ⟨turns, m', hrun, -⟩
  have honly := loop_onlyUsrStacks (running_two false) hrun
  exact absurd honly (by decide)

end Hlpt.Stacks
