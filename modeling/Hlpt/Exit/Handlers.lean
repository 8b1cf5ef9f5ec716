import Hlpt.Exit.Model
import Hlpt.Lib.Prefix

/-!
# `Hlpt.Exit.Handlers`: which handlers run at which frame

`unwind_cleanup` goes by addresses. A handler runs when its buffer is not above the CFA of the
frame. The last frame is told by `END_OF_STACK`, or by an exception object below its CFA. The
object is in the thread descriptor, at the top of the stack.

The descriptor of the main thread is not on a stack. It lies below all frames, so the first of
them counts as the last: all handlers run there, and `__pthread_cleanup` is called. Frames that
are not unwound yet lose their handlers to it.

`FRAME_LEFT` also holds for equal addresses. A buffer at the CFA of a frame lies in the frame
that called this one, and its handler runs one frame too early.

* `handler_mem_iff`, `forcedUnwind_cleanup`: at which frame each call is made.
* `unwind_iff`: for which stacks the calls are right.
* `main_thread_unwinds_early`: two frames of the main thread.
-/

set_option autoImplicit false

namespace Hlpt.Exit

open Hlpt.Lib

/-- A stack at the time of an exit: its frames from the innermost one on, and the handlers
that are pushed. The addresses go up, and a buffer does not lie below the CFA of a frame before
its own. -/
structure Layout where
  inner : List Frame
  last : Frame
  chain : List Buf
  inner_end : ∀ f ∈ inner, f.endOfStack = false
  last_end : last.endOfStack = true
  cfa_lt : (inner ++ [last]).Pairwise (·.cfa < ·.cfa)
  addr_lt : chain.Pairwise (·.addr < ·.addr)
  frame_le : ∀ b ∈ chain, b.frame ≤ inner.length
  cfa_le : ∀ b ∈ chain, ∀ f ∈ inner.take b.frame, f.cfa ≤ b.addr

/-- What a thread runs on. The descriptor of the main thread is a static object, the others
are at the top of their stacks. -/
inductive Kind where
  | main
  | library
  | user
  deriving DecidableEq, Repr

/-- A thread with its stack. Its exception object is in the descriptor: below the frames of the
main thread, and above those of any other. -/
structure Thread extends Layout where
  kind : Kind
  exc : Addr
  placed : ∀ f ∈ inner ++ [last], if kind = .main then exc < f.cfa else f.cfa ≤ exc

/-- The calls of an exit from this stack. -/
def Layout.exit (L : Layout) (retval : BitVec 32) (exc : Addr) (flags : BitVec 32) :
    List Event :=
  pthreadExit retval (L.inner ++ [L.last]) ⟨exc, L.chain, 0, flags⟩

/-- The calls are right: each handler runs once, innermost first, and not before its frame is
unwound. `__pthread_cleanup` is called once, at the last frame, with no handler left. -/
structure Unwound (L : Layout) (retval : BitVec 32) (exc : Addr) (flags : BitVec 32) : Prop where
  once : ((L.exit retval exc flags).filterMap Event.handler?).map Prod.fst = L.chain
  timely : ∀ b i, .handler b i ∈ L.exit retval exc flags → b.frame ≤ i
  cleanup : (L.exit retval exc flags).filterMap Event.pthreadCleanup? =
    [(⟨exc, [], retval, flags ||| PT_FLG_EXITING⟩, L.inner.length)]

variable {f : Frame} {fs : List Frame} {self : Self} {bs : List Buf} {b : Buf} {i j : ℕ}
  {cfa : Addr} {exc : Addr}

/-! ### One frame -/

/-- The handlers that run are the first ones, up to one that stays. -/
theorem runHandlers_eq (cfa : Addr) (last : Bool) (i : ℕ) (bs : List Buf) :
    runHandlers cfa last i bs =
      ((bs.takeWhile fun b => frameLeft cfa b.addr || last).map (.handler · i),
        bs.dropWhile fun b => frameLeft cfa b.addr || last) := by
  induction bs with
  | nil => rfl
  | cons b bs ih =>
      rw [runHandlers, ih]
      split
      · next h => rw [List.takeWhile_cons, List.dropWhile_cons, if_pos h, if_pos h, List.map_cons]
      · next h => rw [List.takeWhile_cons, List.dropWhile_cons, if_neg h, if_neg h, List.map_nil]

/-- At the last frame all handlers run. -/
theorem forcedUnwind_last (h : isLast self.exc f = true) : forcedUnwind i (f :: fs) self =
    self.cleanup.map (.handler · i) ++ [.pthreadCleanup { self with cleanup := [] } i] := by
  have hall : (self.cleanup.takeWhile fun _ => true) = self.cleanup :=
    List.takeWhile_eq_self_iff.mpr fun _ _ => rfl
  have hnone : (self.cleanup.dropWhile fun _ => true) = [] :=
    List.dropWhile_eq_nil_iff.mpr fun _ _ => rfl
  simp only [forcedUnwind, unwindCleanup, h, runHandlers_eq, Bool.or_true, if_true, hall, hnone]

/-- The thread after a frame that is not the last. -/
def Self.after (self : Self) (f : Frame) : Self :=
  { self with cleanup := self.cleanup.dropWhile fun b => frameLeft f.cfa b.addr }

/-- At such a frame those run whose buffers are not above its CFA. -/
theorem forcedUnwind_inner (h : isLast self.exc f = false) : forcedUnwind i (f :: fs) self =
    (self.cleanup.takeWhile fun b => frameLeft f.cfa b.addr).map (.handler · i) ++
      forcedUnwind (i + 1) fs (self.after f) := by
  simp [forcedUnwind, unwindCleanup, h, runHandlers_eq, Self.after]

/-- The last frame comes later. -/
theorem exists_last_tail (h : ∃ g ∈ f :: fs, isLast self.exc g = true)
    (hf : isLast self.exc f = false) : ∃ g ∈ fs, isLast (self.after f).exc g = true := by
  obtain ⟨g, hmem, hg⟩ := h
  rcases List.mem_cons.mp hmem with rfl | htail
  · rw [hf] at hg
    cases hg
  · exact ⟨g, htail, hg⟩

/-- On a chain with increasing addresses they are a prefix. -/
theorem frameLeft_prefix (h : bs.Pairwise (·.addr < ·.addr)) (cfa : Addr) :
    bs.Pairwise fun x y => frameLeft cfa y.addr = true → frameLeft cfa x.addr = true := by
  apply h.imp
  intro x y hlt hy
  simp only [frameLeft, decide_eq_true_eq] at hy ⊢
  exact BitVec.le_trans (BitVec.le_of_lt hlt) hy

/-! ### The whole stack -/

/-- Each handler runs once, innermost first. -/
theorem forcedUnwind_once (h : ∃ f ∈ fs, isLast self.exc f = true) :
    ((forcedUnwind i fs self).filterMap Event.handler?).map Prod.fst = self.cleanup := by
  have hran : ∀ (l : List Buf) (i : ℕ),
      ((l.map (Event.handler · i)).filterMap Event.handler?).map Prod.fst = l := fun l i => by
    induction l with
    | nil => rfl
    | cons b l ih => exact congrArg (b :: ·) ih
  induction fs generalizing i self with
  | nil => simp at h
  | cons f fs ih =>
      cases hlast : isLast self.exc f with
      | true =>
          rw [forcedUnwind_last hlast, List.filterMap_append, List.map_append, hran]
          exact List.append_nil _
      | false =>
          rw [forcedUnwind_inner hlast, List.filterMap_append, List.map_append, hran,
            ih (exists_last_tail h hlast)]
          exact List.takeWhile_append_dropWhile

/-- `__pthread_cleanup` is called at the first frame that counts as the last, with no handler
left. -/
theorem forcedUnwind_cleanup (h : ∃ f ∈ fs, isLast self.exc f = true) :
    (forcedUnwind i fs self).filterMap Event.pthreadCleanup? =
      [({ self with cleanup := [] }, i + fs.findIdx (isLast self.exc))] := by
  have hran : ∀ (l : List Buf) (i : ℕ),
      (l.map (Event.handler · i)).filterMap Event.pthreadCleanup? = [] := fun l i => by
    rw [List.filterMap_eq_nil_iff]
    simp [Event.pthreadCleanup?]
  induction fs generalizing i self with
  | nil => simp at h
  | cons f fs ih =>
      cases hlast : isLast self.exc f with
      | true =>
          rw [forcedUnwind_last hlast, List.filterMap_append, hran, List.findIdx_cons, hlast]
          rfl
      | false =>
          rw [forcedUnwind_inner hlast, List.filterMap_append, hran,
            ih (exists_last_tail h hlast), List.findIdx_cons, hlast, List.nil_append, cond_false,
            Nat.add_assoc, Nat.add_comm 1]
          rfl

/-- A handler runs at the first frame that counts as the last, or has a CFA that its buffer
is not above. -/
theorem handler_mem_iff (h : ∃ f ∈ fs, isLast self.exc f = true)
    (hchain : self.cleanup.Pairwise (·.addr < ·.addr)) :
    .handler b j ∈ forcedUnwind i fs self ↔ b ∈ self.cleanup ∧
      j = i + fs.findIdx fun f => isLast self.exc f || frameLeft f.cfa b.addr := by
  induction fs generalizing i self with
  | nil => simp at h
  | cons f fs ih =>
      cases hlast : isLast self.exc f with
      | true =>
          rw [forcedUnwind_last hlast, List.findIdx_cons]
          simp [hlast, eq_comm]
      | false =>
          have hpre := frameLeft_prefix hchain f.cfa
          have hdrop : (self.after f).cleanup.Pairwise (·.addr < ·.addr) :=
            hchain.sublist (List.dropWhile_sublist _)
          have hmem : b ∈ (self.after f).cleanup ↔
              b ∈ self.cleanup ∧ frameLeft f.cfa b.addr = false := mem_dropWhile_iff hpre
          rw [forcedUnwind_inner hlast, List.mem_append, ih (exists_last_tail h hlast) hdrop, hmem,
            List.findIdx_cons, hlast, Bool.false_or]
          simp only [List.mem_map, mem_takeWhile_iff hpre, Event.handler.injEq]
          -- Either this frame takes the handler, or one of those that follow.
          cases hleft : frameLeft f.cfa b.addr with
          | true =>
              constructor
              · rintro (⟨b', ⟨hb, -⟩, rfl, rfl⟩ | ⟨⟨-, hfalse⟩, -⟩)
                · exact ⟨hb, rfl⟩
                · cases hfalse
              · rintro ⟨hb, rfl⟩
                exact .inl ⟨b, ⟨hb, hleft⟩, rfl, rfl⟩
          | false =>
              constructor
              · rintro (⟨b', ⟨-, htrue⟩, rfl, -⟩ | ⟨⟨hb, -⟩, rfl⟩)
                · rw [hleft] at htrue
                  cases htrue
                · exact ⟨hb, by rw [cond_false, Nat.add_assoc, Nat.add_comm 1]; rfl⟩
              · rintro ⟨hb, rfl⟩
                exact .inr ⟨⟨hb, rfl⟩, by rw [cond_false, Nat.add_assoc, Nat.add_comm 1]; rfl⟩

/-! ### When the calls are right -/

namespace Layout

variable (L : Layout)

/-- The unwinding ends, at the latest with the last frame. -/
theorem exists_isLast (exc : Addr) : ∃ f ∈ L.inner ++ [L.last], isLast exc f = true :=
  ⟨L.last, List.mem_append_right _ (List.mem_singleton_self _), by simp [isLast, L.last_end]⟩

variable {L}

theorem isLast_inner (hf : f ∈ L.inner) : isLast exc f = false ↔ f.cfa ≤ exc := by
  simp [isLast, frameLeft, L.inner_end f hf]

/-- The frames that are counted before the frame of a buffer. -/
theorem take_frame (hb : b ∈ L.chain) :
    (L.inner ++ [L.last]).take b.frame = L.inner.take b.frame :=
  List.take_append_of_le_length (L.frame_le b hb)

/-- The exit is at the last frame. -/
theorem findIdx_isLast : (L.inner ++ [L.last]).findIdx (isLast exc) = L.inner.length ↔
    ∀ f ∈ L.inner, f.cfa ≤ exc := by
  have hlt := List.findIdx_lt_length_of_exists (L.exists_isLast exc)
  rw [List.length_append, List.length_singleton] at hlt
  have hle := le_findIdx_iff (p := isLast exc) (l := L.inner ++ [L.last]) (k := L.inner.length)
    (by simp)
  rw [List.take_left] at hle
  constructor
  · intro heq f hf
    exact (isLast_inner hf).mp (hle.mp (by omega) f hf)
  · intro h
    have hge := hle.mpr fun f hf => (isLast_inner hf).mpr (h f hf)
    omega

/-- A handler does not run too early. -/
theorem frame_le_findIdx (h : ∀ f ∈ L.inner, f.cfa ≤ exc) (hb : b ∈ L.chain) :
    (b.frame ≤ (L.inner ++ [L.last]).findIdx fun f => isLast exc f || frameLeft f.cfa b.addr) ↔
      ∀ f ∈ L.inner.take b.frame, f.cfa ≠ b.addr := by
  have hlen : b.frame ≤ (L.inner ++ [L.last]).length := by
    have hle := L.frame_le b hb
    rw [List.length_append]
    omega
  rw [le_findIdx_iff hlen, take_frame hb]
  apply forall₂_congr
  intro f hf
  have hlast := (isLast_inner (List.mem_of_mem_take hf)).mpr (h f (List.mem_of_mem_take hf))
  have hle := L.cfa_le b hb f hf
  rw [hlast, Bool.false_or, frameLeft, decide_eq_false_iff_not]
  constructor
  · rintro hnot heq
    exact hnot (heq ▸ BitVec.le_refl _)
  · intro hne hge
    exact hne (BitVec.le_antisymm hle hge)

end Layout

/-- The calls are right exactly when no frame before the last one has its CFA above the
exception object, and no buffer lies at the CFA of a frame before its own. -/
theorem unwound_iff (L : Layout) (retval : BitVec 32) (exc : Addr) (flags : BitVec 32) :
    Unwound L retval exc flags ↔ (∀ f ∈ L.inner, f.cfa ≤ exc) ∧
      ∀ b ∈ L.chain, ∀ f ∈ L.inner.take b.frame, f.cfa ≠ b.addr := by
  have hend := L.exists_isLast exc
  have hmem (b : Buf) (j : ℕ) : .handler b j ∈ L.exit retval exc flags ↔ b ∈ L.chain ∧
      j = 0 + (L.inner ++ [L.last]).findIdx fun f => isLast exc f || frameLeft f.cfa b.addr :=
    handler_mem_iff hend L.addr_lt
  have hexit : (L.exit retval exc flags).filterMap Event.pthreadCleanup? =
      [(⟨exc, [], retval, flags ||| PT_FLG_EXITING⟩,
        0 + (L.inner ++ [L.last]).findIdx (isLast exc))] := forcedUnwind_cleanup hend
  constructor
  · rintro ⟨-, htimely, hcleanup⟩
    rw [hexit] at hcleanup
    have hidx : 0 + (L.inner ++ [L.last]).findIdx (isLast exc) = L.inner.length :=
      congrArg Prod.snd (List.head_eq_of_cons_eq hcleanup)
    rw [Nat.zero_add] at hidx
    have habove := Layout.findIdx_isLast.mp hidx
    refine ⟨habove, fun b hb => (Layout.frame_le_findIdx habove hb).mp ?_⟩
    have hrun := htimely b _ ((hmem b _).mpr ⟨hb, rfl⟩)
    rwa [Nat.zero_add] at hrun
  · rintro ⟨habove, hoff⟩
    refine ⟨forcedUnwind_once hend, fun b i hrun => ?_, ?_⟩
    · obtain ⟨hb, rfl⟩ := (hmem b i).mp hrun
      rw [Nat.zero_add]
      exact (Layout.frame_le_findIdx habove hb).mpr (hoff b hb)
    · rw [hexit, Nat.zero_add, Layout.findIdx_isLast.mpr habove]

/-- The calls of an exit are right exactly when the thread is not the main thread, or has one
frame only, and no buffer lies at the CFA of a frame before its own. -/
theorem unwind_iff (th : Thread) (retval flags : BitVec 32) :
    Unwound th.toLayout retval th.exc flags ↔ (th.kind = .main → th.inner = []) ∧
      ∀ b ∈ th.chain, ∀ f ∈ th.inner.take b.frame, f.cfa ≠ b.addr := by
  rw [unwound_iff]
  refine and_congr_left fun _ => ⟨fun habove hmain => ?_, fun hmain f hf => ?_⟩
  · apply List.eq_nil_iff_forall_not_mem.mpr
    intro f hf
    have hbelow := th.placed f (List.mem_append_left _ hf)
    rw [if_pos hmain] at hbelow
    exact BitVec.not_lt.mpr (habove f hf) hbelow
  · have hplaced := th.placed f (List.mem_append_left _ hf)
    have hother : th.kind ≠ .main := fun heq => by simp [hmain heq] at hf
    rwa [if_neg hother] at hplaced

/-! ### The main thread -/

/-- Two frames of the main thread, and a handler in the outer one. -/
def Thread.twoFrames : Thread where
  inner := [⟨0xbffff000, false⟩]
  last := ⟨0xbffff100, true⟩
  chain := [⟨0xbffff080, 1⟩]
  inner_end := by decide
  last_end := rfl
  cfa_lt := by decide
  addr_lt := by decide
  frame_le := by decide
  cfa_le := by decide
  kind := .main
  exc := 0x08050000
  placed := by decide

/-- The first frame counts as the last. The handler of the outer frame runs there, and the
thread ends before that frame is unwound. -/
theorem main_thread_unwinds_early :
    Thread.twoFrames.exit 0 Thread.twoFrames.exc 0 =
      [.handler ⟨0xbffff080, 1⟩ 0, .pthreadCleanup ⟨0x08050000, [], 0, PT_FLG_EXITING⟩ 0] ∧
    ¬ Unwound Thread.twoFrames.toLayout 0 Thread.twoFrames.exc 0 := by
  have hcalls : Thread.twoFrames.exit 0 Thread.twoFrames.exc 0 =
      [.handler ⟨0xbffff080, 1⟩ 0, .pthreadCleanup ⟨0x08050000, [], 0, PT_FLG_EXITING⟩ 0] := by
    decide
  refine ⟨hcalls, ?_⟩
  intro h
  have hearly := h.timely ⟨0xbffff080, 1⟩ 0 (by rw [hcalls]; exact List.mem_cons_self)
  exact absurd hearly (by decide)

end Hlpt.Exit
