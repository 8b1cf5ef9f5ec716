import Hlpt.Lib.Linear
import Mathlib.Logic.Relation

/-!
# `Hlpt.Lib.Section`: the code of a call between taking and freeing a lock

A shared object is often some data and a lock: each call takes the lock, runs its code on
the data, access by access, and frees the lock. `Section` is this code. What has to be
known of it is `Section.Meets`, which looks at one thread that runs alone: whatever accesses
its code makes, when it is through, the data stand for what the operation of the atomic
object gives.

A thread also knows something of the object between its calls, such as that it has put an
entry there. This is its client state, which decides what it may call, and the operations of
the other threads keep what it knows.
-/

set_option autoImplicit false

namespace Hlpt.Lib

universe u v w x y z k l

/-- The code of the calls on some data. A thread whose client state does not allow the
operation does not `start` it. -/
structure Section (T : Type w) (ε : Type y) (δ : Type z) (κ : Type k) (L : Type l)
    (Op : Type u) (Res : Type v) where
  start : T → κ → Op → Option L
  exec : Exec T ε δ L
  finish : L → Option Res
  after : κ → Op → κ

namespace Section

variable {T : Type w} {ε : Type y} {δ : Type z} {κ : Type k} {L : Type l} {Op : Type u}
  {Res : Type v} {σ : Type x}

/-- The thread `t` alone gets from the one place in its code to the other, and changes the
data on its way. -/
def Runs (S : Section T ε δ κ L Op Res) (t : T) : δ × L → δ × L → Prop :=
  Relation.ReflTransGen fun x y => ∃ c, S.exec t c x.1 x.2 = some y

/-- What every access keeps, a run keeps. -/
theorem Runs.invariant {S : Section T ε δ κ L Op Res} {t : T} {P : δ → L → Prop}
    (hstep : ∀ c d p d' p', P d p → S.exec t c d p = some (d', p') → P d' p') {d d' : δ}
    {p p' : L} (h : S.Runs t (d, p) (d', p')) (hp : P d p) : P d' p' := by
  have hrun : ∀ y, S.Runs t (d, p) y → P y.1 y.2 := by
    intro y hy
    induction hy with
    | refl => exact hp
    | tail _ hlast ih =>
        obtain ⟨c, hc⟩ := hlast
        exact hstep c _ _ _ _ ih hc
  exact hrun _ h

/-- The code does what the atomic object says, on the data that stand for its state. -/
structure Meets (S : Section T ε δ κ L Op Res) (O : Object T σ Op Res) (Rep : δ → σ → Prop)
    (Knows : T → κ → σ → Prop) : Prop where
  alone : ∀ t q o p d a d' p' r, Rep d a → Knows t q a → S.start t q o = some p →
    S.Runs t (d, p) (d', p') → S.finish p' = some r →
    ∃ a', O.apply t o r a = some a' ∧ Rep d' a' ∧ Knows t (S.after q o) a'
  others : ∀ t o r a a' u q, u ≠ t → O.apply t o r a = some a' → Knows u q a → Knows u q a'

end Section

end Hlpt.Lib
