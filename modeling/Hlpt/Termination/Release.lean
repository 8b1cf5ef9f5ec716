import Hlpt.Termination.Steps

/-!
# `Hlpt.Termination.Release`: the stack of a thread is released once

The stack is released by the kernel when the target finds itself detached, and by the
caller with the claim when it does not. `thread_released_once` says that this is one
release, after the target has terminated, that nobody waits in vain, and that nobody
accesses the descriptor afterwards.

It holds in runs of `Orderly` steps. The condition has four parts:

* `InLife`: the contract of the callers, who use the descriptor only while the stack is
  there. `pthread_detach` breaks it by itself when the target finds itself detached, and
  the kernel frees the stack, between the compare-and-swap and the read of the flags.
* `SeesEnd`: `pthread_detach` takes `PT_FLG_EXITING` as the sign that the target is
  joinable to the end. `pthread_exit` sets the flag long before the target reads
  `detached_p`, and `__pthread_cleanup` sets it after that, so the two may disagree.
* `KeepsClaim`: a detach that loses its compare-and-swap to a joiner returns 0 and leaves
  the release to the joiner, which may still time out or be cancelled.
* `FreshId`: `pthread_timedjoin_np` takes a failed comparison of the id as the death
  event, and the id also changes in `thread_entry`.

`thread_released_once_fails` has a run for each of them, and one for that race of
`pthread_detach`.
-/

set_option autoImplicit false

namespace Hlpt.Termination

open Hlpt.Lib

universe u

variable {T : Type u} [DecidableEq T] {tgt : Target T} {t : T} {c : Choice T} {m : Mem T}
  {l : Local}

/-! ### The condition on the steps -/

/-- The value of `detached_p`, once the target has read it. -/
def found (tgt : Target T) (s : Global T (Mem T) Local) : Option Bool :=
  (s.loc tgt.th).pc.sampled

/-- The contract of the callers: a call starts only while the stack is there, and whoever
releases it is the last one inside. A caller cannot keep to this in a `pthread_detach`
between its compare-and-swap and its read of the flags: from the swap on the target may
terminate as a detached thread. -/
def InLife (s : Global T (Mem T) Local) (a : T × Choice T) : Prop :=
  match (s.loc a.1).pc with
  | .idle => s.mem.releases = []
  | .kernelFree true _ _ | .vmDeallocate .. => ∀ u, u ≠ a.1 → (s.loc u).pc.uses = false
  | _ => True

/-- A detacher that looks at `PT_FLG_EXITING` finds it exactly when the target has found
itself joinable. -/
def SeesEnd (tgt : Target T) (s : Global T (Mem T) Local) (a : T × Choice T) : Prop :=
  match (s.loc a.1).pc with
  | .detachFlags =>
      s.mem.flags &&& PT_FLG_EXITING ≠ 0 ↔ found tgt s = some false
  | _ => True

/-- A joiner to which a detach lost its compare-and-swap does not give up. -/
def KeepsClaim (s : Global T (Mem T) Local) (a : T × Choice T) : Prop :=
  match (s.loc a.1).pc with
  | .joinCancel | .joinUndo => s.mem.lost = false
  | _ => True

/-- The id that a timed join waits for is not the one from before `thread_entry`. -/
def FreshId (s : Global T (Mem T) Local) (a : T × Choice T) : Prop :=
  match (s.loc a.1).pc with
  | .joinWait (.timedjoin tsp) id =>
      a.2.cancel = true ∨ expired tsp a.2.now = true ∨ s.mem.id = id ∨ s.mem.id = 0
  | _ => True

/-- The condition on a step. -/
def Orderly (tgt : Target T) (s : Global T (Mem T) Local) (a : T × Choice T) : Prop :=
  InLife s a ∧ SeesEnd tgt s a ∧ KeepsClaim s a ∧ FreshId s a

/-! ### The invariant -/

/-- The descriptor and the threads agree about who releases the stack. -/
structure Inv (tgt : Target T) (s : Global T (Mem T) Local) : Prop where
  target : ∀ t, (s.loc t).pc.ofTarget = true ↔ t = tgt.th
  event : s.mem.id = 0 ↔ (s.loc tgt.th).pc = .dead false
  usr : s.mem.flags &&& PT_FLG_USR_STACK = 0
  pc : ∀ t, PcOk tgt t (found tgt s) s.mem (s.loc t).pc
  detachedFound : found tgt s = some true → s.mem.joinpt = some tgt.th
  free : s.mem.joinpt = none →
    s.mem.releases = [] ∧ s.mem.flags &&& PT_FLG_TERMINATED = 0
  joiner : ∀ t, (s.loc t).pc.claim = some .joiner → s.mem.joinpt = some t
  detacher : ∀ t, (s.loc t).pc.claim = some .detacher → s.mem.joinpt = some tgt.th
  alone : ∀ t u, (s.loc t).pc.claim ≠ none → (s.loc u).pc.claim ≠ none → t = u
  claim : ∀ t, (s.loc t).pc.claim ≠ none → s.mem.releases = [] ∧
    (s.mem.flags &&& PT_FLG_TERMINATED = 0 ↔ (s.loc t).pc.frees = false)
  heldJoin : ∀ t, t ≠ tgt.th → s.mem.joinpt = some t →
    (s.loc t).pc.claim = some .joiner ∨ s.mem.releases ≠ []
  heldDetach : s.mem.joinpt = some tgt.th → found tgt s = some false →
    (∃ t, (s.loc t).pc.claim = some .detacher) ∨ s.mem.releases ≠ []
  released : s.mem.releases ≠ [] → ∃ d, (s.loc tgt.th).pc = .dead d
  once : s.mem.releases = [] ∨ s.mem.releases = [tgt.range]
  dead : (s.loc tgt.th).pc = .dead true → s.mem.releases ≠ []
  users : ∀ t, (s.loc t).pc.uses = true → s.mem.releases = []
  lost : s.mem.lost = true → s.mem.joinpt ≠ none
  joined : s.mem.joined = true → s.mem.releases ≠ []
  detached : s.mem.detached = true → s.mem.joinpt = some tgt.th ∨ s.mem.lost = true

omit [DecidableEq T] in
/-- A thread with a claim is in `joinpt`, or has put the target there. -/
theorem Inv.joinpt_ne {s : Global T (Mem T) Local} (hs : Inv tgt s) {u : T}
    (hu : (s.loc u).pc.claim ≠ none) : s.mem.joinpt ≠ none := by
  cases hc : (s.loc u).pc.claim with
  | none => exact absurd hc hu
  | some w =>
      cases w with
      | joiner => rw [hs.joiner u hc]; exact Option.some_ne_none u
      | detacher => rw [hs.detacher u hc]; exact Option.some_ne_none _

omit [DecidableEq T] in
/-- The target has no claim. -/
theorem Inv.ne_target {s : Global T (Mem T) Local} (hs : Inv tgt s) {u : T}
    (hu : (s.loc u).pc.claim ≠ none) : u ≠ tgt.th := by
  intro he
  have h1 := (hs.target u).mpr he
  rw [Pc.ofTarget_of_claim hu] at h1
  cases h1

/-- At most one caller has a claim. -/
theorem Inv.alone_step {s : Global T (Mem T) Local} (hs : Inv tgt s)
    (h : exec tgt t c s.mem (s.loc t) = some (m, l)) {u v : T}
    (hu : (Function.update s.loc t l u).pc.claim ≠ none)
    (hv : (Function.update s.loc t l v).pc.claim ≠ none) : u = v := by
  refine unique_update (P := fun l : Local => l.pc.claim ≠ none) hs.alone (fun hl => ?_) hu hv
  cases exec_effect h with
  | quiet hj hr hc hf hm => exact .inl (hc ▸ hl)
  | claim w hn hj hr hc hc' hf hm => exact .inr fun u _ hu => hs.joinpt_ne hu hn
  | rollback hpc hj hr hc' hm => exact absurd hc' hl
  | leave hpc hx hj hr hc' hm => exact absurd hc' hl
  | terminated w hpc hj hr hm hpc' => exact .inl (by simp [hpc, Pc.claim])
  | user w hpc hx => exact absurd hs.usr hx
  | free w addr size hpc hj hr hc' hm => exact absurd (by rw [hc']; rfl) hl
  | kernel d stack size hpc hj hr hpc' hm =>
      rw [hpc'] at hl
      cases d <;> exact absurd rfl hl

/-- A thread with a claim had it before this step, or has found `joinpt` free. -/
theorem Inv.claim_cases {s : Global T (Mem T) Local} (hs : Inv tgt s)
    (h : exec tgt t c s.mem (s.loc t) = some (m, l)) {w : Who} (hl : l.pc.claim = some w) :
    ((s.loc t).pc.claim = some w ∧ m.joinpt = s.mem.joinpt) ∨
    m.joinpt = some (if w = .joiner then t else tgt.th) := by
  cases exec_effect h with
  | quiet hj hr hc hf hm => exact .inl ⟨hc ▸ hl, hj⟩
  | claim w' hn hj hr hc hc' hf hm =>
      obtain rfl := Option.some.inj (hc'.symm.trans hl)
      cases w' <;> exact .inr hj
  | rollback hpc hj hr hc' hm | leave hpc hx hj hr hc' hm =>
      rw [hc'] at hl
      cases hl
  | terminated w' hpc hj hr hm hpc' =>
      rw [hpc'] at hl
      split at hl
      · exact .inl ⟨by rw [hpc]; exact hl, hj⟩
      · cases hl
  | user w' hpc hx => exact absurd hs.usr hx
  | free w' addr size hpc hj hr hc' hm =>
      rw [hc'] at hl
      cases hl
  | kernel d stack size hpc hj hr hpc' hm =>
      rw [hpc'] at hl
      cases d <;> cases hl

/-- While another thread has a claim, a step leaves `joinpt`. -/
theorem Inv.joinpt_keeps {s : Global T (Mem T) Local} (hs : Inv tgt s)
    (h : exec tgt t c s.mem (s.loc t) = some (m, l)) {u : T} (hut : u ≠ t)
    (hu : (s.loc u).pc.claim ≠ none) : m.joinpt = s.mem.joinpt := by
  cases exec_effect h with
  | quiet hj | leave _ _ hj | terminated _ _ hj | free _ _ _ _ hj | kernel _ _ _ _ hj => exact hj
  | claim w hn => exact absurd hn (hs.joinpt_ne hu)
  | rollback hpc hj =>
      -- The thread that gives up has the claim.
      have ht : (s.loc t).pc.claim ≠ none := by
        rcases hpc with hpc | hpc <;> rw [hpc] <;> exact nofun
      exact absurd (hs.alone u t hu ht) hut
  | user w hpc hx => exact absurd hs.usr hx

/-- A claim is recorded in `joinpt`. -/
theorem Inv.joiner_step {s : Global T (Mem T) Local} (hs : Inv tgt s)
    (h : exec tgt t c s.mem (s.loc t) = some (m, l)) :
    (∀ u, (Function.update s.loc t l u).pc.claim = some .joiner → m.joinpt = some u) ∧
    ∀ u, (Function.update s.loc t l u).pc.claim = some .detacher → m.joinpt = some tgt.th := by
  refine ⟨forall_loc_iff (P := fun u (l : Local) => l.pc.claim = some .joiner → m.joinpt = some u)
      |>.mpr ⟨fun hl => ?_, fun u hut hu => ?_⟩,
    forall_loc_iff (P := fun _ (l : Local) => l.pc.claim = some .detacher →
      m.joinpt = some tgt.th) |>.mpr ⟨fun hl => ?_, fun u hut hu => ?_⟩⟩
  · rcases hs.claim_cases h hl with ⟨hc, hj⟩ | hj
    · rw [hj, hs.joiner t hc]
    · exact hj
  · rw [hs.joinpt_keeps h hut (by rw [hu]; exact nofun), hs.joiner u hu]
  · rcases hs.claim_cases h hl with ⟨hc, hj⟩ | hj
    · rw [hj, hs.detacher t hc]
    · exact hj
  · rw [hs.joinpt_keeps h hut (by rw [hu]; exact nofun), hs.detacher u hu]

omit [DecidableEq T] in
/-- The kernel frees nothing or the stack of a target that found itself detached. -/
theorem Inv.kernelFree {s : Global T (Mem T) Local} (hs : Inv tgt s) {d : Bool}
    {stack size : BitVec 32} (hpc : (s.loc t).pc = .kernelFree d stack size) :
    t = tgt.th ∧ s.mem.releases = [] ∧ s.mem.id ≠ 0 ∧
    (if stack ≠ 0 ∨ size ≠ 0 then (stack, size) :: s.mem.releases else s.mem.releases) =
      if d then [tgt.range] else [] := by
  have ht : t = tgt.th := (hs.target t).mp (by rw [hpc]; rfl)
  have hrel : s.mem.releases = [] := by
    by_contra hne
    obtain ⟨d', hd'⟩ := hs.released hne
    rw [← ht, hpc] at hd'
    cases hd'
  have hid : s.mem.id ≠ 0 := by
    intro h0
    have hd' := hs.event.mp h0
    rw [← ht, hpc] at hd'
    cases hd'
  refine ⟨ht, hrel, hid, ?_⟩
  have hrange := hs.pc t
  rw [hpc] at hrange
  simp only [PcOk] at hrange
  rw [hrel]
  cases d with
  | true =>
      simp only [if_true, Target.range, Prod.mk.injEq] at hrange
      obtain ⟨rfl, rfl⟩ := hrange
      rw [if_pos (.inr tgt.size_ne)]
      rfl
  | false =>
      simp only [Bool.false_eq_true, if_false, Prod.mk.injEq] at hrange
      obtain ⟨rfl, rfl⟩ := hrange
      simp

/-- A caller with a claim that no longer needs the descriptor is in `vm_deallocate`. -/
theorem Pc.vmDeallocate_of_claim {pc : Pc} (hc : pc.claim ≠ none) (hu : pc.uses = false) :
    ∃ w addr size, pc = .vmDeallocate w addr size := by
  cases pc <;> first | exact ⟨_, _, _, rfl⟩ | exact absurd rfl hc | cases hu

/-- The releases and the mark of `__pthread_deallocate`. -/
theorem Inv.claim_step {s : Global T (Mem T) Local} (hs : Inv tgt s)
    (hok : InLife s (t, c)) (h : exec tgt t c s.mem (s.loc t) = some (m, l)) :
    ∀ u, (Function.update s.loc t l u).pc.claim ≠ none → m.releases = [] ∧
      (m.flags &&& PT_FLG_TERMINATED = 0 ↔ (Function.update s.loc t l u).pc.frees = false) := by
  refine forall_loc_iff (P := fun _ (l : Local) => l.pc.claim ≠ none → m.releases = [] ∧
    (m.flags &&& PT_FLG_TERMINATED = 0 ↔ l.pc.frees = false)) |>.mpr
      ⟨fun hu => ?_, fun u hut hu => ?_⟩
  · cases exec_effect h with
    | quiet hj hr hc hf hm =>
        rw [hr, hm, hf]
        exact hs.claim t (hc ▸ hu)
    | claim w hn hj hr hc hc' hf hm =>
        obtain ⟨hrel, hm0⟩ := hs.free hn
        rw [hr, hm]
        exact ⟨hrel, iff_of_true hm0 hf⟩
    | rollback hpc hj hr hc' hm => exact absurd hc' hu
    | leave hpc hx hj hr hc' hm => exact absurd hc' hu
    | terminated w hpc hj hr hm hpc' =>
        obtain ⟨hrel, hm0⟩ := hs.claim t (by simp [hpc, Pc.claim])
        have hm0' := hm0.mpr (by simp [hpc, Pc.frees])
        rw [if_pos hm0'] at hpc'
        rw [hpc', hr, hm, or_and_self]
        exact ⟨hrel, iff_of_false (by decide) (by simp [Pc.frees])⟩
    | user w hpc hx => exact absurd hs.usr hx
    | free w addr size hpc hj hr hc' hm => exact absurd (by rw [hc']; rfl) hu
    | kernel d stack size hpc hj hr hpc' hm =>
        rw [hpc'] at hu
        cases d <;> exact absurd rfl hu
  · cases exec_effect h with
    | quiet hj hr hc hf hm =>
        rw [hr, hm]
        exact hs.claim u hu
    | claim w hn => exact absurd hn (hs.joinpt_ne hu)
    | rollback hpc hj hr hc' hm | leave hpc hx hj hr hc' hm =>
        rw [hr, hm]
        exact hs.claim u hu
    | terminated w hpc => exact absurd (hs.alone u t hu (by rw [hpc]; exact nofun)) hut
    | user w hpc hx => exact absurd hs.usr hx
    | free w addr size hpc => exact absurd (hs.alone u t hu (by rw [hpc]; exact nofun)) hut
    | kernel d stack size hpc hj hr hpc' hm =>
        obtain ⟨ht, hrel, hid, hnew⟩ := hs.kernelFree hpc
        rw [hr, hnew, hm]
        cases d with
        | false => exact ⟨rfl, (hs.claim u hu).2⟩
        | true =>
            -- No other caller is inside, and one in `vm_deallocate` has seen the target dead.
            have hin : ∀ u, u ≠ t → (s.loc u).pc.uses = false := by
              simpa only [InLife, hpc] using hok
            obtain ⟨w, addr, size, hu'⟩ := Pc.vmDeallocate_of_claim hu (hin u hut)
            have hpcu := hs.pc u
            rw [hu'] at hpcu
            exact absurd hpcu.1 hid

/-- A step of the target in which it reads `detached_p`, or what it read before. -/
theorem found_step {s : Global T (Mem T) Local}
    (h : exec tgt t c s.mem (s.loc t) = some (m, l)) :
    found tgt ⟨m, Function.update s.loc t l⟩ = found tgt s ∨
    ((s.loc t).pc = .sample ∧ found tgt s = none ∧ m = s.mem ∧
      found tgt ⟨m, Function.update s.loc t l⟩ = some (s.mem.detachedP tgt)) := by
  by_cases ht : t = tgt.th
  · subst ht
    simp only [found, Function.update_self]
    rcases exec_sampled h with h1 | ⟨h1, h2, h3⟩
    · exact .inl h1
    · exact .inr ⟨h1, by rw [h1]; rfl, h3, h2⟩
  · refine .inl ?_
    simp only [found]
    rw [Function.update_of_ne (Ne.symm ht)]

/-- The caller that `joinpt` names is to release the stack. -/
theorem Inv.heldJoin_step {s : Global T (Mem T) Local} (hs : Inv tgt s)
    (h : exec tgt t c s.mem (s.loc t) = some (m, l)) {u : T} (hu : u ≠ tgt.th)
    (hju : m.joinpt = some u) :
    (Function.update s.loc t l u).pc.claim = some .joiner ∨ m.releases ≠ [] := by
  rw [Function.update_apply]
  -- The step leaves `joinpt` and the releases, and the claim of the thread if it is `u`.
  have hkeep : m.joinpt = s.mem.joinpt → m.releases = s.mem.releases →
      (u = t → l.pc.claim = (s.loc t).pc.claim) →
      (if u = t then l else s.loc u).pc.claim = some .joiner ∨ m.releases ≠ [] := by
    intro hj hr hc
    rw [hr]
    apply (hs.heldJoin u hu (hj ▸ hju)).imp_left
    intro hold
    split
    · next hut => rw [hc hut, ← hut, hold]
    · exact hold
  cases exec_effect h with
  | quiet hj hr hc hf hm => exact hkeep hj hr fun _ => hc
  | claim w hn hj hr hc hc' hf hm =>
      have hw := Option.some.inj (hju.symm.trans hj)
      cases w with
      | joiner => exact .inl (by rw [if_pos hw, hc'])
      | detacher => exact absurd hw hu
  | rollback hpc hj hr hc' hm =>
      have hjt : s.mem.joinpt ≠ some t := by
        intro hjt
        rw [if_pos hjt, hju] at hj
        cases hj
      rw [if_neg hjt] at hj
      exact hkeep hj hr fun hut => absurd (hut ▸ hj.symm.trans hju) hjt
  | leave hpc hx hj hr hc' hm =>
      -- A detacher has put the target in `joinpt`.
      have hd := hs.detacher t (by rw [hpc]; rfl)
      exact absurd (Option.some.inj (hju.symm.trans (hj.trans hd))) hu
  | terminated w hpc hj hr hm hpc' =>
      obtain ⟨-, hm0⟩ := hs.claim t (by rw [hpc]; exact nofun)
      rw [if_pos (hm0.mpr (by rw [hpc]; rfl))] at hpc'
      exact hkeep hj hr fun _ => by rw [hpc', hpc]; rfl
  | user w hpc hx => exact absurd hs.usr hx
  | free w addr size hpc hj hr hc' hm => exact .inr (by rw [hr]; exact List.cons_ne_nil _ _)
  | kernel d stack size hpc hj hr hpc' hm =>
      obtain ⟨ht, hrel, -, -⟩ := hs.kernelFree hpc
      rw [hj] at hju
      rw [if_neg (ht ▸ hu)]
      exact .inl ((hs.heldJoin u hu hju).resolve_right (fun hne => hne hrel))

/-- When the target is detached after it found itself joinable, a detacher is to release
the stack. -/
theorem Inv.heldDetach_step {s : Global T (Mem T) Local} (hs : Inv tgt s)
    (hok : SeesEnd tgt s (t, c)) (h : exec tgt t c s.mem (s.loc t) = some (m, l))
    (hj : m.joinpt = some tgt.th)
    (hsam : found tgt ⟨m, Function.update s.loc t l⟩ = some false) :
    (∃ u, (Function.update s.loc t l u).pc.claim = some .detacher) ∨ m.releases ≠ [] := by
  have hheld := hs.heldDetach
  -- The target has read `detached_p` before this step.
  have hsam' : found tgt s = some false := by
    rcases found_step h with h1 | ⟨-, -, h3, h4⟩
    · rw [← h1, hsam]
    · rw [h4] at hsam
      rw [h3] at hj
      simp [Mem.detachedP, hj] at hsam
  -- A detacher keeps its claim unless it is the thread that moves.
  have hkeep : ((s.loc t).pc.claim = some .detacher → l.pc.claim = some .detacher) →
      (∃ u, (s.loc u).pc.claim = some .detacher) →
      ∃ u, (Function.update s.loc t l u).pc.claim = some .detacher := by
    rintro hl ⟨u, hu⟩
    refine ⟨u, ?_⟩
    rw [Function.update_apply]
    split
    · rename_i hut
      exact hl (hut ▸ hu)
    · exact hu
  cases exec_effect h with
  | quiet hj' hr hc' hf hm =>
      exact (hheld (hj' ▸ hj) hsam').imp (hkeep fun ht => hc'.trans ht) (hr ▸ id)
  | claim w hn hj' hr hc' hc'' hf hm =>
      cases w with
      | detacher => exact .inl ⟨t, by rwa [Function.update_self]⟩
      | joiner =>
          -- A joiner is not the target.
          have ht : t = tgt.th := Option.some.inj (hj'.symm.trans hj)
          have hof := (hs.target t).mpr ht
          rw [← exec_ofTarget h, Pc.ofTarget_of_claim (by simp [hc''])] at hof
          cases hof
  | rollback hpc hj' hr hc' hm =>
      have hjo : s.mem.joinpt = some tgt.th := by
        rw [hj'] at hj
        split at hj
        · cases hj
        · exact hj
      refine (hheld hjo hsam').imp (hkeep fun ht => ?_) (hr ▸ id)
      rcases hpc with hpc | hpc <;> simp [hpc, Pc.claim] at ht
  | leave hpc hx hj' hr hc' hm =>
      have hsees : s.mem.flags &&& PT_FLG_EXITING ≠ 0 ↔ found tgt s = some false := by
        simpa only [SeesEnd, hpc] using hok
      exact absurd hx (hsees.mpr hsam')
  | terminated w hpc hj' hr hm hpc' =>
      have hm0 := (hs.claim t (by simp [hpc, Pc.claim])).2.mpr (by simp [hpc, Pc.frees])
      rw [if_pos hm0] at hpc'
      refine (hheld (hj' ▸ hj) hsam').imp (hkeep fun ht => ?_) (hr ▸ id)
      rw [hpc'] 
      rwa [hpc] at ht
  | user w hpc hx => exact absurd hs.usr hx
  | free w addr size hpc hj' hr hc' hm =>
      rw [hr]
      exact .inr (List.cons_ne_nil _ _)
  | kernel d stack size hpc hj' hr hpc' hm =>
      obtain ⟨-, hrel, -, -⟩ := hs.kernelFree hpc
      have hold := (hheld (hj' ▸ hj) hsam').resolve_right (fun hne => hne hrel)
      exact .inl (hkeep (fun ht => by simp [hpc, Pc.claim] at ht) hold)

omit [DecidableEq T] in
/-- What a control point says does not depend on what the target has not read yet. -/
theorem PcOk.found {u : T} {σ σ' : Option Bool} {pc : Pc} (h : PcOk tgt u σ m pc)
    (hσ : σ = some false → σ' = some false) : PcOk tgt u σ' m pc := by
  cases pc with
  | detachLoad | detachWait _ | detachAsleep => exact hσ h
  | ret w r => cases w <;> exact h
  | _ => exact h

/-- The control points. -/
theorem Inv.pc_step {s : Global T (Mem T) Local} (hs : Inv tgt s)
    (hok : Orderly tgt s (t, c)) (h : exec tgt t c s.mem (s.loc t) = some (m, l)) :
    ∀ u, PcOk tgt u (Termination.found tgt ⟨m, Function.update s.loc t l⟩) m
      (Function.update s.loc t l u).pc := by
  obtain ⟨-, hsees, -, hfresh⟩ := hok
  have hfound : Termination.found tgt s = some false →
      Termination.found tgt ⟨m, Function.update s.loc t l⟩ = some false := by
    intro hf
    rcases found_step h with h1 | ⟨-, h2, -⟩
    · rw [h1, hf]
    · rw [h2] at hf
      cases hf
  refine forall_loc_iff (P := fun u (l' : Local) =>
    PcOk tgt u (Termination.found tgt ⟨m, Function.update s.loc t l⟩) m l'.pc) |>.mpr
      ⟨PcOk.found ?_ hfound, fun u hut => PcOk.found ?_ hfound⟩
  · refine exec_pcOk (hs.pc t) h hs.usr (fun w hpc => ?_) (hs.detacher t) (fun hpc hx => ?_)
      (fun tsp id hpc hc hx => ?_)
    · exact (hs.claim t (by simp [hpc, Pc.claim])).2.mpr (by simp [hpc, Pc.frees])
    · simp only [SeesEnd, hpc] at hsees
      exact hsees.mp hx
    · simp only [FreshId, hpc] at hfresh
      rcases hfresh with h1 | h1 | h1
      · rw [hc] at h1
        cases h1
      · rw [hx] at h1
        cases h1
      · exact h1
  · refine (hs.pc u).frame h hut (fun h0 he => ?_) (fun ht => (hs.target t).mpr ht)
    -- The target starts only once, so its id is still the invalid one.
    have ht : t = tgt.th := (hs.target t).mp (by rw [he]; rfl)
    have hd := hs.event.mp h0
    rw [← ht, he] at hd
    cases hd

/-- The stack is released at most once, and only when the target is dead. -/
theorem Inv.once_step {s : Global T (Mem T) Local} (hs : Inv tgt s)
    (h : exec tgt t c s.mem (s.loc t) = some (m, l)) :
    (m.releases = [] ∨ m.releases = [tgt.range]) ∧
    (m.releases ≠ [] → ∃ d, (Function.update s.loc t l tgt.th).pc = .dead d) := by
  -- A dead target does not move.
  have hdead : ∀ d, (s.loc tgt.th).pc = .dead d →
      (Function.update s.loc t l tgt.th).pc = .dead d := by
    intro d hd
    have ht : tgt.th ≠ t := by
      rintro rfl
      simp [exec, hd] at h
    rwa [Function.update_of_ne ht]
  rcases exec_releases h with hr | ⟨w, addr, size, hpc, hr⟩ | ⟨d, stack, size, hpc, hr, hpc'⟩
  · rw [hr]
    exact ⟨hs.once, fun hne => (hs.released hne).imp hdead⟩
  · have hrel := (hs.claim t (by simp [hpc, Pc.claim])).1
    have hok := hs.pc t
    rw [hpc] at hok
    obtain ⟨h0, hrange⟩ := hok
    rw [hr, hrel, hrange]
    exact ⟨.inr rfl, fun _ => ⟨false, hdead false (hs.event.mp h0)⟩⟩
  · obtain ⟨ht, -, -, hnew⟩ := hs.kernelFree hpc
    rw [hr, hnew, ← ht, Function.update_self, hpc']
    cases d with
    | true => exact ⟨.inr rfl, fun _ => ⟨true, rfl⟩⟩
    | false => exact ⟨.inl rfl, fun hne => absurd rfl hne⟩

/-- No caller that still has to access the descriptor outlives the stack. -/
theorem Inv.users_step {s : Global T (Mem T) Local} (hs : Inv tgt s) (hok : InLife s (t, c))
    (h : exec tgt t c s.mem (s.loc t) = some (m, l)) :
    ∀ u, (Function.update s.loc t l u).pc.uses = true → m.releases = [] := by
  refine forall_loc_iff (P := fun _ (l : Local) => l.pc.uses = true → m.releases = []) |>.mpr
      ⟨fun hu => ?_, fun u hut hu => ?_⟩
  · obtain ⟨hold | hidle, hr⟩ := exec_uses h hu
    · rw [hr]
      exact hs.users t hold
    · rw [hr]
      simpa only [InLife, hidle] using hok
  · rcases exec_releases h with hr | ⟨w, addr, size, hpc, hr⟩ | ⟨d, stack, size, hpc, hr, -⟩
    · rw [hr]
      exact hs.users u hu
    · have hin : ∀ u, u ≠ t → (s.loc u).pc.uses = false := by
        simpa only [InLife, hpc] using hok
      rw [hin u hut] at hu
      cases hu
    · obtain ⟨-, -, -, hnew⟩ := hs.kernelFree hpc
      cases d with
      | false => rw [hr, hnew]; rfl
      | true =>
          have hin : ∀ u, u ≠ t → (s.loc u).pc.uses = false := by
            simpa only [InLife, hpc] using hok
          rw [hin u hut] at hu
          cases hu

/-- Whatever `joinpt` pointed to, a step that clears it is a joiner's that gives up, and
nothing was released. -/
theorem Inv.free_step {s : Global T (Mem T) Local} (hs : Inv tgt s)
    (h : exec tgt t c s.mem (s.loc t) = some (m, l)) (hn : m.joinpt = none) :
    m.releases = [] ∧ m.flags &&& PT_FLG_TERMINATED = 0 ∧
    (s.mem.joinpt ≠ none → (s.loc t).pc = .joinCancel ∨ (s.loc t).pc = .joinUndo) := by
  have hfree := hs.free
  have hjn := fun u => hs.joinpt_ne (u := u)
  cases exec_effect h with
  | quiet hj hr hc hf hm =>
      rw [hj] at hn
      rw [hr, hm]
      exact ⟨(hfree hn).1, (hfree hn).2, fun hne => absurd hn hne⟩
  | claim w hn' hj hr hc hc' hf hm =>
      rw [hj] at hn
      cases hn
  | rollback hpc hj hr hc' hm =>
      have hcl : (s.loc t).pc.claim ≠ none ∧ (s.loc t).pc.frees = false := by
        rcases hpc with hpc | hpc <;> simp [hpc, Pc.claim, Pc.frees]
      obtain ⟨hrel, hterm⟩ := hs.claim t hcl.1
      rw [hr, hm]
      exact ⟨hrel, hterm.mpr hcl.2, fun _ => hpc⟩
  | leave hpc hx hj hr hc' hm =>
      exact absurd (hj ▸ hn) (hjn t (by simp [hpc, Pc.claim]))
  | terminated w hpc hj hr hm hpc' =>
      exact absurd (hj ▸ hn) (hjn t (by simp [hpc, Pc.claim]))
  | user w hpc hx => exact absurd hs.usr hx
  | free w addr size hpc hj hr hc' hm =>
      exact absurd (hj ▸ hn) (hjn t (by simp [hpc, Pc.claim]))
  | kernel d stack size hpc hj hr hpc' hm =>
      rw [hj] at hn
      rw [hm]
      refine ⟨?_, (hfree hn).2, fun hne => absurd hn hne⟩
      obtain ⟨-, -, -, hnew⟩ := hs.kernelFree hpc
      cases d with
      | false => rw [hr, hnew]; rfl
      | true =>
          -- The target found itself detached, and stays so.
          obtain ⟨ht, -, -, -⟩ := hs.kernelFree hpc
          have hf : Termination.found tgt s = some true := by
            rw [Termination.found, ← ht, hpc]
            rfl
          rw [hs.detachedFound hf] at hn
          cases hn

/-- The target is dead with its event exactly when its id is 0. -/
theorem Inv.event_step {s : Global T (Mem T) Local} (hs : Inv tgt s)
    (h : exec tgt t c s.mem (s.loc t) = some (m, l)) :
    m.id = 0 ↔ (Function.update s.loc t l tgt.th).pc = .dead false :=
  exec_event (hs.target t).mp hs.event h

/-- The kernel releases the stack of a detached target. -/
theorem Inv.dead_step {s : Global T (Mem T) Local} (hs : Inv tgt s)
    (h : exec tgt t c s.mem (s.loc t) = some (m, l))
    (hd : (Function.update s.loc t l tgt.th).pc = .dead true) : m.releases ≠ [] := by
  by_cases ht : t = tgt.th
  · rw [← ht, Function.update_self] at hd
    obtain ⟨stack, size, hpc, hr⟩ := exec_dead h hd
    obtain ⟨-, -, -, hnew⟩ := hs.kernelFree hpc
    rw [hr, hnew]
    exact List.cons_ne_nil _ _
  · rw [Function.update_of_ne (Ne.symm ht)] at hd
    exact (exec_keeps h).1 (hs.dead hd)

/-- A detached target stays detached. -/
theorem Inv.joinpt_step {s : Global T (Mem T) Local} (hs : Inv tgt s)
    (h : exec tgt t c s.mem (s.loc t) = some (m, l)) (hj : s.mem.joinpt = some tgt.th) :
    m.joinpt = some tgt.th := by
  rcases (exec_keeps h).2.1 hj with h1 | ⟨h1, h2⟩
  · exact h1
  · rw [(hs.target t).mpr h1] at h2
    cases h2

/-- What a detach that returned 0 leaves behind. -/
theorem Inv.lost_step {s : Global T (Mem T) Local} (hs : Inv tgt s) (hok : KeepsClaim s (t, c))
    (h : exec tgt t c s.mem (s.loc t) = some (m, l)) (hl : m.lost = true) :
    m.joinpt ≠ none := by
  intro hn
  rcases (exec_ghosts h).2.2.2 hl with hold | ⟨-, hj, hne⟩
  · rcases (hs.free_step h hn).2.2 (hs.lost hold) with hpc | hpc <;>
      simp [KeepsClaim, hpc, hold] at hok
  · exact hne (hj ▸ hn)

/-- Every orderly step keeps the invariant. -/
theorem Inv.step {s : Global T (Mem T) Local} (hs : Inv tgt s) (hok : Orderly tgt s (t, c))
    (h : exec tgt t c s.mem (s.loc t) = some (m, l)) :
    Inv tgt ⟨m, Function.update s.loc t l⟩ where
  target := forall_loc_iff (P := fun u (l : Local) => l.pc.ofTarget = true ↔ u = tgt.th) |>.mpr
    ⟨by rw [exec_ofTarget h]; exact hs.target t, fun u _ => hs.target u⟩
  event := hs.event_step h
  usr := (exec_usr h).trans hs.usr
  pc := hs.pc_step hok h
  detachedFound hf := by
    rcases found_step h with h1 | ⟨-, -, h3, h4⟩
    · exact hs.joinpt_step h (hs.detachedFound (h1 ▸ hf))
    · rw [h4] at hf
      show m.joinpt = _
      rw [h3]
      simpa [Mem.detachedP] using hf
  free hn := ⟨(hs.free_step h hn).1, (hs.free_step h hn).2.1⟩
  joiner := (hs.joiner_step h).1
  detacher := (hs.joiner_step h).2
  alone u v := hs.alone_step h
  claim := hs.claim_step hok.1 h
  heldJoin u := hs.heldJoin_step h
  heldDetach := hs.heldDetach_step hok.2.1 h
  released := (hs.once_step h).2
  once := (hs.once_step h).1
  dead := hs.dead_step h
  users := hs.users_step hok.1 h
  lost := hs.lost_step hok.2.2.1 h
  joined hj := by
    rcases (exec_ghosts h).1 hj with hold | hpc
    · exact (exec_keeps h).1 (hs.joined hold)
    · have hret := hs.pc t
      rw [hpc] at hret
      exact (exec_keeps h).1 (hret rfl)
  detached hd := by
    have hold : s.mem.joinpt = some tgt.th ∨ s.mem.lost = true := by
      rcases (exec_ghosts h).2.1 hd with hold | hpc
      · exact hs.detached hold
      · have hret := hs.pc t
        rw [hpc] at hret
        exact hret rfl
    exact hold.imp (hs.joinpt_step h) (exec_ghosts h).2.2.1

/-- The target before `thread_entry` meets the invariant. -/
theorem Inv.init {s : Global T (Mem T) Local} (h : IsInit tgt s) : Inv tgt s := by
  obtain ⟨⟨j, hj, hm⟩, hloc⟩ := h
  have hpc : ∀ t, (s.loc t).pc = if t = tgt.th then .entry else .idle := fun t => by rw [hloc t]
  have hclaim : ∀ t, (s.loc t).pc.claim = none ∧ (s.loc t).pc.uses = false := by
    intro t
    rw [hpc t]
    split <;> exact ⟨rfl, rfl⟩
  have hth : (s.loc tgt.th).pc = .entry := by rw [hpc, if_pos rfl]
  have hfound : Termination.found tgt s = none := by
    rw [Termination.found, hth]
    rfl
  constructor
  · intro t
    rw [hpc t]
    split <;> simp [*, Pc.ofTarget]
  · rw [hth, hm]
    exact iff_of_false (show ¬ PTHREAD_INVALID_ID = 0 by decide) (by simp)
  · rw [hm]
    exact BitVec.zero_and
  · intro t
    rw [hpc t]
    split <;> trivial
  all_goals simp [hclaim, hfound, hth, hm]
  · rintro t ht rfl
    simp [ht] at hj

/-- The invariant holds in every run of orderly steps. -/
theorem inv_of_reach {s : Global T (Mem T) Local}
    (h : (machine tgt).ReachVia (Orderly tgt) s) : Inv tgt s :=
  Exec.invariant (fun _ => Inv.init) (fun _ _ _ _ _ hs hok he => hs.step hok he) h

/-! ### The release -/

/-- The stack of the target is released exactly once. -/
structure ReleasedOnce (tgt : Target T) (s : Global T (Mem T) Local) : Prop where
  /-- Nothing but the stack is released, and at most once. -/
  atMostOnce : s.mem.releases = [] ∨ s.mem.releases = [tgt.range]
  /-- It is released only when the target has terminated. -/
  notBefore : s.mem.releases ≠ [] → ∃ d, (s.loc tgt.th).pc = .dead d
  /-- It is released when a join returned 0. -/
  joined : s.mem.joined = true → s.mem.releases ≠ []
  /-- When a detach returned 0 and the target has terminated, it is released, or the
  caller that is to release it is still inside its call. -/
  detached : s.mem.detached = true → (∃ d, (s.loc tgt.th).pc = .dead d) →
    s.mem.releases ≠ [] ∨ ∃ t, (s.loc t).pc.claim ≠ none
  /-- Nobody waits for a death event that the target does not request. -/
  requested : ∀ t, (s.loc t).pc.waits = true → found tgt s ≠ some true
  /-- Nobody accesses the descriptor after the release. -/
  access : ∀ t, (s.loc t).pc.uses = true → s.mem.releases = []

/-- The thread's resources are released exactly once, whatever the target and any number
of joins and detaches do, in every run of orderly steps. -/
theorem thread_released_once {s : Global T (Mem T) Local}
    (h : (machine tgt).ReachVia (Orderly tgt) s) : ReleasedOnce tgt s := by
  have hs := inv_of_reach h
  refine ⟨hs.once, hs.released, hs.joined, ?_, ?_, hs.users⟩
  · rintro hd ⟨d, hdead⟩
    cases d with
    | true => exact .inl (hs.dead hdead)
    | false =>
        have hf : Termination.found tgt s = some false := by
          rw [Termination.found, hdead]
          rfl
        have hne : s.mem.joinpt ≠ none := by
          rcases hs.detached hd with hj | hl
          · rw [hj]
            exact Option.some_ne_none _
          · exact hs.lost hl
        obtain ⟨u, hu⟩ := Option.ne_none_iff_exists'.mp hne
        by_cases hth : u = tgt.th
        · subst hth
          rcases hs.heldDetach hu hf with ⟨v, hv⟩ | hrel
          · exact .inr ⟨v, by simp [hv]⟩
          · exact .inl hrel
        · rcases hs.heldJoin u hth hu with hv | hrel
          · exact .inr ⟨u, by simp [hv]⟩
          · exact .inl hrel
  · intro t ht hf
    cases hc : (s.loc t).pc.claim with
    | none => cases hpc : (s.loc t).pc <;> simp [hpc, Pc.waits, Pc.claim] at ht hc
    | some w =>
        have hne := hs.ne_target (u := t) (by simp [hc])
        cases w with
        | joiner =>
            have hj := (hs.joiner t hc).symm.trans (hs.detachedFound hf)
            exact hne (Option.some.inj hj)
        | detacher =>
            -- A detacher waits only for a target that found itself joinable.
            have hok := hs.pc t
            rw [hf] at hok
            cases hpc : (s.loc t).pc <;> simp [hpc, Pc.waits, Pc.claim, PcOk] at ht hc hok

instance [Fintype T] (s : Global T (Mem T) Local) (a : T × Choice T) : Decidable (InLife s a) := by
  unfold InLife
  split <;> infer_instance

instance (s : Global T (Mem T) Local) (a : T × Choice T) : Decidable (SeesEnd tgt s a) := by
  unfold SeesEnd
  split <;> infer_instance

instance (s : Global T (Mem T) Local) (a : T × Choice T) : Decidable (KeepsClaim s a) := by
  unfold KeepsClaim
  split <;> infer_instance

instance (s : Global T (Mem T) Local) (a : T × Choice T) : Decidable (FreshId s a) := by
  unfold FreshId
  split <;> infer_instance

instance [Fintype T] (s : Global T (Mem T) Local) (a : T × Choice T) :
    Decidable (Orderly tgt s a) :=
  inferInstanceAs (Decidable (_ ∧ _ ∧ _ ∧ _))

/-- The target 0 with a stack of one page and two other threads. -/
def Target.three : Target (Fin 3) where
  th := 0
  id := 1
  stack := 0x20000
  stacksize := 0x1000
  guardsize := 0x1000
  id_ne := id_one_ne
  size_ne := by decide

/-- The target 0, created joinable, before `thread_entry`. -/
def start : Global (Fin 3) (Mem (Fin 3)) Local :=
  ⟨⟨none, 0, PTHREAD_INVALID_ID, 0, ∅, [], false, false, false⟩,
    fun t => ⟨if t = 0 then .entry else .idle, false, none⟩⟩

theorem start_isInit : IsInit Target.three start := ⟨⟨none, .inl rfl, rfl⟩, fun _ => rfl⟩

/-- The thread 1 joins the target while it runs, and gets its return value after it has
terminated. -/
theorem thread_released_once_three : ∃ s : Global (Fin 3) (Mem (Fin 3)) Local,
    (machine Target.three).ReachVia (Orderly Target.three) s ∧
    s.mem.joined = true ∧ s.loc 1 = ⟨.idle, true, some 7⟩ ∧ ReleasedOnce Target.three s := by
  obtain ⟨s, hs, hj, hl⟩ := (machine Target.three).exists_reachVia (Orderly Target.three)
    start_isInit
    [(0, {}), (1, { call := .join .join true }), (1, {}), (1, {}), (1, {}), (1, {}), (1, {}),
      (1, {}), (1, {}), (0, { retval := 7 }), (0, {}), (0, {}), (0, {}), (0, {}),
      (0, { pick := some 1 }), (1, {}), (1, {}), (1, {}), (1, {}), (1, {}), (1, {}), (1, {}),
      (1, {})]
    (fun s => s.mem.joined = true ∧ s.loc 1 = ⟨.idle, true, some 7⟩) (by decide)
  exact ⟨s, hs, hj, hl, thread_released_once hs⟩

/-- Without one part of the condition the release fails. First, a detacher waits for a
target in `pthread_exit` that then finds itself detached and requests no event. Second, a
detach returns 0 after it lost to a timed join, which times out, and nobody releases the
stack. Third, a timed join waits for the id from before `thread_entry` and releases the
stack of a running thread. Fourth, a call starts after the release. Fifth, every call starts before
the release, and a detach reads the flags after it. -/
theorem thread_released_once_fails :
    (∃ s, (machine Target.three).ReachVia
      (fun s a => InLife s a ∧ KeepsClaim s a ∧ FreshId s a) s ∧
      ¬ ReleasedOnce Target.three s) ∧
    (∃ s, (machine Target.three).ReachVia
      (fun s a => InLife s a ∧ SeesEnd Target.three s a ∧ FreshId s a) s ∧
      ¬ ReleasedOnce Target.three s) ∧
    (∃ s, (machine Target.three).ReachVia
      (fun s a => InLife s a ∧ SeesEnd Target.three s a ∧ KeepsClaim s a) s ∧
      ¬ ReleasedOnce Target.three s) ∧
    (∃ s, (machine Target.three).ReachVia
      (fun s a => SeesEnd Target.three s a ∧ KeepsClaim s a ∧ FreshId s a) s ∧
      ¬ ReleasedOnce Target.three s) ∧
    ∃ s, (machine Target.three).ReachVia
      (fun s a => ((s.loc a.1).pc = .idle → s.mem.releases = []) ∧
        SeesEnd Target.three s a ∧ KeepsClaim s a ∧ FreshId s a) s ∧
      (s.loc 1).pc = .detachFlags ∧ ¬ ReleasedOnce Target.three s := by
  refine ⟨?_, ?_, ?_, ?_, ?_⟩
  · obtain ⟨s, hs, hw, hf⟩ := (machine Target.three).exists_reachVia
      (fun s a => InLife s a ∧ KeepsClaim s a ∧ FreshId s a) start_isInit
      [(0, {}), (0, { exits := true }), (0, {}), (1, {}), (1, {}), (1, {}), (1, {}), (1, {}),
        (1, {}), (1, {}), (0, {})]
      (fun s => (s.loc 1).pc.waits = true ∧ found Target.three s = some true) (by decide)
    exact ⟨s, hs, fun h => h.requested 1 hw hf⟩
  · obtain ⟨s, hs, hd, hdead, hrel, hc⟩ := (machine Target.three).exists_reachVia
      (fun s a => InLife s a ∧ SeesEnd Target.three s a ∧ FreshId s a) start_isInit
      [(0, {}), (1, { call := .join (.timedjoin default) false }), (1, {}), (1, {}), (1, {}),
        (1, {}), (2, {}), (2, {}), (2, {}), (2, {}), (2, {}), (1, {}), (1, {}),
        (1, { now := ⟨1, 0⟩ }), (1, {}), (1, {}), (0, {}), (0, {}), (0, {}), (0, {}), (0, {}),
        (0, {})]
      (fun s => s.mem.detached = true ∧ (s.loc 0).pc = .dead false ∧ s.mem.releases = [] ∧
        ∀ t, (s.loc t).pc.claim = none) (by decide)
    refine ⟨s, hs, ?_⟩
    intro h
    rcases h.detached hd ⟨false, hdead⟩ with hne | ⟨t, ht⟩
    · exact hne hrel
    · exact ht (hc t)
  · obtain ⟨s, hs, hrun, hrel⟩ := (machine Target.three).exists_reachVia
      (fun s a => InLife s a ∧ SeesEnd Target.three s a ∧ KeepsClaim s a) start_isInit
      [(1, { call := .join (.timedjoin default) false }), (1, {}), (1, {}), (1, {}), (1, {}),
        (1, {}), (1, {}), (0, {}), (1, {}), (1, {}), (1, {}), (1, {}), (1, {})]
      (fun s => (s.loc 0).pc = .run ∧ s.mem.releases ≠ []) (by decide)
    refine ⟨s, hs, ?_⟩
    intro h
    obtain ⟨d, hd⟩ := h.notBefore hrel
    have hd' : (s.loc 0).pc = .dead d := hd
    rw [hrun] at hd'
    cases hd'
  · obtain ⟨s, hs, hu, hrel⟩ := (machine Target.three).exists_reachVia
      (fun s a => SeesEnd Target.three s a ∧ KeepsClaim s a ∧ FreshId s a) start_isInit
      [(0, {}), (1, {}), (1, {}), (1, {}), (1, {}), (1, {}), (1, {}), (0, {}), (0, {}), (0, {}),
        (0, {}), (0, {}), (2, {})]
      (fun s => (s.loc 2).pc.uses = true ∧ s.mem.releases ≠ []) (by decide)
    exact ⟨s, hs, fun h => hrel (h.access 2 hu)⟩
  · obtain ⟨s, hs, hpc, hrel⟩ := (machine Target.three).exists_reachVia
      (fun s a => ((s.loc a.1).pc = .idle → s.mem.releases = []) ∧
        SeesEnd Target.three s a ∧ KeepsClaim s a ∧ FreshId s a) start_isInit
      [(0, {}), (1, {}), (1, {}), (1, {}), (1, {}), (0, {}), (0, {}), (0, {}), (0, {}), (0, {})]
      (fun s => (s.loc 1).pc = .detachFlags ∧ s.mem.releases ≠ []) (by decide)
    exact ⟨s, hs, hpc, fun h => hrel (h.access 1 (by rw [hpc]; rfl))⟩

end Hlpt.Termination
