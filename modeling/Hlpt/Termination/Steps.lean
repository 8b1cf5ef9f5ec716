import Hlpt.Termination.Moves

/-!
# `Hlpt.Termination.Steps`: what one step does to a descriptor

`Pc.claim` names the callers that have set `joinpt`. They are to release the stack, and
`Effect` lists the eight ways in which a step changes `joinpt`, the claims and the
releases together. The other lemmas follow one word each: the id, `detached_p`, the
flags and the ghosts. `PcOk` is what a thread knows at its control point; `exec_pcOk`
and `PcOk.frame` keep it.
-/

set_option autoImplicit false

namespace Hlpt.Termination

open Hlpt.Lib

universe u

/-! ### Who is where -/

/-- The control points of the target. -/
def Pc.ofTarget : Pc → Bool
  | .entry | .run | .exit | .sample | .mark _ | .cleanup _ | .kernelFree .. | .kernelEvent
  | .dead _ => true
  | .idle | .gone | .joinDetached _ | .joinSelf _ | .joinBusy | .joinLook _ | .joinCas _
  | .joinBegin _ | .joinLoad _ | .joinWait .. | .joinAsleep _ | .joinEnd _ | .joinCancel
  | .joinUndo | .joinRetval | .detachInvalid | .detachDetached | .detachCas | .detachFlags
  | .detachLoad | .detachWait _ | .detachAsleep | .deallocate _ | .freeStack _
  | .vmDeallocate .. | .ret .. => false

/-- The value of `detached_p`, once the target has read it. -/
def Pc.sampled : Pc → Option Bool
  | .mark d | .cleanup d | .kernelFree d _ _ | .dead d => some d
  | .kernelEvent => some false
  | .entry | .run | .exit | .sample
  | .idle | .gone | .joinDetached _ | .joinSelf _ | .joinBusy | .joinLook _ | .joinCas _
  | .joinBegin _ | .joinLoad _ | .joinWait .. | .joinAsleep _ | .joinEnd _ | .joinCancel
  | .joinUndo | .joinRetval | .detachInvalid | .detachDetached | .detachCas | .detachFlags
  | .detachLoad | .detachWait _ | .detachAsleep | .deallocate _ | .freeStack _
  | .vmDeallocate .. | .ret .. => none

/-- A caller that has set `joinpt`, and is to release the stack. -/
def Pc.claim : Pc → Option Who
  | .joinBegin _ | .joinLoad _ | .joinWait .. | .joinAsleep _ | .joinEnd _ | .joinCancel
  | .joinUndo | .joinRetval => some .joiner
  | .detachFlags | .detachLoad | .detachWait _ | .detachAsleep => some .detacher
  | .deallocate w | .freeStack w | .vmDeallocate w _ _ => some w
  | .entry | .run | .exit | .sample | .mark _ | .cleanup _ | .kernelFree .. | .kernelEvent
  | .dead _ | .idle | .gone | .joinDetached _ | .joinSelf _ | .joinBusy | .joinLook _
  | .joinCas _ | .detachInvalid | .detachDetached | .detachCas | .ret .. => none

/-- A caller that has set `PT_FLG_TERMINATED`, and is about to release the stack. -/
def Pc.frees : Pc → Bool
  | .freeStack _ | .vmDeallocate .. => true
  | .entry | .run | .exit | .sample | .mark _ | .cleanup _ | .kernelFree .. | .kernelEvent
  | .dead _ | .idle | .gone | .joinDetached _ | .joinSelf _ | .joinBusy | .joinLook _
  | .joinCas _ | .joinBegin _ | .joinLoad _ | .joinWait .. | .joinAsleep _ | .joinEnd _
  | .joinCancel | .joinUndo | .joinRetval | .detachInvalid | .detachDetached | .detachCas
  | .detachFlags | .detachLoad | .detachWait _ | .detachAsleep | .deallocate _
  | .ret .. => false

/-- A caller that waits for the death event of the target. -/
def Pc.waits : Pc → Bool
  | .joinWait .. | .joinAsleep _ | .detachWait _ | .detachAsleep => true
  | .entry | .run | .exit | .sample | .mark _ | .cleanup _ | .kernelFree .. | .kernelEvent
  | .dead _ | .idle | .gone | .joinDetached _ | .joinSelf _ | .joinBusy | .joinLook _
  | .joinCas _ | .joinBegin _ | .joinLoad _ | .joinEnd _ | .joinCancel | .joinUndo
  | .joinRetval | .detachInvalid | .detachDetached | .detachCas | .detachFlags | .detachLoad
  | .deallocate _ | .freeStack _ | .vmDeallocate .. | .ret .. => false

/-- A caller inside a call that still has to access the descriptor. -/
def Pc.uses : Pc → Bool
  | .joinDetached _ | .joinSelf _ | .joinBusy | .joinLook _ | .joinCas _ | .joinBegin _
  | .joinLoad _ | .joinWait .. | .joinAsleep _ | .joinEnd _ | .joinCancel | .joinUndo
  | .joinRetval | .detachInvalid | .detachDetached | .detachCas | .detachFlags | .detachLoad
  | .detachWait _ | .detachAsleep | .deallocate _ | .freeStack _ => true
  | .entry | .run | .exit | .sample | .mark _ | .cleanup _ | .kernelFree .. | .kernelEvent
  | .dead _ | .idle | .gone | .vmDeallocate .. | .ret .. => false

/-- `pthread_tryjoin_np`, which joins only after it has seen the death event. -/
def JoinCall.tries : JoinCall → Bool
  | .tryjoin => true
  | .join | .timedjoin _ => false

/-- What the control point of a thread says about the descriptor, when the target has
read `detached_p` as `σ`. A caller that is about to release the stack has seen the death
event. A detacher that waits knows that the target found itself joinable. -/
def PcOk {T : Type u} (tgt : Target T) (t : T) (σ : Option Bool) (m : Mem T) : Pc → Prop
  | .kernelFree d stack size => (stack, size) = if d then tgt.range else (0, 0)
  | .joinLook k | .joinCas k => k.tries = true → m.id = 0
  | .joinAsleep _ => t ∈ m.sleepers ∨ m.id = 0
  | .joinEnd timedout => timedout = false → m.id = 0
  | .joinRetval | .deallocate _ | .freeStack _ => m.id = 0
  | .vmDeallocate _ addr size => m.id = 0 ∧ (addr, size) = tgt.range
  | .detachLoad | .detachWait _ | .detachAsleep => σ = some false
  | .ret .joiner r => r = .ok → m.releases ≠ []
  | .ret .detacher r => r = .ok → m.joinpt = some tgt.th ∨ m.lost = true
  | .entry | .run | .exit | .sample | .mark _ | .cleanup _ | .kernelEvent | .dead _ | .idle
  | .gone | .joinDetached _ | .joinSelf _ | .joinBusy | .joinBegin _ | .joinLoad _
  | .joinWait .. | .joinCancel | .joinUndo | .detachInvalid | .detachDetached | .detachCas
  | .detachFlags => True

variable {T : Type u} [DecidableEq T] {tgt : Target T} {t : T} {c : Choice T} {m m' : Mem T}
  {l l' : Local}

/-! ### What one step does -/

/-- What a step does to `joinpt`, to the releases, and to the claims on them. -/
inductive Effect (tgt : Target T) (t : T) (m m' : Mem T) (l l' : Local) : Prop
  | quiet (hj : m'.joinpt = m.joinpt) (hr : m'.releases = m.releases)
      (hc : l'.pc.claim = l.pc.claim) (hf : l'.pc.frees = l.pc.frees)
      (hm : m'.flags &&& PT_FLG_TERMINATED = m.flags &&& PT_FLG_TERMINATED)
  | claim (w : Who) (hn : m.joinpt = none)
      (hj : m'.joinpt = some (match w with | .joiner => t | .detacher => tgt.th))
      (hr : m'.releases = m.releases) (hc : l.pc.claim = none) (hc' : l'.pc.claim = some w)
      (hf : l'.pc.frees = false)
      (hm : m'.flags &&& PT_FLG_TERMINATED = m.flags &&& PT_FLG_TERMINATED)
  | rollback (hpc : l.pc = .joinCancel ∨ l.pc = .joinUndo)
      (hj : m'.joinpt = if m.joinpt = some t then none else m.joinpt)
      (hr : m'.releases = m.releases) (hc' : l'.pc.claim = none)
      (hm : m'.flags = m.flags)
  | leave (hpc : l.pc = .detachFlags) (hx : m.flags &&& PT_FLG_EXITING = 0)
      (hj : m'.joinpt = m.joinpt) (hr : m'.releases = m.releases) (hc' : l'.pc.claim = none)
      (hm : m'.flags = m.flags)
  | terminated (w : Who) (hpc : l.pc = .deallocate w) (hj : m'.joinpt = m.joinpt)
      (hr : m'.releases = m.releases)
      (hm : m'.flags = m.flags ||| PT_FLG_TERMINATED)
      (hpc' : l'.pc = if m.flags &&& PT_FLG_TERMINATED = 0 then .freeStack w else .ret w .ok)
  | user (w : Who) (hpc : l.pc = .freeStack w) (hx : m.flags &&& PT_FLG_USR_STACK ≠ 0)
  | free (w : Who) (addr size : BitVec 32) (hpc : l.pc = .vmDeallocate w addr size)
      (hj : m'.joinpt = m.joinpt) (hr : m'.releases = (addr, size) :: m.releases)
      (hc' : l'.pc = .ret w .ok) (hm : m'.flags = m.flags)
  | kernel (d : Bool) (stack size : BitVec 32) (hpc : l.pc = .kernelFree d stack size)
      (hj : m'.joinpt = m.joinpt)
      (hr : m'.releases =
        if stack ≠ 0 ∨ size ≠ 0 then (stack, size) :: m.releases else m.releases)
      (hpc' : l'.pc = if d then .dead d else .kernelEvent) (hm : m'.flags = m.flags)

/-- A step that leaves the descriptor sets no claim, and gives one up in two places. -/
theorem Moves.effect {pc pc' : Pc} {retpp : Bool} {out : Option (BitVec 32)}
    (hm : Moves tgt c m pc pc') : Effect tgt t m m ⟨pc, retpp, out⟩ ⟨pc', retpp, out⟩ := by
  cases hm with
  | detachRunning hx => exact .leave rfl hx rfl rfl rfl rfl
  | userStack hx => exact .user _ rfl hx
  | _ => exact .quiet rfl rfl rfl rfl rfl

/-- Every step is one of these. -/
theorem exec_effect (h : exec tgt t c m l = some (m', l')) : Effect tgt t m m' l l' := by
  -- `PT_FLG_EXITING` is another bit than `PT_FLG_TERMINATED`.
  have hterm : (m.flags ||| PT_FLG_EXITING) &&& PT_FLG_TERMINATED =
      m.flags &&& PT_FLG_TERMINATED := or_and_of_disjoint (by decide)
  cases step_of_exec h with
  | move hm => exact hm.effect
  | exit | mark => exact .quiet rfl rfl rfl rfl hterm
  | joinClaim hk hn => exact .claim .joiner hn rfl rfl rfl rfl rfl rfl
  | tryClaimRetval hn | tryClaim hn => exact .claim .joiner hn rfl rfl rfl rfl rfl rfl
  | detachClaim hn => exact .claim .detacher hn rfl rfl rfl rfl rfl rfl
  | joinCancel => exact .rollback (.inl rfl) rfl rfl rfl rfl
  | joinUndo => exact .rollback (.inr rfl) rfl rfl rfl rfl
  | deallocate => exact .terminated _ rfl rfl rfl rfl rfl
  | vmDeallocate => exact .free _ _ _ rfl rfl rfl rfl rfl
  | kernelFree => exact .kernel _ _ _ rfl rfl rfl rfl rfl
  | _ => exact .quiet rfl rfl rfl rfl rfl

/-- The stack is released in two places. -/
theorem exec_releases (h : exec tgt t c m l = some (m', l')) :
    m'.releases = m.releases ∨
    (∃ w addr size, l.pc = .vmDeallocate w addr size ∧
      m'.releases = (addr, size) :: m.releases) ∨
    ∃ d stack size, l.pc = .kernelFree d stack size ∧
      (m'.releases =
        if stack ≠ 0 ∨ size ≠ 0 then (stack, size) :: m.releases else m.releases) ∧
      l'.pc = if d then .dead d else .kernelEvent := by
  cases step_of_exec h with
  | vmDeallocate => exact .inr (.inl ⟨_, _, _, rfl, rfl⟩)
  | kernelFree => exact .inr (.inr ⟨_, _, _, rfl, rfl, rfl⟩)
  | _ => exact .inl rfl

/-- The target stays the target, and a caller stays a caller. -/
theorem exec_ofTarget (h : exec tgt t c m l = some (m', l')) :
    l'.pc.ofTarget = l.pc.ofTarget := by
  cases step_of_exec h with
  | move hm => cases hm <;> rfl
  | kernelFree =>
    show Pc.ofTarget (if _ then _ else _) = true
    split <;> rfl
  | deallocate =>
    show Pc.ofTarget (if _ then _ else _) = false
    split <;> rfl
  | _ => rfl

/-- The id is stored by the target when it starts, and cleared by the kernel when it is
dead. -/
theorem exec_id (h : exec tgt t c m l = some (m', l')) :
    (m'.id = m.id ∧ (l'.pc = .dead false ↔ l.pc = .dead false)) ∨
    (l.pc = .entry ∧ m'.id = tgt.id ∧ l'.pc = .run) ∨
    (l.pc = .kernelEvent ∧ m'.id = 0 ∧ l'.pc = .dead false) := by
  cases step_of_exec h with
  | entry => exact .inr (.inl ⟨rfl, rfl, rfl⟩)
  | kernelEvent => exact .inr (.inr ⟨rfl, rfl, rfl⟩)
  | move hm =>
    refine .inl ⟨rfl, ?_⟩
    cases hm <;> exact iff_of_false nofun nofun
  | @kernelFree d =>
    refine .inl ⟨rfl, ?_⟩
    cases d <;> exact iff_of_false nofun nofun
  | deallocate =>
    refine .inl ⟨rfl, iff_of_false ?_ nofun⟩
    show (if _ then _ else _) ≠ Pc.dead false
    split <;> exact nofun
  | _ => exact .inl ⟨rfl, iff_of_false nofun nofun⟩

/-- The id is 0 exactly when the target is dead with its event, and stays so. -/
theorem exec_event {loc : T → Local} (htarget : (loc t).pc.ofTarget = true → t = tgt.th)
    (hevent : m.id = 0 ↔ (loc tgt.th).pc = .dead false)
    (h : exec tgt t c m (loc t) = some (m', l')) :
    m'.id = 0 ↔ (Function.update loc t l' tgt.th).pc = .dead false := by
  rcases exec_id h with ⟨h1, h2⟩ | ⟨h1, h2, h3⟩ | ⟨h1, h2, h3⟩
  · rw [h1, hevent, Function.update_apply]
    split
    · rename_i ht
      rw [h2, ht]
    · rfl
  · have ht : t = tgt.th := htarget (by rw [h1]; rfl)
    rw [← ht, Function.update_self, h2, h3]
    exact iff_of_false tgt.id_ne (by simp)
  · have ht : t = tgt.th := htarget (by rw [h1]; rfl)
    rw [← ht, Function.update_self, h2, h3]
    exact iff_of_true rfl rfl

/-- The target reads `detached_p` once. -/
theorem exec_sampled (h : exec tgt t c m l = some (m', l')) :
    l'.pc.sampled = l.pc.sampled ∨
    (l.pc = .sample ∧ l'.pc.sampled = some (m.detachedP tgt) ∧ m' = m) := by
  cases step_of_exec h with
  | move hm =>
    cases hm with
    | sample => exact .inr ⟨rfl, rfl, rfl⟩
    | _ => exact .inl rfl
  | @kernelFree d => cases d <;> exact .inl rfl
  | deallocate =>
    refine .inl ?_
    show Pc.sampled (if _ then _ else _) = none
    split <;> rfl
  | _ => exact .inl rfl

/-- The stack stays a library-allocated one. -/
theorem exec_usr (h : exec tgt t c m l = some (m', l')) :
    m'.flags &&& PT_FLG_USR_STACK = m.flags &&& PT_FLG_USR_STACK := by
  cases step_of_exec h with
  | exit | mark | deallocate => exact or_and_of_disjoint (by decide)
  | _ => rfl

/-- The ghosts: a join or a detach that returned 0, and a detach that lost its
compare-and-swap. -/
theorem exec_ghosts (h : exec tgt t c m l = some (m', l')) :
    (m'.joined = true → m.joined = true ∨ l.pc = .ret .joiner .ok) ∧
    (m'.detached = true → m.detached = true ∨ l.pc = .ret .detacher .ok) ∧
    (m.lost = true → m'.lost = true) ∧
    (m'.lost = true → m.lost = true ∨ (l.pc = .detachCas ∧ m'.joinpt = m.joinpt ∧
      m.joinpt ≠ none)) := by
  cases step_of_exec h with
  | detachLost hn =>
    exact ⟨.inl, .inl, fun hl => by simp [hl], fun _ => .inr ⟨rfl, rfl, hn⟩⟩
  | @ret w r =>
    refine ⟨fun hj => ?_, fun hd => ?_, id, .inl⟩
    · simpa using hj
    · simpa using hd
  | _ => exact ⟨.inl, .inl, id, .inl⟩

/-- What a step leaves for the other threads: a release, a detached target, and the
sleep of each of them unless the target is dead. -/
theorem exec_keeps (h : exec tgt t c m l = some (m', l')) :
    (m.releases ≠ [] → m'.releases ≠ []) ∧
    (m.joinpt = some tgt.th → m'.joinpt = some tgt.th ∨
      (t = tgt.th ∧ l.pc.ofTarget = false)) ∧
    ∀ u, u ≠ t → u ∈ m.sleepers → u ∈ m'.sleepers ∨ m'.id = 0 := by
  cases step_of_exec h with
  | kernelEvent => exact ⟨id, .inl, fun u _ _ => .inr rfl⟩
  | kernelFree =>
    refine ⟨fun hr => ?_, .inl, fun u _ hs => .inl hs⟩
    show (if _ then _ else _) ≠ []
    split
    · exact List.cons_ne_nil _ _
    · exact hr
  | vmDeallocate => exact ⟨fun _ => List.cons_ne_nil _ _, .inl, fun u _ hs => .inl hs⟩
  | joinClaim _ hn | tryClaimRetval hn | tryClaim hn | detachClaim hn =>
    refine ⟨id, fun hj => ?_, fun u _ hs => .inl hs⟩
    rw [hn] at hj
    cases hj
  | joinCancel | joinUndo =>
    -- Only the target itself could take the target's name back.
    refine ⟨id, fun hj => ?_, fun u _ hs => .inl hs⟩
    show (if _ then _ else _) = _ ∨ _
    split
    · next ht => exact .inr ⟨Option.some.inj (ht.symm.trans hj), rfl⟩
    · exact .inl hj
  | joinSleep | detachSleep =>
    exact ⟨id, .inl, fun u _ hs => .inl (Finset.mem_insert_of_mem hs)⟩
  | cancelAsleep | asleepTimedout | asleepAgain | timedWoken | detachAwake =>
    exact ⟨id, .inl, fun u hu hs => .inl (Finset.mem_erase.mpr ⟨hu, hs⟩)⟩
  | _ => exact ⟨id, .inl, fun u _ hs => .inl hs⟩

/-- A step of another thread leaves what a control point says. -/
theorem PcOk.frame {u : T} {σ : Option Bool} {pc : Pc} (hpc : PcOk tgt u σ m pc)
    (h : exec tgt t c m l = some (m', l')) (hut : u ≠ t)
    (hid : m.id = 0 → l.pc ≠ .entry) (hth : t = tgt.th → l.pc.ofTarget = true) :
    PcOk tgt u σ m' pc := by
  have hid' : m.id = 0 → m'.id = 0 := by
    intro h0
    rcases exec_id h with ⟨h1, -⟩ | ⟨h1, -⟩ | ⟨-, h1, -⟩
    · rw [h1, h0]
    · exact absurd h1 (hid h0)
    · exact h1
  obtain ⟨hrel, hj, hs⟩ := exec_keeps h
  have hj' : m.joinpt = some tgt.th → m'.joinpt = some tgt.th := by
    intro hjo
    rcases hj hjo with h1 | ⟨h1, h2⟩
    · exact h1
    · rw [hth h1] at h2
      cases h2
  have hlost := (exec_ghosts h).2.2.1
  cases pc with
  | joinAsleep k =>
      rcases hpc with hu | h0
      · exact hs u hut hu
      · exact .inr (hid' h0)
  | joinLook k | joinCas k => exact fun hk => hid' (hpc hk)
  | joinEnd timedout => exact fun hk => hid' (hpc hk)
  | joinRetval | deallocate w | freeStack w => exact hid' hpc
  | vmDeallocate w addr size => exact ⟨hid' hpc.1, hpc.2⟩
  | ret w r =>
      cases w with
      | joiner => exact fun hr => hrel (hpc hr)
      | detacher => exact fun hr => (hpc hr).imp hj' hlost
  | _ => exact hpc

/-- What a step that leaves the descriptor makes of the thread that moves. -/
theorem Moves.pcOk {σ : Option Bool} {pc pc' : Pc} (hm : Moves tgt c m pc pc')
    (hpc : PcOk tgt t σ m pc) (husr : m.flags &&& PT_FLG_USR_STACK = 0)
    (hclaim : pc.claim = some .detacher → m.joinpt = some tgt.th)
    (hflags : pc = .detachFlags → m.flags &&& PT_FLG_EXITING ≠ 0 → σ = some false)
    (hfresh : ∀ tsp id, pc = .joinWait (.timedjoin tsp) id → c.cancel = false →
      Hlpt.expired tsp c.now = false → m.id = id ∨ m.id = 0) :
    PcOk tgt t σ m pc' := by
  cases hm with
  | cleanup => rfl
  | @cleanupEvent d hd =>
    cases d with
    | true => exact absurd ⟨rfl, husr⟩ hd
    | false => rfl
  | @joinSelf k hk =>
    cases k with
    | tryjoin => exact absurd rfl hk
    | join | timedjoin tsp => exact nofun
  | joinNotBusy h0 => exact fun _ => h0
  | joinLook => exact hpc
  | joinDead h0 => exact fun _ => h0
  | timedChanged hc he hne => exact fun _ => (hfresh _ _ rfl hc he).resolve_left hne
  | joinExpired => exact nofun
  | joinEndRetval | joinEnd => exact hpc rfl
  | detachRunning => exact fun _ => .inl (hclaim rfl)
  | detachExiting hx => exact hflags rfl hx
  | detachLoad | detachChanged => exact hpc
  | detachDead h0 => exact h0
  | userStack hx => exact absurd husr hx
  | freeStack => exact ⟨hpc, rfl⟩
  | joinDetached | joinDeadlk | joinBusy | joinTaken | joinLost | detachEsrch
  | detachDetached => exact nofun
  | _ => trivial

/-- What a step makes of the thread that moves. -/
theorem exec_pcOk {σ : Option Bool} (hpc : PcOk tgt t σ m l.pc)
    (h : exec tgt t c m l = some (m', l'))
    (husr : m.flags &&& PT_FLG_USR_STACK = 0)
    (hterm : ∀ w, l.pc = .deallocate w → m.flags &&& PT_FLG_TERMINATED = 0)
    (hclaim : l.pc.claim = some .detacher → m.joinpt = some tgt.th)
    (hflags : l.pc = .detachFlags → m.flags &&& PT_FLG_EXITING ≠ 0 → σ = some false)
    (hfresh : ∀ tsp id, l.pc = .joinWait (.timedjoin tsp) id → c.cancel = false →
      Hlpt.expired tsp c.now = false → m.id = id ∨ m.id = 0) :
    PcOk tgt t σ m' l'.pc := by
  cases step_of_exec h with
  | move hm => exact hm.pcOk hpc husr hclaim hflags hfresh
  | @kernelFree d => cases d <;> trivial
  | tryClaimRetval hn => exact hpc rfl
  | tryClaim hn => exact hpc rfl
  | joinSleep => exact .inl (Finset.mem_insert_self ..)
  | asleepTimedout => exact nofun
  | timedWoken hs => exact fun _ => hpc.resolve_left hs
  | joinUndo => exact nofun
  | joinRetval => exact hpc
  | detachLost hn =>
    -- Another detach was first, or a joiner was, and then this one is lost.
    intro _
    by_cases hj : m.joinpt = some tgt.th
    · exact .inl hj
    · exact .inr (by simp [Mem.detachedP, hj])
  | detachSleep | detachAwake => exact hpc
  | @deallocate w =>
    rw [if_pos (hterm w rfl)]
    exact hpc
  | @vmDeallocate w addr size =>
    cases w with
    | joiner => exact fun _ => List.cons_ne_nil _ _
    | detacher => exact fun _ => .inl (hclaim rfl)
  | _ => trivial

/-- A caller gets to the descriptor by a new call. -/
theorem exec_uses (h : exec tgt t c m l = some (m', l')) (hu : l'.pc.uses = true) :
    (l.pc.uses = true ∨ l.pc = .idle) ∧ m'.releases = m.releases := by
  cases step_of_exec h with
  | move hm =>
    refine ⟨?_, rfl⟩
    cases hm with
    | detach => exact .inr rfl
    | _ => first | exact .inl rfl | cases hu
  | join => exact ⟨.inr rfl, rfl⟩
  | @kernelFree d => cases d <;> cases hu
  | _ => first | exact ⟨.inl rfl, rfl⟩ | cases hu

/-- A detached target dies in the kernel's release. -/
theorem exec_dead (h : exec tgt t c m l = some (m', l')) (hd : l'.pc = .dead true) :
    ∃ stack size, l.pc = .kernelFree true stack size ∧ m'.releases =
      if stack ≠ 0 ∨ size ≠ 0 then (stack, size) :: m.releases else m.releases := by
  cases step_of_exec h with
  | move hm => cases hm <;> cases hd
  | @kernelFree d stack size =>
    cases d with
    | true => exact ⟨stack, size, rfl, rfl⟩
    | false => cases hd
  | deallocate =>
    have hne : ∀ w, (if m.flags &&& PT_FLG_TERMINATED = 0 then Pc.freeStack w
        else .ret w .ok) ≠ .dead true := by
      intro w
      split <;> exact nofun
    exact absurd hd (hne _)
  | _ => cases hd

/-- A claim is a caller's. -/
theorem Pc.ofTarget_of_claim {pc : Pc} (h : pc.claim ≠ none) : pc.ofTarget = false := by
  cases pc <;> first | rfl | exact absurd rfl h

end Hlpt.Termination
