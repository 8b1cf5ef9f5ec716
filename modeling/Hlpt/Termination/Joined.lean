import Hlpt.Lib.Ghost
import Hlpt.Termination.Release

/-!
# `Hlpt.Termination.Joined`: a join that returns 0 has seen the end of the thread

Each run keeps a history: the threads whose joins returned 0, and for each thread what
its current call has done to the descriptor so far. `Net` tells a call that has changed
nothing, or has undone what it changed, from one that holds `joinpt` and from one that
went further.

* `joins_once`: in every run at most one join returns 0, and a join that fails or is
  cancelled has a clean net.
* `join_terminated`: when no timed join waits for the id from before `thread_entry`, a
  join that returns 0 finds the id 0 and the target dead.

`join_terminated_fails` has the run in which `pthread_timedjoin_np` returns 0 while the
target runs.
-/

set_option autoImplicit false

namespace Hlpt.Termination

open Hlpt.Lib

universe u

variable {T : Type u} [DecidableEq T]

/-! ### The history of a run -/

/-- What a call has done to the descriptor so far. -/
inductive Net where
  /-- Nothing, or nothing that is left. -/
  | clean
  /-- It has set `joinpt`, which was `NULL`, to the caller. -/
  | slot
  /-- Anything else. -/
  | more
  deriving DecidableEq, Repr

/-- Two descriptors agree, `joinpt` apart. -/
def Mem.sameRest (m m' : Mem T) : Prop :=
  m'.flags = m.flags ∧ m'.id = m.id ∧ m'.retval = m.retval ∧ m'.releases = m.releases

instance (m m' : Mem T) : Decidable (m.sameRest m') :=
  inferInstanceAs (Decidable (_ ∧ _ ∧ _ ∧ _))

/-- The net of a call of `t` after one more step. -/
def Net.after (t : T) (m m' : Mem T) (n : Net) : Net :=
  if m.sameRest m' then
    if m'.joinpt = m.joinpt then n
    else match n with
      | clean => if m.joinpt = none ∧ m'.joinpt = some t then slot else more
      | slot => if m.joinpt = some t ∧ m'.joinpt = none then clean else more
      | more => more
  else more

/-- The history of a step: a return of 0 from a join is listed, and a new call starts
clean. -/
def note : Ghost T (Choice T) (Mem T) Local (List T) Net := fun t _ old new h =>
  (if old.2.pc = .ret .joiner .ok then t :: h.1 else h.1,
    if old.2.pc = .idle then .clean else h.2.after t old.1 new.1)

/-- The target before `thread_entry`, created joinable or detached, on a stack that the
library allocated or on one that the user supplied. -/
def IsCreated (tgt : Target T) (s : Global T (Mem T) Local) : Prop :=
  ∃ s₀, IsInit tgt s₀ ∧ s.loc = s₀.loc ∧
    (s.mem = s₀.mem ∨ s.mem = { s₀.mem with flags := PT_FLG_USR_STACK })

/-- The target and its callers, with the history. -/
def joins (tgt : Target T) :
    Machine (Global T (Mem T × List T) (Local × Net)) (T × Choice T) :=
  ((exec tgt).ghost note).machine (ghostInit (IsCreated tgt) (fun _ => []) .clean)

/-! ### Who holds `joinpt` -/

variable {tgt : Target T} {t : T} {c : Choice T} {m m' : Mem T} {l l' : Local}

/-- A join that has set `joinpt`, up to its return of 0. -/
def Pc.wins (pc : Pc) : Bool := pc.claim = some .joiner ∨ pc = .ret .joiner .ok

theorem Pc.wins_eq {pc : Pc} :
    pc.wins = true ↔ pc.claim = some .joiner ∨ pc = .ret .joiner .ok := by
  simp [Pc.wins]

/-- `free_stack` leaves a stack that the user supplied. -/
theorem exec_freeStack {w : Who} (h : exec tgt t c m l = some (m', l'))
    (hpc : l.pc = .freeStack w) (hx : m.flags &&& PT_FLG_USR_STACK ≠ 0) :
    m' = m ∧ l'.pc = .ret w .ok := by
  simp only [exec, hpc, if_pos hx, Option.some.injEq, Prod.mk.injEq] at h
  obtain ⟨rfl, rfl⟩ := h
  exact ⟨rfl, rfl⟩

/-- A join returns 0 only at the end of `__pthread_deallocate`. -/
theorem exec_ret_ok (h : exec tgt t c m l = some (m', l')) (hr : l'.pc = .ret .joiner .ok) :
    l.pc.claim = some .joiner ∧ m'.joinpt = m.joinpt := by
  cases step_of_exec h with
  | move hm =>
    cases hm with
    | userStack =>
      cases hr
      exact ⟨rfl, rfl⟩
    | _ => cases hr
  | @kernelFree d => cases d <;> cases hr
  | @deallocate w =>
    have hw : (if m.flags &&& PT_FLG_TERMINATED = 0 then Pc.freeStack w else .ret w .ok) =
        .ret .joiner .ok := hr
    split at hw
    · cases hw
    · cases hw
      exact ⟨rfl, rfl⟩
  | vmDeallocate =>
    cases hr
    exact ⟨rfl, rfl⟩
  | _ => cases hr

/-- A step makes a winner only of a thread that was one, or that sets `joinpt`. -/
theorem exec_wins (h : exec tgt t c m l = some (m', l')) (hw : l'.pc.wins = true) :
    (l.pc.claim = some .joiner ∧ m'.joinpt = m.joinpt) ∨
      (m.joinpt = none ∧ m'.joinpt = some t) := by
  rcases Pc.wins_eq.mp hw with hw | hw
  · cases exec_effect h with
    | quiet hj hr hc hf hm => exact .inl ⟨hc ▸ hw, hj⟩
    | claim w hn hj hr hc hc' hf hm =>
        obtain rfl := Option.some.inj (hc'.symm.trans hw)
        exact .inr ⟨hn, hj⟩
    | rollback hpc hj hr hc' hm | leave hpc hx hj hr hc' hm =>
        rw [hc'] at hw
        cases hw
    | terminated w hpc hj hr hm hpc' =>
        rw [hpc'] at hw
        rw [hpc]
        split at hw
        · exact .inl ⟨hw, hj⟩
        · cases hw
    | user w hpc hx =>
        rw [(exec_freeStack h hpc hx).2] at hw
        cases hw
    | free w addr size hpc hj hr hc' hm =>
        rw [hc'] at hw
        cases hw
    | kernel d stack size hpc hj hr hpc' hm =>
        rw [hpc'] at hw
        cases d <;> cases hw
  · exact .inl (exec_ret_ok h hw)

/-- `joinpt` is set when it is `NULL`, and taken back by the thread that it names. -/
theorem exec_joinpt (h : exec tgt t c m l = some (m', l')) :
    m'.joinpt = m.joinpt ∨ m.joinpt = none ∨
      (l.pc.claim = some .joiner ∧ m.joinpt = some t) := by
  cases exec_effect h with
  | quiet hj | leave _ _ hj | terminated _ _ hj | free _ _ _ _ hj | kernel _ _ _ _ hj =>
      exact .inl hj
  | claim w hn => exact .inr (.inl hn)
  | user w hpc hx =>
      obtain ⟨rfl, -⟩ := exec_freeStack h hpc hx
      exact .inl rfl
  | rollback hpc hj =>
      rw [hj]
      split
      · rename_i hjt
        refine .inr (.inr ⟨?_, hjt⟩)
        rcases hpc with hpc | hpc <;> rw [hpc] <;> rfl
      · exact .inl rfl

/-- A thread that `joinpt` names stays there unless it takes itself back. -/
theorem exec_keepsJoinpt {u : T} (h : exec tgt t c m l = some (m', l'))
    (hj : m.joinpt = some u) (hc : l.pc.claim = some .joiner → u ≠ t) : m'.joinpt = some u := by
  rcases exec_joinpt h with h1 | h1 | ⟨h1, h2⟩
  · rw [h1, hj]
  · rw [h1] at hj
    cases hj
  · exact absurd (Option.some.inj (hj.symm.trans h2)) (hc h1)

/-- While `joinpt` is set, no other caller becomes a winner. -/
theorem exec_not_wins (h : exec tgt t c m l = some (m', l')) (hj : m.joinpt ≠ none)
    (hc : l.pc.claim ≠ some .joiner) : l'.pc.wins = false := by
  by_contra hw
  rcases exec_wins h (Bool.eq_true_of_not_eq_false hw) with ⟨h1, -⟩ | ⟨h1, -⟩
  · exact hc h1
  · exact hj h1

/-! ### At most one join returns 0 -/

/-- What the control point of a thread says about the net of its call. -/
def NetOk : Pc → Net → Prop
  | .joinDetached _, n | .joinSelf _, n | .joinBusy, n | .joinLook _, n | .joinCas _, n
  | .gone, n => n = .clean
  | .joinBegin _, n | .joinLoad _, n | .joinWait .., n | .joinAsleep _, n | .joinEnd _, n
  | .joinCancel, n | .joinUndo, n => n = .slot
  | .ret .joiner r, n => r ≠ .ok → n = .clean
  | .entry, _ | .run, _ | .exit, _ | .sample, _ | .mark _, _ | .cleanup _, _
  | .kernelFree .., _ | .kernelEvent, _ | .dead _, _ | .idle, _ | .joinRetval, _
  | .detachInvalid, _ | .detachDetached, _ | .detachCas, _ | .detachFlags, _
  | .detachLoad, _ | .detachWait _, _ | .detachAsleep, _ | .deallocate _, _
  | .freeStack _, _ | .vmDeallocate .., _ | .ret .detacher _, _ => True

/-- A call that is about to return 0 may have any net. -/
theorem NetOk.ret_ok {w : Who} {n : Net} : NetOk (.ret w .ok) n := by
  cases w with
  | joiner => exact fun h => absurd rfl h
  | detacher => trivial

/-- A step that only touches the queue leaves the net. -/
theorem Net.after_of_sameRest {n : Net} (hm : m.sameRest m') (hj : m'.joinpt = m.joinpt) :
    n.after t m m' = n := by
  unfold Net.after
  rw [if_pos hm, if_pos hj]

/-- The caller sets itself. -/
theorem Net.after_claim (hm : m.joinpt = none) :
    Net.clean.after t m { m with joinpt := some t } = .slot := by
  simp [Net.after, Mem.sameRest, hm]

/-- The caller takes itself back. -/
theorem Net.after_rollback (hm : m.joinpt = some t) :
    Net.slot.after t m { m with joinpt := if m.joinpt = some t then none else m.joinpt } =
      .clean := by
  simp [Net.after, Mem.sameRest, hm]

/-- The net of a call that is not a new one. -/
theorem note_net {n : Net} {g : List T} (hpc : l.pc ≠ .idle) :
    (note t c (m, l) (m', l') (g, n)).2 = n.after t m m' :=
  if_neg hpc

/-- A step that leaves the descriptor leaves the net. -/
theorem Moves.netOk {n : Net} {pc pc' : Pc} (hm : Moves tgt c m pc pc') (hn : NetOk pc n) :
    NetOk pc' n := by
  cases hm with
  | joinDetached | joinDeadlk | joinBusy | joinTaken | joinLost => exact fun _ => hn
  | joinJoinable | joinSelf | trySelf | joinNotBusy | joinLook => exact hn
  | joinBegin | joinLoad | joinDead | joinExpired | joinChanged | timedChanged => exact hn
  | cancelBegin | cancelLoad | cancelWait | cancelEnd | joinTimedout => exact hn
  | userStack => exact NetOk.ret_ok
  | _ => trivial

/-- The net of a call follows its control point. -/
theorem exec_netOk {n : Net} {g : List T} (hn : NetOk l.pc n)
    (hj : l.pc.claim = some .joiner → m.joinpt = some t)
    (h : exec tgt t c m l = some (m', l')) : NetOk l'.pc (note t c (m, l) (m', l') (g, n)).2 := by
  have hrest : ∀ q, m.sameRest { m with sleepers := q } := fun q => ⟨rfl, rfl, rfl, rfl⟩
  cases step_of_exec h with
  | @move pc pc' _ _ hm =>
    by_cases hpc : pc = .idle
    · subst hpc
      cases hm
      trivial
    · rw [note_net hpc, Net.after_of_sameRest ⟨rfl, rfl, rfl, rfl⟩ rfl]
      exact hm.netOk hn
  | join => rfl
  | joinClaim hk hfree =>
    have hclean : n = .clean := hn
    rw [hclean]
    exact Net.after_claim hfree
  | joinSleep | cancelAsleep | asleepTimedout | asleepAgain | timedWoken =>
    exact (Net.after_of_sameRest (hrest _) rfl).trans hn
  | joinCancel =>
    have hslot : n = .slot := hn
    rw [hslot]
    exact Net.after_rollback (hj rfl)
  | joinUndo =>
    have hslot : n = .slot := hn
    rw [hslot]
    exact fun _ => Net.after_rollback (hj rfl)
  -- From here a call can only return 0.
  | deallocate =>
    show NetOk (if _ then _ else _) _
    split
    · trivial
    · exact NetOk.ret_ok
  | vmDeallocate => exact NetOk.ret_ok
  | @kernelFree d => cases d <;> trivial
  | _ => trivial

/-- The history agrees with `joinpt`. -/
structure Held (s : Global T (Mem T × List T) (Local × Net)) : Prop where
  winner : ∀ t, (s.loc t).1.pc.wins = true → s.mem.1.joinpt = some t
  won : s.mem.2 = [] ∨
    ∃ u, s.mem.2 = [u] ∧ s.mem.1.joinpt = some u ∧ (s.loc u).1.pc.wins = false
  net : ∀ t, NetOk (s.loc t).1.pc (s.loc t).2

/-- The list of the joins that returned 0, after one more step. -/
theorem Held.won_step {s : Global T (Mem T × List T) (Local × Net)} (hs : Held s) {p : Local × Net}
    (h : exec tgt t c s.mem.1 (s.loc t).1 = some (m, p.1)) {g : List T}
    (hg : g = if (s.loc t).1.pc = .ret .joiner .ok then t :: s.mem.2 else s.mem.2) :
    g = [] ∨ ∃ u, g = [u] ∧ m.joinpt = some u ∧
      (Function.update s.loc t p u).1.pc.wins = false := by
  by_cases hret : (s.loc t).1.pc = .ret .joiner .ok
  · -- The thread that returns 0 is in `joinpt`, so no other one has returned 0.
    have hj := hs.winner t (Pc.wins_eq.mpr (.inr hret))
    have hc : (s.loc t).1.pc.claim ≠ some .joiner := by
      rw [hret]
      exact nofun
    rcases hs.won with hnil | ⟨u, -, hju, hwu⟩
    · refine .inr ⟨t, by rw [hg, if_pos hret, hnil], exec_keepsJoinpt h hj (absurd · hc), ?_⟩
      rw [Function.update_self]
      exact exec_not_wins h (by rw [hj]; exact Option.some_ne_none t) hc
    · obtain rfl := Option.some.inj (hju.symm.trans hj)
      rw [Pc.wins_eq.mpr (.inr hret)] at hwu
      cases hwu
  · rw [hg, if_neg hret]
    apply hs.won.imp_right
    rintro ⟨u, hu, hju, hwu⟩
    -- The thread that returned 0 has no claim, and keeps `joinpt` for ever.
    have hc : u = t → (s.loc t).1.pc.claim ≠ some .joiner := by
      rintro rfl hc
      rw [Pc.wins_eq.mpr (.inl hc)] at hwu
      cases hwu
    refine ⟨u, hu, exec_keepsJoinpt h hju fun hcl hut => hc hut hcl, ?_⟩
    rw [Function.update_apply]
    split
    · rename_i hut
      exact exec_not_wins h (by rw [hju]; exact Option.some_ne_none u) (hc hut)
    · exact hwu

/-- Every step keeps the history in agreement. -/
theorem Held.step {s : Global T (Mem T × List T) (Local × Net)} {m : Mem T × List T}
    {p : Local × Net} (hs : Held s)
    (h : (exec tgt).ghost note t c s.mem (s.loc t) = some (m, p)) :
    Held ⟨m, Function.update s.loc t p⟩ := by
  obtain ⟨h, hnote⟩ := Exec.ghost_eq_some.mp h
  obtain ⟨hlist, hnet⟩ := Prod.mk.injEq .. |>.mp hnote
  have hclaim : (s.loc t).1.pc.claim = some .joiner → s.mem.1.joinpt = some t :=
    fun hc => hs.winner t (Pc.wins_eq.mpr (.inl hc))
  refine ⟨?_, hs.won_step h hlist, ?_⟩
  · refine forall_loc_iff (P := fun u (q : Local × Net) => q.1.pc.wins = true →
      m.1.joinpt = some u) |>.mpr ⟨fun hw => ?_, fun u hut hw => ?_⟩
    · rcases exec_wins h hw with ⟨hc, hj⟩ | ⟨-, hj⟩
      · rw [hj, hclaim hc]
      · exact hj
    · exact exec_keepsJoinpt h (hs.winner u hw) fun _ => hut
  · refine forall_loc_iff (P := fun _ (q : Local × Net) => NetOk q.1.pc q.2) |>.mpr
      ⟨?_, fun u _ => hs.net u⟩
    rw [hnet]
    exact exec_netOk (hs.net t) hclaim h

/-- A thread that has not moved yet. -/
theorem IsCreated.loc {s : Global T (Mem T) Local} (h : IsCreated tgt s) (t : T) :
    (s.loc t).pc = if t = tgt.th then .entry else .idle := by
  obtain ⟨s₀, ⟨-, hloc⟩, heq, -⟩ := h
  rw [heq, hloc t]

/-- At most one of the joins on a thread returns 0, and one that fails or is cancelled
leaves the descriptor as it was. -/
structure JoinsOnce (s : Global T (Mem T × List T) (Local × Net)) : Prop where
  once : s.mem.2.length ≤ 1
  failed : ∀ t r, (s.loc t).1.pc = .ret .joiner r → r ≠ .ok → (s.loc t).2 = .clean
  cancelled : ∀ t, (s.loc t).1.pc = .gone → (s.loc t).2 = .clean

/-- The joins of every run. -/
theorem joins_once {s : Global T (Mem T × List T) (Local × Net)} (h : (joins tgt).Reach s) :
    JoinsOnce s := by
  have hs : Held s := by
    refine Exec.invariant (fun s hs => ?_) (fun s t c m p hs _ he => hs.step he) h
    obtain ⟨hinit, hlist, hnet⟩ := hs
    refine ⟨fun t hw => ?_, .inl hlist, fun t => ?_⟩
    · have hloc : (s.loc t).1.pc = if t = tgt.th then .entry else .idle := hinit.loc t
      rw [hloc] at hw
      split at hw <;> cases hw
    · have hloc : (s.loc t).1.pc = if t = tgt.th then .entry else .idle := hinit.loc t
      rw [hloc]
      split <;> trivial
  refine ⟨?_, fun t r hpc hr => ?_, fun t hpc => ?_⟩
  · rcases hs.won with hnil | ⟨u, hu, -, -⟩
    · rw [hnil]
      exact Nat.zero_le 1
    · rw [hu]
      rfl
  · have hnet := hs.net t
    rw [hpc] at hnet
    exact hnet hr
  · have hnet := hs.net t
    rw [hpc] at hnet
    exact hnet

/-! ### A join that returns 0 has seen the id 0 -/

/-- What a join at the control point knows of the death event. -/
def Knows (t : T) (m : Mem T) : Pc → Prop
  | .joinLook k | .joinCas k => k.tries = true → m.id = 0
  | .joinAsleep _ => t ∈ m.sleepers ∨ m.id = 0
  | .joinEnd timedout => timedout = false → m.id = 0
  | .joinRetval | .deallocate .joiner | .freeStack .joiner | .vmDeallocate .joiner _ _ => m.id = 0
  | .ret .joiner r => r = .ok → m.id = 0
  | .entry | .run | .exit | .sample | .mark _ | .cleanup _ | .kernelFree .. | .kernelEvent
  | .dead _ | .idle | .gone | .joinDetached _ | .joinSelf _ | .joinBusy | .joinBegin _
  | .joinLoad _ | .joinWait .. | .joinCancel | .joinUndo | .detachInvalid | .detachDetached
  | .detachCas | .detachFlags | .detachLoad | .detachWait _ | .detachAsleep
  | .deallocate .detacher | .freeStack .detacher | .vmDeallocate .detacher _ _
  | .ret .detacher _ => True

/-- What a step that leaves the descriptor tells the join that moves. -/
theorem Moves.knows {pc pc' : Pc} (hm : Moves tgt c m pc pc') (hk : Knows t m pc)
    (hfresh : ∀ tsp id, pc = .joinWait (.timedjoin tsp) id → c.cancel = false →
      Hlpt.expired tsp c.now = false → m.id = id ∨ m.id = 0) : Knows t m pc' := by
  cases hm with
  | @joinSelf k hne =>
    cases k with
    | tryjoin => exact absurd rfl hne
    | join | timedjoin tsp => exact nofun
  | joinNotBusy h0 => exact fun _ => h0
  | joinLook => exact hk
  | joinDead h0 => exact fun _ => h0
  | joinExpired => exact nofun
  | timedChanged hc he hne => exact fun _ => (hfresh _ _ rfl hc he).resolve_left hne
  | joinEndRetval | joinEnd => exact hk rfl
  | @userStack w | @freeStack w =>
    cases w with
    | joiner => first | exact fun _ => hk | exact hk
    | detacher => trivial
  | joinDetached | joinDeadlk | joinBusy | joinTaken | joinLost => exact nofun
  | _ => trivial

/-- What a step makes of the thread that moves. -/
theorem exec_knows (hk : Knows t m l.pc) (h : exec tgt t c m l = some (m', l'))
    (hfresh : ∀ tsp id, l.pc = .joinWait (.timedjoin tsp) id → c.cancel = false →
      Hlpt.expired tsp c.now = false → m.id = id ∨ m.id = 0) : Knows t m' l'.pc := by
  cases step_of_exec h with
  | move hm => exact hm.knows hk hfresh
  | @kernelFree d => cases d <;> trivial
  | tryClaimRetval | tryClaim => exact hk rfl
  | joinSleep => exact .inl (Finset.mem_insert_self ..)
  | asleepTimedout => exact nofun
  -- Woken by the death event.
  | timedWoken hs => exact fun _ => hk.resolve_left hs
  | joinUndo => exact nofun
  | joinRetval => exact hk
  | @deallocate w =>
    show Knows t _ (if _ then _ else _)
    cases w with
    | joiner =>
      split
      · exact hk
      · exact fun _ => hk
    | detacher => split <;> trivial
  | @vmDeallocate w =>
    cases w with
    | joiner => exact fun _ => hk
    | detacher => trivial
  | _ => trivial

/-- A step of another thread leaves what a join knows. -/
theorem Knows.frame {u : T} {pc : Pc} (hk : Knows u m pc)
    (h : exec tgt t c m l = some (m', l')) (hut : u ≠ t) (h0 : m.id = 0 → m'.id = 0) :
    Knows u m' pc := by
  cases pc with
  | joinAsleep k =>
      rcases hk with hu | hid
      · exact (exec_keeps h).2.2 u hut hu
      · exact .inr (h0 hid)
  | joinLook k | joinCas k | joinEnd timedout => exact fun ht => h0 (hk ht)
  | joinRetval => exact h0 hk
  | deallocate w | freeStack w | vmDeallocate w addr size =>
      cases w with
      | joiner => exact h0 hk
      | detacher => trivial
  | ret w r =>
      cases w with
      | joiner => exact fun hr => h0 (hk hr)
      | detacher => trivial
  | _ => exact hk

/-- The joins and the target agree about the death event. -/
structure Seen (tgt : Target T) (s : Global T (Mem T) Local) : Prop where
  target : ∀ t, (s.loc t).pc.ofTarget = true ↔ t = tgt.th
  event : s.mem.id = 0 ↔ (s.loc tgt.th).pc = .dead false
  knows : ∀ t, Knows t s.mem (s.loc t).pc

/-- A step with a fresh id keeps the joins and the target in agreement. -/
theorem Seen.step {s : Global T (Mem T) Local} (hs : Seen tgt s) (hok : FreshId s (t, c))
    (h : exec tgt t c s.mem (s.loc t) = some (m, l)) :
    Seen tgt ⟨m, Function.update s.loc t l⟩ where
  target := forall_loc_iff (P := fun u (l : Local) => l.pc.ofTarget = true ↔ u = tgt.th) |>.mpr
    ⟨by rw [exec_ofTarget h]; exact hs.target t, fun u _ => hs.target u⟩
  event := exec_event (hs.target t).mp hs.event h
  knows := by
    -- The id is stored once, before it is cleared.
    have h0 : s.mem.id = 0 → m.id = 0 := by
      intro hid
      rcases exec_id h with ⟨h1, -⟩ | ⟨h1, -, -⟩ | ⟨-, h1, -⟩
      · rw [h1, hid]
      · have ht : t = tgt.th := (hs.target t).mp (by rw [h1]; rfl)
        have hdead := hs.event.mp hid
        rw [← ht, h1] at hdead
        cases hdead
      · exact h1
    refine forall_loc_iff (P := fun u (l : Local) => Knows u m l.pc) |>.mpr
      ⟨exec_knows (hs.knows t) h ?_, fun u hut => (hs.knows u).frame h hut h0⟩
    intro tsp id hpc hc he
    simpa [FreshId, hpc, hc, he] using hok

/-- A target that was created has not died. -/
theorem Seen.init {s : Global T (Mem T) Local} (h : IsCreated tgt s) : Seen tgt s := by
  have hid : s.mem.id = PTHREAD_INVALID_ID := by
    obtain ⟨s₀, ⟨⟨j, -, hm⟩, -⟩, -, hmem⟩ := h
    rcases hmem with hmem | hmem <;> rw [hmem, hm]
  refine ⟨fun t => ?_, ?_, fun t => ?_⟩
  · rw [h.loc t]
    split <;> simp [*, Pc.ofTarget]
  · rw [h.loc, if_pos rfl, hid]
    exact iff_of_false (by decide) (by simp)
  · rw [h.loc t]
    split <;> trivial

/-- A join that is about to return 0 finds the target terminated. -/
def Terminated (tgt : Target T) (s : Global T (Mem T × List T) (Local × Net)) : Prop :=
  ∀ t, (s.loc t).1.pc = .ret .joiner .ok →
    s.mem.1.id = 0 ∧ (s.loc tgt.th).1.pc = .dead false

/-- In every run at most one join returns 0, and one that fails leaves the descriptor as
it was. When no timed join waits for an id from before `thread_entry`, a join that
returns 0 finds the target terminated. -/
theorem join_terminated (tgt : Target T) (s : Global T (Mem T × List T) (Local × Net)) :
    ((joins tgt).Reach s → JoinsOnce s) ∧
    ((joins tgt).ReachVia (fun s a => FreshId (erase s) a) s → JoinsOnce s ∧ Terminated tgt s) := by
  refine ⟨joins_once, fun h => ⟨joins_once h.reach, ?_⟩⟩
  intro t hret
  have hs : Seen tgt (erase s) := Exec.invariant (fun _ => Seen.init)
    (fun _ _ _ _ _ hs hok he => hs.step hok he) (reach_erase h)
  have hk : Knows t (erase s).mem (s.loc t).1.pc := hs.knows t
  rw [hret] at hk
  exact ⟨hk rfl, hs.event.mp (hk rfl)⟩

/-- The target 0 and two other threads, before `thread_entry`, with the empty history. -/
def startJoins : Global (Fin 3) (Mem (Fin 3) × List (Fin 3)) (Local × Net) :=
  ⟨(start.mem, []), fun t => (start.loc t, .clean)⟩

theorem startJoins_init : (joins Target.three).init startJoins :=
  ⟨⟨start, start_isInit, rfl, .inl rfl⟩, rfl, fun _ => rfl⟩

/-- A timed join of the thread 1 times out, and then a join of the thread 2 returns 0. -/
theorem join_terminated_three : ∃ s, (joins Target.three).ReachVia
      (fun s a => FreshId (erase s) a) s ∧
    s.mem.2 = [2] ∧ (s.loc 1).1.pc = .ret .joiner .etimedout ∧
    JoinsOnce s ∧ Terminated Target.three s := by
  obtain ⟨s, hs, hj, hl⟩ := (joins Target.three).exists_reachVia
    (fun s a => FreshId (erase s) a) startJoins_init
    [(0, {}), (1, { call := .join (.timedjoin default) false }), (1, {}), (1, {}), (1, {}),
      (1, {}), (1, {}), (1, {}), (1, { now := ⟨1, 0⟩ }), (1, {}), (1, {}),
      (2, { call := .join .join true }), (2, {}), (2, {}), (2, {}), (2, {}), (2, {}), (2, {}),
      (2, {}), (0, {}), (0, {}), (0, {}), (0, {}), (0, {}), (0, { pick := some 2 }), (2, {}),
      (2, {}), (2, {}), (2, {}), (2, {}), (2, {}), (2, {}), (2, {})]
    (fun s => s.mem.2 = [2] ∧ (s.loc 1).1.pc = .ret .joiner .etimedout) (by decide)
  exact ⟨s, hs, hj, hl, ((join_terminated Target.three s).2 hs)⟩

/-- The thread 1 calls `pthread_timedjoin_np` and reads `PTHREAD_INVALID_ID`. The target
stores its id, so the wait finds another value, and the join returns 0 while the target
runs. -/
theorem join_terminated_fails : ∃ s, (joins Target.three).Reach s ∧
    (s.loc 1).1.pc = .ret .joiner .ok ∧ (s.loc 0).1.pc = .run ∧ ¬ Terminated Target.three s := by
  obtain ⟨s, hs, hret, hrun⟩ := (joins Target.three).exists_reach startJoins_init
    [(1, { call := .join (.timedjoin default) false }), (1, {}), (1, {}), (1, {}), (1, {}),
      (1, {}), (1, {}), (0, {}), (1, {}), (1, {}), (1, {}), (1, {}), (1, {})]
    (fun s => (s.loc 1).1.pc = .ret .joiner .ok ∧ (s.loc 0).1.pc = .run) (by decide)
  refine ⟨s, hs, hret, hrun, ?_⟩
  intro h
  have hdead : (s.loc 0).1.pc = .dead false := (h 1 hret).2
  rw [hrun] at hdead
  cases hdead

end Hlpt.Termination
