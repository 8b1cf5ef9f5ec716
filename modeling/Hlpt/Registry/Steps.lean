import Hlpt.Lib.Ring
import Hlpt.Registry.Model

/-!
# `Hlpt.Registry.Steps`: what the steps do

`Kind` is what the invariants see of the place of a thread, and `Step` says once what a
step can do, in terms of it. The operations on the list are told by the pointers that they
leave (`hurdListAddTail_ring`, `hurdListDel_ring`) and by what they do not touch
(`SameButLinks`).
-/

set_option autoImplicit false

namespace Hlpt.Registry

open Hlpt.Lib

universe u

variable {T : Type u}

/-! ### Where a thread is -/

/-- The life of a thread, as the number of threads sees it: `alive` until the final
decrement. -/
inductive Phase where
  | absent
  | unborn
  | alive
  | ended
  | exit
  | crashed
  deriving DecidableEq, Repr

/-- What the invariants see of the place of a thread: whether it holds the lock, whether it
is in the list, whether it has an id of its own and is not terminated, the thread that it
is about to create, and its share in `__pthread_total`. -/
structure Kind (T : Type u) where
  phase : Phase
  holds : Bool
  registered : Bool
  running : Bool
  child : Option T
  share : ℕ

/-- The program code: registered unless it runs in a destructor. -/
def Kind.code (late : Bool) (child : Option T) (share : ℕ) : Kind T :=
  ⟨.alive, false, !late, true, child, share⟩

/-- The kind of each place. -/
def Pc.kind : Pc T → Kind T
  | absent => ⟨.absent, false, false, false, none, 0⟩
  | unborn => ⟨.unborn, false, false, false, none, 0⟩
  | entry => ⟨.alive, false, false, false, none, 1⟩
  | enter => ⟨.alive, true, false, false, none, 1⟩
  | entered => ⟨.alive, true, true, true, none, 1⟩
  | run late => .code late none 1
  | allocate late c => .code late (some c) 1
  | create late c => .code late (some c) 1
  | machineState late c => .code late (some c) 2
  | free late c => .code late (some c) 2
  | undo late => .code late none 2
  | resume late c => .code late (some c) 2
  | cleanup => ⟨.alive, false, true, true, none, 1⟩
  | leave => ⟨.alive, true, true, true, none, 1⟩
  | left => ⟨.alive, true, false, true, none, 1⟩
  | fork late => { Kind.code late none 1 with holds := true }
  | terminate => ⟨.ended, false, false, true, none, 0⟩
  | dead => ⟨.ended, false, false, false, none, 0⟩
  | exit => ⟨.exit, false, false, true, none, 0⟩
  | crashed => ⟨.crashed, false, false, false, none, 1⟩

/-- The kind of the thread `t`. -/
def kind (s : State T) (t : T) : Kind T := (s.loc t).kind

variable [DecidableEq T] [Fintype T]

/-- What a step of the thread `t` can do. -/
inductive Step (s : State T) (t : T) (ch : Choice T) : State T → Prop
  /-- A step that matters to nobody else. -/
  | own (q : Pc T) (ht : (kind s t).phase = .alive) (hq : q.kind = kind s t) :
      Step s t ch (go s t q s.mem)
  | lock (q : Pc T) (ht : (kind s t).phase = .alive) (hfree : s.mem.lock = none)
      (hq : q.kind = { kind s t with holds := true }) :
      Step s t ch (go s t q { s.mem with lock := some t })
  | unlock (q : Pc T) (ht : (kind s t).phase = .alive) (hheld : (kind s t).holds = true)
      (hq : q.kind = { kind s t with holds := false }) : Step s t ch (go s t q (unlock s.mem))
  | create (late : Bool) (c : T) (usrStack : Bool) (ht : s.loc t = .run late)
      (hc : s.loc c = .absent) :
      Step s t ch (go₂ s t (.allocate late c) c .unborn (ptAllocate c usrStack s.mem))
  /-- A new descriptor is given up. -/
  | drop (q : Pc T) (c : T) (ht : (kind s t).phase = .alive) (hc : (kind s t).child = some c)
      (hq : q.kind = { kind s t with child := none }) :
      Step s t ch (go₂ s t q c .absent (freeStack c s.mem))
  | count (late : Bool) (c : T) (ht : s.loc t = .create late c) :
      Step s t ch (go s t (.machineState late c) { s.mem with total := s.mem.total + 1 })
  | undo (late : Bool) (ht : s.loc t = .undo late) :
      Step s t ch (go s t (.run late) { s.mem with total := s.mem.total - 1 })
  | resume (late : Bool) (c : T) (ht : s.loc t = .resume late c) :
      Step s t ch (go₂ s t (.run late) c .entry s.mem)
  | register (m : Mem T) (ht : s.loc t = .enter) (hm : register t s.mem = some m) :
      Step s t ch (go s t .entered m)
  | unregister (m : Mem T) (ht : s.loc t = .leave) (hm : hurdListDel (.link t) s.mem = some m) :
      Step s t ch (go s t .left m)
  /-- An operation on the list faults. -/
  | fault (ht : s.loc t = .enter ∧ Registry.register t s.mem = none ∨
      s.loc t = .leave ∧ hurdListDel (.link t) s.mem = none) : Step s t ch (go s t .crashed s.mem)
  | decrement (ht : s.loc t = .run true) :
      Step s t ch (go s t (if s.mem.total = 1 then .exit else .terminate)
        { s.mem with total := s.mem.total - 1 })
  | terminate (ht : s.loc t = .terminate) : Step s t ch (go s t .dead (setId t 0 s.mem))
  | reap (ht : s.loc t = .dead) : Step s t ch (go s t .absent (freeStack t s.mem))
  | fork (late : Bool) (ht : s.loc t = .fork late) (hch : ch = .child) :
      Step s t ch (alone t (if (ptAtforkChild t s.mem).2 then .run late else .crashed)
        (ptAtforkChild t s.mem).1)

/-- Where the lock is taken. -/
theorem lock_cases {s s' : State T} {t : T} {ch : Choice T} {q : Pc T}
    (ht : (kind s t).phase = .alive) (hq : q.kind = { kind s t with holds := true })
    (h : (lock t s.mem).map (go s t q) = some s') : Step s t ch s' := by
  unfold lock at h
  split at h
  · rename_i hfree
    cases h
    exact .lock q ht hfree hq
  · cases h

/-- Every step of the machine is one of these. -/
theorem step_cases {s s' : State T} {t : T} {ch : Choice T} (h : step s t ch = some s') :
    Step s t ch s' := by
  have hkind : ∀ {p : Pc T}, s.loc t = p → kind s t = p.kind := fun hp => congrArg Pc.kind hp
  unfold step at h
  dsimp only at h
  split at h
  case h_1 hp => exact lock_cases (by rw [hkind hp]; rfl) (by rw [hkind hp]; rfl) h
  case h_2 hp =>
    split at h
    · rename_i hm
      cases h
      exact .register _ hp hm
    · rename_i hm
      cases h
      exact .fault (.inl ⟨hp, hm⟩)
  case h_4 late c usrStack hp =>
    split at h
    · rename_i hc
      cases h
      exact .create late c usrStack hp hc.1
    · cases h
  case h_3 hp | h_16 hp | h_21 hp =>
    cases h
    exact .unlock _ (by rw [hkind hp]; rfl) (by rw [hkind hp]; rfl) (by rw [hkind hp]; rfl)
  case h_5 hp | h_8 hp | h_9 hp | h_13 hp =>
    cases h
    exact .own _ (by rw [hkind hp]; rfl) (by rw [hkind hp]; rfl)
  case h_6 hp | h_10 hp =>
    cases h
    exact .drop _ _ (by rw [hkind hp]; rfl) (by rw [hkind hp]; rfl) (by rw [hkind hp]; rfl)
  case h_7 hp =>
    cases h
    exact .count _ _ hp
  case h_11 hp =>
    cases h
    exact .undo _ hp
  case h_12 hp =>
    cases h
    exact .resume _ _ hp
  case h_14 hp => exact lock_cases (by rw [hkind hp]; rfl) (by rw [hkind hp]; rfl) h
  case h_15 hp =>
    split at h
    · rename_i hm
      cases h
      exact .unregister _ hp hm
    · rename_i hm
      cases h
      exact .fault (.inr ⟨hp, hm⟩)
  case h_17 hp =>
    cases h
    exact .decrement hp
  case h_18 hp =>
    cases h
    exact .terminate hp
  case h_19 hp =>
    cases h
    exact .reap hp
  case h_20 hp => exact lock_cases (by rw [hkind hp]; rfl) (by rw [hkind hp]; rfl) h
  case h_22 hp =>
    cases h
    exact .fork _ hp rfl
  case h_23 => cases h

/-! ### The operations on the list -/

omit [Fintype T]

variable {m m' m'' : Mem T} {a v : Addr T} {n : HurdList T} {t : T}

/-- Only links differ. -/
structure SameButLinks (m m' : Mem T) : Prop where
  lock : m'.lock = m.lock
  idCounter : m'.idCounter = m.idCounter
  total : m'.total = m.total
  starts : m'.starts = m.starts
  serial : m'.serial = m.serial
  desc : ∀ t, (m'.desc t).map (fun d => (d.id, d.usrStack)) =
    (m.desc t).map fun d => (d.id, d.usrStack)

omit [DecidableEq T] in
theorem SameButLinks.trans (h : SameButLinks m m') (h' : SameButLinks m' m'') :
    SameButLinks m m'' where
  lock := h'.lock.trans h.lock
  idCounter := h'.idCounter.trans h.idCounter
  total := h'.total.trans h.total
  starts := h'.starts.trans h.starts
  serial := h'.serial.trans h.serial
  desc t := (h'.desc t).trans (h.desc t)

omit [DecidableEq T] in
/-- The same descriptors are there. -/
theorem SameButLinks.isSome (h : SameButLinks m m') (t : T) :
    (m'.desc t).isSome = (m.desc t).isSome := by
  have hd := congrArg Option.isSome (h.desc t)
  simpa only [Option.isSome_map] using hd

omit [DecidableEq T] in
/-- The same nodes are there. -/
theorem SameButLinks.node (h : SameButLinks m m') (a : Addr T) :
    (m'.node a).isSome = (m.node a).isSome := by
  cases a with
  | head => rfl
  | link t => simp only [Mem.node, Option.isSome_map, h.isSome t]

/-- A node is written where one is. -/
theorem setNode_eq (h : m.setNode n a = some m') :
    m'.node = Function.update m.node a (some n) ∧ SameButLinks m m' := by
  cases a with
  | head =>
      cases h
      refine ⟨?_, rfl, rfl, rfl, rfl, rfl, fun _ => rfl⟩
      funext b
      cases b <;> rfl
  | link t =>
      obtain ⟨d, hd, rfl⟩ := Option.map_eq_some_iff.mp h
      refine ⟨?_, rfl, rfl, rfl, rfl, rfl, fun u => ?_⟩
      · funext b
        cases b with
        | head => rfl
        | link u =>
            by_cases hu : u = t
            · subst hu
              simp [Mem.node]
            · have hne : (Addr.link u : Addr T) ≠ .link t := by simpa using hu
              simp [Mem.node, hu, hne]
      · by_cases hu : u = t
        · subst hu
          simp [hd]
        · simp [hu]

/-- A node that is there can be written. -/
theorem exists_setNode (n : HurdList T) (h : (m.node a).isSome) :
    ∃ m', m.setNode n a = some m' := by
  cases a with
  | head => exact ⟨_, rfl⟩
  | link t =>
      obtain ⟨d, hd⟩ := Option.isSome_iff_exists.mp (by simpa [Mem.node] using h)
      exact ⟨_, by rw [Mem.setNode, hd]; rfl⟩

/-- `a->next = v`, for a node that is there. -/
theorem setNext_eq (v : Addr T) (ha : (m.node a).isSome) :
    ∃ m', m.setNext a v = some m' ∧ SameButLinks m m' ∧
      (∀ b, m'.next b = if b = a then some v else m.next b) ∧ ∀ b, m'.prev b = m.prev b := by
  obtain ⟨n, hn⟩ := Option.isSome_iff_exists.mp ha
  obtain ⟨m', hm'⟩ := exists_setNode (m := m) { n with next := some v } ha
  obtain ⟨hnode, hsame⟩ := setNode_eq hm'
  refine ⟨m', ?_, hsame, fun b => ?_, fun b => ?_⟩
  · rw [Mem.setNext, hn]
    exact hm'
  · rw [Mem.next, hnode]
    by_cases hb : b = a
    · subst hb
      simp
    · simp [hb, Mem.next]
  · rw [Mem.prev, hnode]
    by_cases hb : b = a
    · subst hb
      simp [Mem.prev, hn]
    · simp [hb, Mem.prev]

/-- `a->prev = v`, for a node that is there. -/
theorem setPrev_eq (v : Addr T) (ha : (m.node a).isSome) :
    ∃ m', m.setPrev a v = some m' ∧ SameButLinks m m' ∧
      (∀ b, m'.prev b = if b = a then some v else m.prev b) ∧ ∀ b, m'.next b = m.next b := by
  obtain ⟨n, hn⟩ := Option.isSome_iff_exists.mp ha
  obtain ⟨m', hm'⟩ := exists_setNode (m := m) { n with prev := some v } ha
  obtain ⟨hnode, hsame⟩ := setNode_eq hm'
  refine ⟨m', ?_, hsame, fun b => ?_, fun b => ?_⟩
  · rw [Mem.setPrev, hn]
    exact hm'
  · rw [Mem.prev, hnode]
    by_cases hb : b = a
    · subst hb
      simp
    · simp [hb, Mem.prev]
  · rw [Mem.next, hnode]
    by_cases hb : b = a
    · subst hb
      simp [Mem.next, hn]
    · simp [hb, Mem.next]

/-- `hurd_list_add`, for nodes that are there. -/
theorem hurdListAdd_eq {prev next node : Addr T} (hprev : (m.node prev).isSome)
    (hnext : (m.node next).isSome) (hnode : (m.node node).isSome) :
    ∃ m', hurdListAdd prev next node m = some m' ∧ SameButLinks m m' ∧
      (∀ b, m'.next b = if b = prev then some node else if b = node then some next
        else m.next b) ∧
      ∀ b, m'.prev b = if b = node then some prev else if b = next then some node
        else m.prev b := by
  obtain ⟨m₁, h₁, hs₁, hp₁, hn₁⟩ := setPrev_eq node hnext
  obtain ⟨m₂, h₂, hs₂, hn₂, hp₂⟩ := setNext_eq (m := m₁) next (hs₁.node _ ▸ hnode)
  have hs₁₂ := hs₁.trans hs₂
  obtain ⟨m₃, h₃, hs₃, hn₃, hp₃⟩ := setNext_eq (m := m₂) node (hs₁₂.node _ ▸ hprev)
  have hs₁₃ := hs₁₂.trans hs₃
  obtain ⟨m₄, h₄, hs₄, hp₄, hn₄⟩ := setPrev_eq (m := m₃) prev (hs₁₃.node _ ▸ hnode)
  refine ⟨m₄, ?_, hs₁₃.trans hs₄, fun b => ?_, fun b => ?_⟩
  · simp only [hurdListAdd, h₁, h₂, h₃, h₄, Option.bind_some]
  · rw [hn₄, hn₃, hn₂, hn₁]
  · rw [hp₄, hp₃, hp₂, hp₁]

/-- The threads that are in the list, in order. -/
def Listed (m : Mem T) (l : List T) : Prop := Ring m.next m.prev .head (l.map .link)

omit [DecidableEq T] in
/-- The nodes are in the list head and the descriptors. -/
theorem node_congr (hhead : m'.runningThreads = m.runningThreads) (hdesc : m'.desc = m.desc)
    (a : Addr T) : m'.node a = m.node a := by
  cases a with
  | head => simp only [Mem.node, hhead]
  | link t => simp only [Mem.node, hdesc]

omit [DecidableEq T] in
/-- A node with a link is there. -/
theorem isSome_of_next {b : Addr T} (h : m.next a = some b) : (m.node a).isSome := by
  obtain ⟨n, hn, -⟩ := Option.bind_eq_some_iff.mp h
  rw [hn]
  rfl

omit [DecidableEq T] in
/-- Every thread in the list has its descriptor. -/
theorem Listed.isSome {l : List T} (h : Listed m l) (ha : a ∈ .head :: l.map .link) :
    (m.node a).isSome := by
  obtain ⟨b, -, hb⟩ := h.exists_next ha
  exact isSome_of_next hb

omit [DecidableEq T] in
/-- The links lead from the list into the list. -/
theorem Listed.mem_next {l : List T} {b : Addr T} (h : Listed m l)
    (ha : a ∈ .head :: l.map .link) (hb : m.next a = some b) : b ∈ .head :: l.map .link := by
  obtain ⟨c, hc, hnext⟩ := h.exists_next ha
  obtain rfl := Option.some.inj (hb.symm.trans hnext)
  exact hc

omit [DecidableEq T] in
/-- The list does not depend on other memory. -/
theorem Listed.congr {l : List T} (h : Listed m l) (hnode : ∀ a, m'.node a = m.node a) :
    Listed m' l := by
  have hnext : m'.next = m.next := by
    funext a
    simp only [Mem.next, hnode]
  have hprev : m'.prev = m.prev := by
    funext a
    simp only [Mem.prev, hnode]
  unfold Listed
  rw [hnext, hprev]
  exact h

omit [DecidableEq T] in
theorem link_injective : Function.Injective (Addr.link : T → Addr T) :=
  fun _ _ h => Addr.link.inj h

/-- The new thread is the last one in the list. -/
theorem hurdListAddTail_ring {l : List T} (h : Listed m l) (ht : t ∉ l)
    (hdesc : (m.desc t).isSome) :
    ∃ m', hurdListAddTail (.link t) m = some m' ∧ SameButLinks m m' ∧ Listed m' (l ++ [t]) := by
  obtain ⟨b, hb, hprev⟩ := h.exists_prev List.mem_cons_self
  have hnew : Addr.link t ∉ .head :: l.map .link := by
    simpa using ht
  have hne : b ≠ .link t := fun heq => hnew (heq ▸ hb)
  have hnode : (m.node (.link t)).isSome := by
    simpa [Mem.node] using hdesc
  have hhead : (m.node .head).isSome := rfl
  obtain ⟨m', hm', hsame, hn, hp⟩ := hurdListAdd_eq (h.isSome hb) hhead hnode
  refine ⟨m', ?_, hsame, ?_⟩
  · simp only [hurdListAddTail, hprev, Option.bind_some, hm']
  · unfold Listed
    rw [List.map_append]
    refine Ring.concat h hnew hprev ?_ ?_ (fun y hy hy' => ?_) ?_ ?_ fun y hy hy' => ?_
    · rw [hn, if_pos rfl]
    · rw [hn, if_neg hne.symm, if_pos rfl]
    · rw [hn, if_neg hy, if_neg hy']
    · rw [hp, if_neg (by simp), if_pos rfl]
    · rw [hp, if_pos rfl]
    · rw [hp, if_neg hy', if_neg hy]

/-- The thread is taken out of the list. -/
theorem hurdListDel_ring {l : List T} (h : Listed m l) (ht : t ∈ l) :
    ∃ m', hurdListDel (.link t) m = some m' ∧ SameButLinks m m' ∧ Listed m' (l.erase t) := by
  have hmem : Addr.link t ∈ l.map Addr.link := List.mem_map_of_mem ht
  obtain ⟨b, hb, hnext⟩ := h.exists_next (List.mem_cons_of_mem _ hmem)
  obtain ⟨c, hc, hprev⟩ := h.exists_prev (List.mem_cons_of_mem _ hmem)
  have hne : Addr.link t ≠ c := h.ne_prev hmem hprev
  obtain ⟨m₁, h₁, hs₁, hn₁, hp₁⟩ := setNext_eq (m := m) b (h.isSome hc)
  obtain ⟨m₂, h₂, hs₂, hp₂, hn₂⟩ := setPrev_eq (m := m₁) c (hs₁.node _ ▸ h.isSome hb)
  refine ⟨m₂, ?_, hs₁.trans hs₂, ?_⟩
  · have hnext₁ : m₁.next (.link t) = some b := by rw [hn₁, if_neg hne, hnext]
    have hprev₁ : m₁.prev (.link t) = some c := by rw [hp₁, hprev]
    simp only [hurdListDel, hprev, hnext, Option.bind_some, h₁, hnext₁, hprev₁, h₂]
  · unfold Listed
    rw [List.map_erase link_injective]
    refine Ring.erase h hmem hnext hprev ?_ (fun y hy => ?_) ?_ fun y hy => ?_
    · rw [hn₂, hn₁, if_pos rfl]
    · rw [hn₂, hn₁, if_neg hy]
    · rw [hp₂, if_pos rfl]
    · rw [hp₂, if_neg hy, hp₁]

/-- A write of a link changes only links. -/
theorem setNext_same (h : m.setNext a v = some m') : SameButLinks m m' := by
  obtain ⟨n, -, hn⟩ := Option.bind_eq_some_iff.mp h
  exact (setNode_eq hn).2

theorem setPrev_same (h : m.setPrev a v = some m') : SameButLinks m m' := by
  obtain ⟨n, -, hn⟩ := Option.bind_eq_some_iff.mp h
  exact (setNode_eq hn).2

/-- `hurd_list_add_tail` changes only links, whatever the list looks like. -/
theorem hurdListAddTail_same (h : hurdListAddTail a m = some m') : SameButLinks m m' := by
  obtain ⟨prev, -, h⟩ := Option.bind_eq_some_iff.mp h
  obtain ⟨m₁, h₁, h⟩ := Option.bind_eq_some_iff.mp h
  obtain ⟨m₂, h₂, h⟩ := Option.bind_eq_some_iff.mp h
  obtain ⟨m₃, h₃, h₄⟩ := Option.bind_eq_some_iff.mp h
  exact (((setPrev_same h₁).trans (setNext_same h₂)).trans (setNext_same h₃)).trans
    (setPrev_same h₄)

/-- `hurd_list_del` changes only links. -/
theorem hurdListDel_same (h : hurdListDel a m = some m') : SameButLinks m m' := by
  obtain ⟨prev, -, h⟩ := Option.bind_eq_some_iff.mp h
  obtain ⟨next, -, h⟩ := Option.bind_eq_some_iff.mp h
  obtain ⟨m₁, h₁, h⟩ := Option.bind_eq_some_iff.mp h
  obtain ⟨next', -, h⟩ := Option.bind_eq_some_iff.mp h
  obtain ⟨prev', -, h₂⟩ := Option.bind_eq_some_iff.mp h
  exact (setNext_same h₁).trans (setPrev_same h₂)

/-- What `thread_entry` leaves, whatever the list looks like. -/
theorem register_eq (h : register t m = some m') :
    ∃ m₁, hurdListAddTail (.link t) m = some m₁ ∧ SameButLinks m m₁ ∧
      m' = { setId t ((m.idCounter + 1) &&& PTHREAD_ID_MASK) m₁ with
        idCounter := m.idCounter + 1
        starts := m.starts + 1
        serial := Function.update m.serial t (m.starts + 1) } := by
  obtain ⟨m₁, h₁, rfl⟩ := Option.map_eq_some_iff.mp h
  have hsame := hurdListAddTail_same h₁
  refine ⟨m₁, h₁, hsame, ?_⟩
  simp only [setId, hsame.idCounter, hsame.starts, hsame.serial]

/-! ### The descriptors -/

/-- A new id changes no link. -/
theorem setId_node (t : T) (id : BitVec 32) (m : Mem T) (a : Addr T) :
    (setId t id m).node a = m.node a := by
  cases a with
  | head => rfl
  | link u =>
      by_cases hu : u = t
      · subst hu
        simp only [Mem.node, setId, Function.update_self, Option.map_map]
        rfl
      · simp only [Mem.node, setId, Function.update_of_ne hu]

theorem setId_isSome (t : T) (id : BitVec 32) (m : Mem T) (u : T) :
    ((setId t id m).desc u).isSome = (m.desc u).isSome := by
  by_cases hu : u = t
  · subst hu
    simp only [setId, Function.update_self, Option.isSome_map]
  · simp only [setId, Function.update_of_ne hu]

/-- `free_stack` leaves the other descriptors. -/
theorem freeStack_desc {u : T} (hu : u ≠ t) : (freeStack t m).desc u = m.desc u := by
  unfold freeStack
  split
  · rfl
  · exact Function.update_of_ne hu none m.desc

/-- What `free_stack` does not change. -/
theorem freeStack_rest : (freeStack t m).runningThreads = m.runningThreads ∧
    (freeStack t m).lock = m.lock ∧ (freeStack t m).total = m.total := by
  unfold freeStack
  split <;> exact ⟨rfl, rfl, rfl⟩

omit [DecidableEq T] in
/-- A descriptor that is not in the list may change. -/
theorem Listed.other {l : List T} (h : Listed m l) (ht : t ∉ l)
    (hhead : m'.runningThreads = m.runningThreads) (hdesc : ∀ u, u ≠ t → m'.desc u = m.desc u) :
    Listed m' l := by
  have hnode : ∀ a ∈ .head :: l.map Addr.link, m'.node a = m.node a := by
    intro a ha
    cases a with
    | head => simp only [Mem.node, hhead]
    | link u =>
        have hu : u ∈ l := by simpa using ha
        have hne : u ≠ t := fun heq => ht (heq ▸ hu)
        simp only [Mem.node, hdesc u hne]
  exact Ring.congr h (fun a ha => by simp only [Mem.next, hnode a ha])
    fun a ha => by simp only [Mem.prev, hnode a ha]

/-- `__pthread_free_stacks` only frees other descriptors. -/
theorem freeStacks_rest (self : T) (k : ℕ) (a : Addr T) (m : Mem T) :
    ∃ d, (freeStacks self k a m).1 = { m with desc := d } ∧ d self = m.desc self := by
  induction k generalizing a m with
  | zero => exact ⟨m.desc, rfl, rfl⟩
  | succ k ih =>
      cases a with
      | head => exact ⟨m.desc, rfl, rfl⟩
      | link x =>
          have hfree : ∃ d, (if x = self then m else freeStack x m) = { m with desc := d } ∧
              d self = m.desc self := by
            split
            · exact ⟨m.desc, rfl, rfl⟩
            · rename_i hx
              refine ⟨(freeStack x m).desc, ?_, freeStack_desc (Ne.symm hx)⟩
              unfold freeStack
              split <;> rfl
          obtain ⟨d, hd, hself⟩ := hfree
          simp only [freeStacks, hd]
          split
          · rename_i b hb
            obtain ⟨d', hd', hself'⟩ := ih b { m with desc := d }
            exact ⟨d', hd', hself'.trans hself⟩
          · exact ⟨d, rfl, hself⟩

/-- What `pt_atfork_child` leaves, whatever the list looks like. -/
structure Child (t : T) (m m' : Mem T) : Prop where
  lock : m'.lock = none
  total : m'.total = 1
  idCounter : m'.idCounter = 1
  starts : m'.starts = 1
  serial : m'.serial = Function.update m.serial t 1
  id : (m'.desc t).map Desc.id = (m.desc t).map fun _ => 1

/-- The loop of `__pthread_free_stacks` ends and frees nothing, when the stacks of the
other threads in the list are the program's. -/
theorem freeStacks_eq {self : T} {l : List T} {k : ℕ}
    (hseg : Seg m.next a (l.map .link) .head) (hk : l.length < k)
    (husr : ∀ u ∈ l, u ≠ self → (m.desc u).any Desc.usrStack = true) :
    freeStacks self k a m = (m, true) := by
  induction l generalizing a k with
  | nil =>
      obtain rfl := Seg.nil_iff.mp hseg
      obtain ⟨k, rfl⟩ := Nat.exists_eq_succ_of_ne_zero (Nat.ne_of_gt hk)
      rfl
  | cons x l ih =>
      obtain ⟨rfl, b, hb, hl⟩ := Seg.cons_iff.mp hseg
      obtain ⟨k, rfl⟩ := Nat.exists_eq_succ_of_ne_zero (Nat.ne_of_gt (Nat.zero_lt_of_lt hk))
      have hfree : (if x = self then m else freeStack x m) = m := by
        split
        · rfl
        · rename_i hx
          rw [freeStack, if_pos (husr x List.mem_cons_self hx)]
      simp only [freeStacks, hfree, hb]
      exact ih hl (Nat.lt_of_succ_lt_succ hk) fun u hu => husr u (List.mem_cons_of_mem _ hu)

theorem SameButLinks.child {m₀ : Mem T} (hs : SameButLinks m m') (h : Child t m₀ m) :
    Child t m₀ m' where
  lock := hs.lock.trans h.lock
  total := hs.total.trans h.total
  idCounter := hs.idCounter.trans h.idCounter
  starts := hs.starts.trans h.starts
  serial := hs.serial.trans h.serial
  id := by
    have hid := congrArg (Option.map Prod.fst) (hs.desc t)
    simp only [Option.map_map] at hid
    exact hid.trans h.id

/-- Whether it goes well or not. -/
theorem ptAtforkChild_child [Fintype T] (self : T) (m : Mem T) :
    Child self m (ptAtforkChild self m).1 := by
  have hstart : Child self m (childStart self m) := by
    refine ⟨rfl, rfl, rfl, rfl, rfl, ?_⟩
    simp only [childStart, setId, Function.update_self, Option.map_map]
    rfl
  have hfree : ∀ k a, Child self m (freeStacks self k a (childStart self m)).1 := by
    intro k a
    obtain ⟨d, hd, hself⟩ := freeStacks_rest self k a (childStart self m)
    rw [hd]
    exact ⟨rfl, rfl, rfl, rfl, rfl, (congrArg (Option.map Desc.id) hself).trans hstart.id⟩
  unfold ptAtforkChild
  dsimp only
  split
  · exact hstart
  · rename_i runp hrunp
    have hfree' := hfree (Fintype.card T + 1) runp
    split
    · rename_i m₁ heq
      rw [heq] at hfree'
      exact hfree'
    · rename_i m₁ heq
      rw [heq] at hfree'
      split
      · rename_i m₂ hadd
        have hinit : Child self m (hurdListInit m₁) :=
          ⟨hfree'.lock, hfree'.total, hfree'.idCounter, hfree'.starts, hfree'.serial, hfree'.id⟩
        exact (hurdListAddTail_same hadd).child hinit
      · exact hfree'

omit [DecidableEq T] in
/-- A thread is in the list once. -/
theorem Listed.nodup {l : List T} (h : Listed m l) : l.Nodup :=
  (List.nodup_cons.mp (Ring.nodup h)).2.of_map _

/-- `pt_atfork_child` leaves a list of the one thread, when the list was well formed and the
stacks of the other threads in it are the program's. -/
theorem ptAtforkChild_ring [Fintype T] {self : T} {l : List T} (h : Listed m l)
    (hself : (m.desc self).isSome)
    (husr : ∀ u ∈ l, u ≠ self → (m.desc u).any Desc.usrStack = true) :
    (ptAtforkChild self m).2 = true ∧ Listed (ptAtforkChild self m).1 [self] ∧
      ((ptAtforkChild self m).1.desc self).isSome := by
  have hstart : Listed (childStart self m) l :=
    h.congr fun a => (node_congr rfl rfl a).trans (setId_node self 1 m a)
  have hsome : ((childStart self m).desc self).isSome := by
    rwa [← setId_isSome self 1 m self] at hself
  obtain ⟨-, runp, hrunp, hseg⟩ := Seg.cons_iff.mp (Ring.next hstart)
  have hlen : l.length < Fintype.card T + 1 := Nat.lt_succ_of_le hstart.nodup.length_le_card
  have hfree := freeStacks_eq hseg hlen fun u hu (hne : u ≠ self) => by
    have hdesc : (childStart self m).desc u = m.desc u := Function.update_of_ne hne _ _
    rw [hdesc]
    exact husr u hu hne
  have hempty : Listed (hurdListInit (childStart self m)) [] := .nil rfl rfl
  obtain ⟨m', hm', hsame, hl⟩ := hurdListAddTail_ring hempty List.not_mem_nil hsome
  have heq : ptAtforkChild self m = (m', true) := by
    unfold ptAtforkChild
    simp only [hrunp, hfree, hm']
  rw [heq]
  refine ⟨rfl, hl, ?_⟩
  rw [hsame.isSome]
  exact hsome

end Hlpt.Registry
