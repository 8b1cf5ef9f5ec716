import Hlpt.Running.Model

/-!
# `Hlpt.Running.Linear`: the list of the running threads is a sequence

What a thread does under `__running_threads_lock` is one step on the sequence of the running
threads, although it takes the pointer writes of the list macros one by one. A traversal
visits the threads as they were at one instant, and a fork copies no list that another
thread is in the middle of changing.

* `running_linearizable`: every history of threads that enter the list, leave it, run
  `pthread_foreach_np` and fork is a history of `runningThreads`.
* `callback_running`: a callback of `pthread_foreach_np` never sees a thread that has left
  the list.
-/

set_option autoImplicit false

namespace Hlpt.Running

open Hlpt.Lib Hlpt.Lists Hlpt.LowLevelLock

universe u

/-- The running threads in their order, their ids, and the counter of the ids. -/
structure Threads (T : Type u) where
  threads : List T
  nodup : threads.Nodup
  id : T → BitVec 32
  counter : BitVec 32

variable {T : Type u}

/-! ### Traversals -/

/-- A traversal that returned `ret`: its callbacks were for the first threads, in their order.
Only the last one may have failed, `ret` is what that one returned, and unless it failed
the traversal went through all threads. -/
def Visits (threads : List T) (calls : List (T × BitVec 32)) (ret : BitVec 32) : Prop :=
  calls.map Prod.fst <+: threads ∧ (∀ x ∈ calls.dropLast, x.2.slt 0 = false) ∧
    ret = lastRet calls ∧ (calls.map Prod.fst = threads ∨ ret.slt 0 = true)

/-- A traversal that was cancelled: it had got through the first threads, and was in the
callback for the next one if at all. -/
def Stops (threads : List T) (calls : List (T × BitVec 32)) (last : Option T) : Prop :=
  calls.map Prod.fst ++ last.toList <+: threads ∧ ∀ x ∈ calls, x.2.slt 0 = false

/-- The `next` pointers. -/
def nexts (heap : Heap (Addr T)) (x : Addr T) : Option (Addr T) := some (heap x).next

/-- The callbacks `calls` are behind a traversal that goes on at `runp` with the threads
`rest`. -/
def Traverses (heap : Heap (Addr T)) (threads : List T) (runp : Addr T)
    (calls : List (T × BitVec 32)) (rest : List T) : Prop :=
  calls.map Prod.fst ++ rest = threads ∧ Seg (nexts heap) runp (rest.map .link) .head ∧
    ∀ x ∈ calls, x.2.slt 0 = false

/-- The links, the ids and the counter show the state. -/
structure Stands (d : Data T) (a : Threads T) : Prop where
  list : IsList d.heap .head (a.threads.map .link)
  id : d.id = a.id
  counter : d.counter = a.counter

/-- A thread knows whether it is in the list. -/
def Knows (t : T) (life : Life) (a : Threads T) : Prop := life = .running ↔ t ∈ a.threads

variable {t u : T} {o : Call} {a : Threads T} {d d' d'' : Data T} {heap : Heap (Addr T)}
  {threads rest : List T} {calls : List (T × BitVec 32)} {runp : Addr T} {c : Env}

theorem link_injective : Function.Injective (Addr.link (T := T)) := fun _ _ => Addr.link.inj

/-- A thread that is not in the sequence has its link outside of the list. -/
theorem link_notMem (h : t ∉ threads) : Addr.link t ∉ Addr.head :: threads.map Addr.link := by
  simpa using h

/-- A traversal begins with all threads before it. -/
theorem Stands.traverses (h : Stands d a) :
    Traverses d.heap a.threads (d.heap .head).next [] a.threads := by
  obtain ⟨-, b, hb, hl⟩ := Seg.cons_iff.mp h.list.next
  cases hb
  exact ⟨rfl, hl, by simp⟩

/-- At the head the traversal is through. -/
theorem Traverses.visits (h : Traverses heap threads .head calls rest) :
    Visits threads calls (lastRet calls) := by
  obtain ⟨hl, hseg, hgood⟩ := h
  cases rest with
  | nil =>
      rw [List.append_nil] at hl
      exact ⟨hl ▸ List.prefix_rfl, fun x hx => hgood x (List.mem_of_mem_dropLast hx), rfl,
        .inl hl⟩
  | cons u rest =>
      obtain ⟨heq, -⟩ := Seg.cons_iff.mp hseg
      cases heq

/-- At a link the traversal has its thread next. -/
theorem Traverses.next (h : Traverses heap threads (.link u) calls rest) :
    ∃ rest', Traverses heap threads (.link u) calls (u :: rest') := by
  cases rest with
  | nil => cases Seg.nil_iff.mp h.2.1
  | cons v rest =>
      obtain ⟨heq, -⟩ := Seg.cons_iff.mp h.2.1
      cases heq
      exact ⟨rest, h⟩

/-- Between two callbacks a traversal may be cancelled. -/
theorem Traverses.stops (h : Traverses heap threads runp calls rest) :
    Stops threads calls none := by
  refine ⟨?_, h.2.2⟩
  rw [Option.toList_none, List.append_nil]
  exact ⟨rest, h.1⟩

/-- Within a callback it may be cancelled, too. -/
theorem Traverses.stops_callback (h : Traverses heap threads runp calls (u :: rest)) :
    Stops threads calls (some u) := by
  refine ⟨⟨rest, ?_⟩, h.2.2⟩
  rw [Option.toList_some, List.append_assoc]
  exact h.1

/-- The value of the last callback is that of the traversal. -/
theorem lastRet_concat (calls : List (T × BitVec 32)) (u : T) (r : BitVec 32) :
    lastRet (calls ++ [(u, r)]) = r := by
  simp [lastRet]

/-- A callback that fails ends the traversal. -/
theorem Traverses.visits_failed (h : Traverses heap threads runp calls (u :: rest))
    {r : BitVec 32} (hr : r.slt 0 = true) : Visits threads (calls ++ [(u, r)]) r := by
  refine ⟨⟨rest, ?_⟩, ?_, (lastRet_concat calls u r).symm, .inr hr⟩
  · rw [List.map_append, List.append_assoc]
    exact h.1
  · rw [List.dropLast_concat]
    exact h.2.2

/-- After a callback that does not fail the traversal goes on behind its thread. -/
theorem Traverses.goesOn (h : Traverses heap threads (.link u) calls (u :: rest))
    {r : BitVec 32} (hr : r.slt 0 = false) :
    Traverses heap threads (heap (.link u)).next (calls ++ [(u, r)]) rest := by
  obtain ⟨hl, hseg, hgood⟩ := h
  obtain ⟨-, b, hb, hrest⟩ := Seg.cons_iff.mp hseg
  cases hb
  refine ⟨?_, hrest, ?_⟩
  · rw [List.map_append, List.append_assoc]
    exact hl
  · intro x hx
    rcases List.mem_append.mp hx with hx | hx
    · exact hgood x hx
    · rw [List.mem_singleton.mp hx]
      exact hr

/-! ### The atomic object -/

variable [DecidableEq T]

instance (threads : List T) (calls : List (T × BitVec 32)) (ret : BitVec 32) :
    Decidable (Visits threads calls ret) := instDecidableAnd

instance (threads : List T) (calls : List (T × BitVec 32)) (last : Option T) :
    Decidable (Stops threads calls last) := instDecidableAnd

omit [DecidableEq T] in
/-- A thread comes into the sequence at its end. -/
theorem nodup_concat {l : List T} (h : l.Nodup) (ht : t ∉ l) : (l ++ [t]).Nodup :=
  List.nodup_append.mpr ⟨h, List.nodup_singleton t, by
    rintro x hx y hy rfl
    exact ht (List.mem_singleton.mp hy ▸ hx)⟩

/-- The thread `t` enters with the next id. -/
def Threads.enter (a : Threads T) (t : T) (ht : t ∉ a.threads) : Threads T where
  threads := a.threads ++ [t]
  nodup := nodup_concat a.nodup ht
  id := Function.update a.id t ((a.counter + 1) &&& PTHREAD_ID_MASK)
  counter := a.counter + 1

/-- The thread `t` leaves. -/
def Threads.leave (a : Threads T) (t : T) : Threads T :=
  { a with threads := a.threads.erase t, nodup := a.nodup.erase t }

/-- Only the main thread is there. -/
def Threads.alone (main : T) (id : T → BitVec 32) : Threads T where
  threads := [main]
  nodup := List.nodup_singleton main
  id := Function.update id main 1
  counter := 1

/-- The running threads, with each operation in one step. -/
def runningThreads (T : Type u) [DecidableEq T] : Object T (Threads T) Call (Result T) where
  init a := ∃ main id, a = .alone main id
  apply t o r a :=
    match o, r with
    | .threadEntry, .entered id =>
        if ht : t ∈ a.threads then none
        else if id = (a.counter + 1) &&& PTHREAD_ID_MASK then some (a.enter t ht) else none
    | .cleanup, .left => if t ∈ a.threads then some (a.leave t) else none
    | .foreach, .visited calls ret => if Visits a.threads calls ret then some a else none
    | .foreach, .cancelled calls last => if Stops a.threads calls last then some a else none
    | .fork, .forked threads => if threads = some a.threads then some a else none
    | _, _ => none

/-- What the accesses of the thread `t` have done to the data `d`, which stood for `a`, when it
gets to a place in the code of `o`. -/
def Reached (t : T) (o : Call) (a : Threads T) (d d' : Data T) : Body T → Prop
  | .addTail => o = .threadEntry ∧ d' = d
  | .addNextPrev prev => o = .threadEntry ∧ prev = (d.heap .head).prev ∧ d' = d
  | .addNodeNext prev => o = .threadEntry ∧ prev = (d.heap .head).prev ∧
      d' = { d with heap := d.heap.setPrev .head (.link t) }
  | .addPrevNext prev => o = .threadEntry ∧ prev = (d.heap .head).prev ∧
      d' = { d with heap := (d.heap.setPrev .head (.link t)).setNext (.link t) .head }
  | .addNodePrev prev => o = .threadEntry ∧ prev = (d.heap .head).prev ∧
      d' = { d with
        heap := ((d.heap.setPrev .head (.link t)).setNext (.link t) .head).setNext prev (.link t) }
  | .count => o = .threadEntry ∧
      d' = { d with heap := hurdListAddTail d.heap .head (.link t) }
  | .setId counter => o = .threadEntry ∧ counter = d.counter + 1 ∧
      d' = { d with heap := hurdListAddTail d.heap .head (.link t), counter := counter }
  | .delNext => o = .cleanup ∧ d' = d
  | .delPrev => o = .cleanup ∧
      d' = { d with heap := d.heap.setNext (d.heap (.link t)).prev (d.heap (.link t)).next }
  | .eachFirst => o = .foreach ∧ d' = d
  | .eachTest runp calls =>
      o = .foreach ∧ d' = d ∧ ∃ rest, Traverses d.heap a.threads runp calls rest
  | .callback u calls =>
      o = .foreach ∧ d' = d ∧ ∃ rest, Traverses d.heap a.threads (.link u) calls (u :: rest)
  | .eachNext u calls => o = .foreach ∧ d' = d ∧
      ∃ rest, Traverses d.heap a.threads (d.heap (.link u)).next calls rest
  | .fork => o = .fork ∧ d' = d
  | .done r => ∃ a', (runningThreads T).apply t o r a = some a' ∧ Stands d' a'

/-! ### The code of one thread alone -/

/-- The thread `t` entered the list. -/
theorem Stands.enter (h : Stands d a) (ht : t ∉ a.threads) :
    Stands ⟨hurdListAddTail d.heap .head (.link t),
      Function.update d.id t ((d.counter + 1) &&& PTHREAD_ID_MASK), d.counter + 1⟩
      (a.enter t ht) where
  list := by
    show IsList _ _ ((a.threads ++ [t]).map Addr.link)
    rw [List.map_append]
    exact isList_addTail h.list (link_notMem ht)
  id := by
    rw [h.id, h.counter]
    rfl
  counter := congrArg (· + 1) h.counter

/-- The thread `t` left the list. -/
theorem Stands.leave (h : Stands d a) (ht : t ∈ a.threads) :
    Stands { d with heap := hurdListDel d.heap (.link t) } (a.leave t) where
  list := by
    show IsList _ _ ((a.threads.erase t).map Addr.link)
    rw [List.map_erase link_injective]
    exact isList_del h.list (List.mem_map_of_mem ht)
  id := h.id
  counter := h.counter

/-- A traversal that returns changes nothing. -/
theorem apply_visited {ret : BitVec 32} (h : Visits a.threads calls ret) :
    (runningThreads T).apply t .foreach (.visited calls ret) a = some a := if_pos h

/-- A traversal that is cancelled changes nothing. -/
theorem apply_cancelled {last : Option T} (h : Stops a.threads calls last) :
    (runningThreads T).apply t .foreach (.cancelled calls last) a = some a := if_pos h

/-- The threads in the sequence are those that are running, after an operation as well. -/
theorem knows_of_apply {a' : Threads T} {r : Result T} {life : Life} (hlife : Knows u life a)
    (h : (runningThreads T).apply t o r a = some a') :
    Knows u (if u = t then after life o else life) a' := by
  have hsame : a' = a → after life o = life →
      Knows u (if u = t then after life o else life) a' := by
    rintro rfl hafter
    rw [hafter, ite_self]
    exact hlife
  cases o with
  | threadEntry =>
      cases r with
      | entered id =>
          simp only [runningThreads] at h
          split at h
          · cases h
          · split at h <;> cases h
            by_cases hu : u = t
            · simp [Knows, Threads.enter, after, hu]
            · simpa [Knows, Threads.enter, hu] using hlife
      | _ => cases h
  | cleanup =>
      cases r with
      | left =>
          simp only [runningThreads] at h
          split at h <;> cases h
          by_cases hu : u = t
          · simp [Knows, Threads.leave, after, hu, a.nodup.mem_erase_iff]
          · simpa [Knows, Threads.leave, hu, List.mem_erase_of_ne] using hlife
      | _ => cases h
  -- A traversal and a fork change nothing in the life of a thread.
  | foreach =>
      refine hsame ?_ rfl
      cases r with
      | visited calls ret =>
          simp only [runningThreads] at h
          split at h <;> cases h
          rfl
      | cancelled calls last =>
          simp only [runningThreads] at h
          split at h <;> cases h
          rfl
      | _ => cases h
  | fork =>
      refine hsame ?_ rfl
      cases r with
      | forked threads =>
          simp only [runningThreads] at h
          split at h <;> cases h
          rfl
      | _ => cases h

/-- The threads that may run the code know that the list is ready for it. -/
theorem reached_of_start {life : Life} {p : Body T} (hlife : Knows t life a)
    (h : start t life o = some p) : Reached t o a d d p ∧
      (o = .threadEntry → t ∉ a.threads) ∧ (o = .cleanup → t ∈ a.threads) := by
  have hrunning : life = .running → t ∈ a.threads := hlife.mp
  have hother : life ≠ .running → t ∉ a.threads := fun hne hin => hne (hlife.mpr hin)
  cases o with
  | threadEntry =>
      cases life with
      | unborn =>
          cases h
          exact ⟨⟨rfl, rfl⟩, fun _ => hother (by decide), fun ho => by cases ho⟩
      | running => cases h
      | exiting => cases h
  | cleanup =>
      cases life with
      | unborn => cases h
      | running =>
          cases h
          exact ⟨⟨rfl, rfl⟩, (fun ho => by cases ho), fun _ => hrunning rfl⟩
      | exiting => cases h
  | foreach =>
      have hp : p = .eachFirst := by
        cases life <;> cases h <;> rfl
      subst hp
      exact ⟨⟨rfl, rfl⟩, (fun ho => by cases ho), fun ho => by cases ho⟩
  | fork =>
      have hp : p = .fork := by
        cases life <;> cases h <;> rfl
      subst hp
      exact ⟨⟨rfl, rfl⟩, (fun ho => by cases ho), fun ho => by cases ho⟩

variable [Fintype T]

/-- A traversal of the links finds the threads. -/
theorem Stands.found (h : Stands d a) : found d.heap = some a.threads := by
  have hlen : (a.threads.map Addr.link).length < Fintype.card T + 1 := by
    rw [List.length_map]
    exact Nat.lt_succ_of_le a.nodup.length_le_card
  rw [Running.found, hurdListEach_eq h.list hlen, Option.map_some, List.filterMap_map]
  exact congrArg some (List.filterMap_some)

/-- An access of `t` in its code. -/
theorem reached_of_access {p p' : Body T} (hd : Stands d a)
    (henter : o = .threadEntry → t ∉ a.threads) (hleave : o = .cleanup → t ∈ a.threads)
    (h : Reached t o a d d' p) (he : access t c d' p = some (d'', p')) :
    Reached t o a d d'' p' := by
  cases p with
  -- The insertion, store by store. The list is not whole in between.
  | addTail =>
      obtain ⟨ho, rfl⟩ := h
      cases he
      exact ⟨ho, rfl, rfl⟩
  | addNextPrev prev =>
      obtain ⟨ho, hprev, rfl⟩ := h
      cases he
      exact ⟨ho, hprev, rfl⟩
  | addNodeNext prev =>
      obtain ⟨ho, hprev, rfl⟩ := h
      cases he
      exact ⟨ho, hprev, rfl⟩
  | addPrevNext prev =>
      obtain ⟨ho, hprev, rfl⟩ := h
      cases he
      exact ⟨ho, hprev, rfl⟩
  | addNodePrev prev =>
      obtain ⟨ho, rfl, rfl⟩ := h
      cases he
      exact ⟨ho, rfl⟩
  | count =>
      obtain ⟨ho, rfl⟩ := h
      cases he
      exact ⟨ho, rfl, rfl⟩
  | setId counter =>
      obtain ⟨rfl, rfl, rfl⟩ := h
      cases he
      -- The last access of the entry: the thread is in the sequence from here on.
      have hid : (d.counter + 1) &&& PTHREAD_ID_MASK = (a.counter + 1) &&& PTHREAD_ID_MASK := by
        rw [hd.counter]
      exact ⟨_, (dif_neg (henter rfl)).trans (if_pos hid), hd.enter (henter rfl)⟩
  -- The removal has two stores. The second one makes the list whole again.
  | delNext =>
      obtain ⟨ho, rfl⟩ := h
      cases he
      exact ⟨ho, rfl⟩
  | delPrev =>
      obtain ⟨rfl, rfl⟩ := h
      cases he
      exact ⟨_, if_pos (hleave rfl), hd.leave (hleave rfl)⟩
  | eachFirst =>
      obtain ⟨rfl, rfl⟩ := h
      simp only [access] at he
      split at he
      · -- Cancelled before the first callback.
        cases he
        exact ⟨a, apply_cancelled hd.traverses.stops, hd⟩
      · cases he
        exact ⟨rfl, rfl, _, hd.traverses⟩
  | eachTest runp calls =>
      obtain ⟨rfl, rfl, rest, htr⟩ := h
      simp only [access] at he
      split at he
      · cases he
        exact ⟨a, apply_cancelled htr.stops, hd⟩
      · split at he <;> cases he
        · exact ⟨a, apply_visited htr.visits, hd⟩
        · exact ⟨rfl, rfl, htr.next⟩
  | callback u calls =>
      obtain ⟨rfl, rfl, rest, htr⟩ := h
      simp only [access] at he
      split at he
      · -- The thread is cancelled in its callback, or exits there.
        cases he
        exact ⟨a, apply_cancelled htr.stops_callback, hd⟩
      · cases he
        cases hr : c.ret.slt 0 with
        | true => exact ⟨a, apply_visited (htr.visits_failed hr), hd⟩
        | false => exact ⟨rfl, rfl, rest, htr.goesOn hr⟩
  | eachNext u calls =>
      obtain ⟨rfl, rfl, rest, htr⟩ := h
      simp only [access] at he
      split at he <;> cases he
      · exact ⟨a, apply_cancelled htr.stops, hd⟩
      · exact ⟨rfl, rfl, rest, htr⟩
  | fork =>
      obtain ⟨rfl, rfl⟩ := h
      cases he
      exact ⟨a, if_pos hd.found, hd⟩
  | done r => cases he

/-- Where the code of `t` gets to on data that stand for `a`. -/
theorem reached_of_runs {life : Life} {p p' : Body T} (hd : Stands d a) (hlife : Knows t life a)
    (hstart : start t life o = some p) (h : guarded.Runs t (d, p) (d', p')) :
    Reached t o a d d' p' := by
  obtain ⟨hfirst, henter, hleave⟩ := reached_of_start hlife hstart
  exact h.invariant (P := Reached t o a d)
    (fun c d₁ p₁ d₂ p₂ h₁ he => reached_of_access hd henter hleave h₁ he) hfirst

/-- The code does what the atomic object says. -/
theorem meets : guarded.Meets (runningThreads T) Stands Knows where
  alone := by
    intro t life o p d a d' p' r hd hlife hstart hruns hr
    have hreached := reached_of_runs hd hlife hstart hruns
    have hp : p' = .done r := by
      cases p' with
      | done r' => exact congrArg _ (Option.some.inj hr)
      | _ => cases hr
    subst hp
    obtain ⟨a', happly, hd'⟩ := hreached
    have hlife' := knows_of_apply hlife happly
    rw [if_pos rfl] at hlife'
    exact ⟨a', happly, hd', hlife'⟩
  others := by
    intro t o r a a' u life hu happly hlife
    have hlife' := knows_of_apply hlife happly
    rwa [if_neg hu] at hlife'

/-! ### All threads -/

/-- The state of the machine of all threads. -/
abbrev State (T : Type u) :=
  Global T (Guarded.Mem T (Data T)) (Guarded.Local Life Call (Body T) (Result T))

omit [Fintype T] in
/-- The list and the life of every thread as `__pthread_initialize` leaves them. -/
theorem exists_of_isStart {life : T → Life} (h : IsStart d life) :
    ∃ a, (runningThreads T).init a ∧ Stands d a ∧ ∀ t, Knows t (life t) a := by
  obtain ⟨main, d₀, rfl, rfl⟩ := h
  have hmain : Addr.link main ∉ [Addr.head] := by simp
  refine ⟨.alone main d₀.id, ⟨main, d₀.id, rfl⟩, ⟨?_, rfl, rfl⟩, ?_⟩
  · exact isList_addHead (isList_init d₀.heap .head) hmain
  · intro t
    by_cases ht : t = main
    · simp [Knows, Threads.alone, ht]
    · simp [Knows, Threads.alone, ht]

/-- The threads that run the guarded code. -/
def machine : Machine (State T) (T × Guarded.Choice T Env Call) :=
  (Guarded.exec guarded).machine (Guarded.IsInit IsStart)

/-- Every history of threads that enter the list, leave it, traverse it and fork is one of the
sequence of the running threads, whatever the order of the accesses to the links and to the
lock. -/
theorem running_linearizable {H : List (T × Event Call (Result T))} {s : State T}
    (h : (Guarded.exec guarded).History (Guarded.IsInit IsStart) (fun _ _ => True)
      Guarded.label H s) : (runningThreads T).Linearizable H :=
  Guarded.guarded_linearizable meets (fun _ _ => exists_of_isStart) h

/-- The main thread, and one that has not entered the list. -/
def startTwo : State (Fin 2) where
  mem := ⟨⟨0, ∅⟩, pthreadInitialize 0 ⟨fun x => ⟨x, x⟩, fun _ => 0, 0⟩⟩
  loc t := ⟨⟨.idle, false⟩, Function.update (fun _ => Life.unborn) 0 .running t, .out⟩

theorem startTwo_isInit : Guarded.IsInit IsStart startTwo :=
  ⟨rfl, ⟨0, _, rfl, rfl⟩, fun _ => ⟨rfl, rfl⟩⟩

/-- Steps of one thread. -/
def steps (t : Fin 2) (o : Call) (n : ℕ) : List (Fin 2 × Guarded.Choice (Fin 2) Env Call) :=
  List.replicate n (t, { op := o, env := {} })

/-- The thread 1 enters the list. The main thread traverses it, and the thread 1 calls
`__pthread_cleanup` meanwhile. The main thread gets to the callback for the thread 1. -/
def visitBoth : List (Fin 2 × Guarded.Choice (Fin 2) Env Call) :=
  steps 1 .threadEntry 16 ++ steps 0 .foreach 8 ++ steps 1 .cleanup 5 ++ steps 0 .foreach 2

/-- The traversal visits both threads, although the thread 1 is about to leave. -/
theorem running_linearizable_visited : (runningThreads (Fin 2)).Linearizable
    [(1, .inv .threadEntry), (1, .res (.entered 2)), (0, .inv .foreach), (1, .inv .cleanup),
      (0, .res (.visited [(0, 0), (1, 0)] 0)), (1, .res .left)] := by
  have hrun : ∃ s, (Guarded.exec (T := Fin 2) guarded).History (Guarded.IsInit IsStart)
      (fun _ _ => True) Guarded.label
      [(1, .inv .threadEntry), (1, .res (.entered 2)), (0, .inv .foreach), (1, .inv .cleanup),
        (0, .res (.visited [(0, 0), (1, 0)] 0)), (1, .res .left)] s :=
    Exec.exists_history_run startTwo_isInit
      (visitBoth ++ steps 0 .foreach 6 ++
        [(0, { op := .foreach, env := {}, lock := { pick := some 1 } })] ++ steps 0 .foreach 1 ++
        steps 1 .cleanup 10) (by decide)
  obtain ⟨s, hs⟩ := hrun
  exact running_linearizable hs

/-- While a callback for the thread `u` runs, `u` has not left the list. The list is whole, it
has all running threads and no others, each once, and the callbacks so far were for the
first of them. -/
theorem callback_running {s : State T} (h : machine.Reach s) {t u : T}
    {calls : List (T × BitVec 32)}
    (ht : (s.loc t).stage = .inside .foreach (.callback u calls)) :
    (s.loc u).client = .running ∧ ∃ threads : List T,
      IsList s.mem.data.heap .head (threads.map .link) ∧ threads.Nodup ∧
      (∀ v, v ∈ threads ↔ (s.loc v).client = .running) ∧
      calls.map Prod.fst ++ [u] <+: threads := by
  -- The data are what the code of `t` has made of a whole list since it took the lock.
  obtain ⟨a, ha⟩ := Guarded.exists_agrees meets (fun _ _ => exists_of_isStart) h
  obtain ⟨d, p₀, hd, hstart, hruns⟩ := ha.inside t _ _ ht
  obtain ⟨-, hdata, rest, htr⟩ := reached_of_runs hd (ha.knows t) hstart hruns
  have hu : u ∈ a.threads := by
    rw [← htr.1]
    simp
  refine ⟨(ha.knows u).mpr hu, a.threads, ?_, a.nodup, fun v => (ha.knows v).symm, rest, ?_⟩
  · rw [hdata]
    exact hd.list
  · rw [List.append_assoc]
    exact htr.1

/-- The thread 1 waits for the lock to leave the list while its callback runs, and is in it. -/
theorem callback_running_leaving : ∃ s : State (Fin 2), machine.Reach s ∧
    (s.loc 0).stage = .inside .foreach (.callback 1 [(0, 0)]) ∧
    (s.loc 1).stage = .taking .cleanup .delNext ∧ (s.loc 1).client = .running := by
  obtain ⟨s, hs, hcall, hstage⟩ := (machine (T := Fin 2)).exists_reach startTwo_isInit visitBoth
    (fun s => (s.loc 0).stage = .inside .foreach (.callback 1 [(0, 0)]) ∧
      (s.loc 1).stage = .taking .cleanup .delNext) (by decide)
  exact ⟨s, hs, hcall, hstage, (callback_running hs hcall).1⟩

end Hlpt.Running
