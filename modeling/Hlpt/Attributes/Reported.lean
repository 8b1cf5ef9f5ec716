import Hlpt.Attributes.Model
import Hlpt.Create.Created

/-!
# `Hlpt.Attributes.Reported`: from the setters to the attributes of a thread

An attribute object encodes `Settings`: the independent values that the setters leave, with
the bounds that they enforce. `call_encode` says that a call on the object is one on the
settings, and `calls_encode` that a program of calls is.

A creation rounds the sizes, places the descriptor and stores what is left in its fields.
`pthread_getattr_np` computes the attributes back from these.

* `getattr_of_create`: whatever was called on the attribute object, a thread that was created
  with it has the detach state and the stack that were asked for.
-/

set_option autoImplicit false

namespace Hlpt.Attributes

open Hlpt.Create

/-- What the setters leave: the end of the stack of the program or 0, the sizes, whether the
thread is detached, and the priority. -/
structure Settings (E : Env) where
  stackEnd : Addr
  size : BitVec 32
  size_min : PTHREAD_STACK_MIN ≤ size
  guard : BitVec 32
  guard_min : guard = 0 ∨ E.vmPageSize ≤ guard
  detached : Bool
  priority : BitVec 32

namespace Settings

variable {E : Env}

/-- The flag of a detach state. -/
def detachFlag (detached : Bool) : BitVec 32 :=
  if detached then PTHREAD_CREATE_DETACHED else PTHREAD_CREATE_JOINABLE

/-- The attribute object with the settings. -/
def encode (S : Settings E) : PthreadAttr where
  stack := S.stackEnd
  stacksize := S.size
  guardsize := S.guard
  flags := detachFlag S.detached ||| PTHREAD_INHERIT_SCHED
  sched := ⟨SCHED_OTHER, S.priority⟩

/-- A setter changes its own setting, and only to a value that it accepts. -/
def set (S : Settings E) : Call → Settings E
  | .setstackaddr stack => { S with stackEnd := stack }
  | .setstacksize size =>
      if h : PTHREAD_STACK_MIN ≤ size then { S with size := size, size_min := h } else S
  | .setstack stack size =>
      if h : PTHREAD_STACK_MIN ≤ size then
        { S with stackEnd := stack + size, size := size, size_min := h }
      else S
  | .setdetachstate state =>
      if state = PTHREAD_CREATE_DETACHED then { S with detached := true }
      else if state = PTHREAD_CREATE_JOINABLE then { S with detached := false }
      else S
  | .setguardsize size =>
      if h : E.vmPageSize ≤ size then { S with guard := size, guard_min := .inr h } else S
  | .setschedparam priority => { S with priority := priority }
  | .setscope _ | .setinheritsched _ | .setschedpolicy _ => S

/-- The default stack is not smaller than the smallest one. -/
theorem dflAttr_size_min (infinity : BitVec 32) (lim : Option (BitVec 32)) :
    PTHREAD_STACK_MIN ≤ (dflAttr infinity lim).stacksize := by
  cases lim with
  | none =>
      show PTHREAD_STACK_MIN ≤ 2 * 1024 * 1024
      decide
  | some cur =>
      show PTHREAD_STACK_MIN ≤ if cur = infinity then 2 * 1024 * 1024
        else if cur < PTHREAD_STACK_MIN then PTHREAD_STACK_MIN else cur
      split
      · decide
      · split
        · exact BitVec.le_refl _
        · next hmin => exact BitVec.not_lt.mp hmin

/-- The settings of the default attributes. -/
def default (E : Env) (infinity : BitVec 32) (lim : Option (BitVec 32)) : Settings E where
  stackEnd := 0
  size := (dflAttr infinity lim).stacksize
  size_min := dflAttr_size_min infinity lim
  guard := 0
  guard_min := .inl rfl
  detached := false
  priority := 0

end Settings

variable {E : Env} {S : Settings E} {attr : PthreadAttr} {pt : Addr}

/-- The default attributes are the default settings. -/
theorem encode_default (E : Env) (infinity : BitVec 32) (lim : Option (BitVec 32)) :
    (Settings.default E infinity lim).encode = dflAttr infinity lim := rfl

/-- The flag of the detach state is replaced, and the other one stays. -/
theorem detachFlag_replace (b b' : Bool) :
    Settings.detachFlag b' ||| ((Settings.detachFlag b ||| PTHREAD_INHERIT_SCHED) &&&
      ~~~(PTHREAD_CREATE_DETACHED ||| PTHREAD_CREATE_JOINABLE)) =
        Settings.detachFlag b' ||| PTHREAD_INHERIT_SCHED := by
  cases b <;> cases b' <;> decide

theorem setdetachstate_encode (S : Settings E) (state : BitVec 32) :
    (pthreadAttrSetdetachstate S.encode state).2 = (S.set (.setdetachstate state)).encode := by
  by_cases hd : state = PTHREAD_CREATE_DETACHED
  · subst hd
    exact congrArg (fun flags => { S.encode with flags := flags })
      (detachFlag_replace S.detached true)
  · by_cases hj : state = PTHREAD_CREATE_JOINABLE
    · subst hj
      exact congrArg (fun flags => { S.encode with flags := flags })
        (detachFlag_replace S.detached false)
    · rw [pthreadAttrSetdetachstate, if_pos ⟨hj, hd⟩, Settings.set, if_neg hd, if_neg hj]

/-- A call on the object is one on the settings. -/
theorem call_encode (S : Settings E) (c : Call) : (call E S.encode c).2 = (S.set c).encode := by
  cases c with
  -- These three refuse a value that is too small, and change nothing then.
  | setstacksize size =>
      show (pthreadAttrSetstacksize S.encode size).2 = _
      unfold pthreadAttrSetstacksize Create.pthreadAttrSetstacksize Settings.set
      by_cases h : PTHREAD_STACK_MIN ≤ size
      · simp only [dif_pos h, if_neg (BitVec.not_lt.mpr h)]
        rfl
      · simp only [dif_neg h, if_pos (BitVec.not_le.mp h)]
  | setstack stack size =>
      show (pthreadAttrSetstack S.encode stack size).2 = _
      unfold pthreadAttrSetstack Settings.set
      by_cases h : PTHREAD_STACK_MIN ≤ size
      · simp only [dif_pos h, if_neg (BitVec.not_lt.mpr h)]
        rfl
      · simp only [dif_neg h, if_pos (BitVec.not_le.mp h)]
  | setguardsize size =>
      show (pthreadAttrSetguardsize E S.encode size).2 = _
      unfold pthreadAttrSetguardsize Create.pthreadAttrSetguardsize Settings.set
      by_cases h : E.vmPageSize ≤ size
      · simp only [dif_pos h, if_neg (BitVec.not_lt.mpr h)]
        rfl
      · simp only [dif_neg h, if_pos (BitVec.not_le.mp h)]
  | setdetachstate state => exact setdetachstate_encode S state
  -- The others take any value, or have nothing to change.
  | _ => rfl

/-- A program of calls on the object is one on the settings. -/
theorem calls_encode (S : Settings E) (cs : List Call) :
    calls E S.encode cs = (cs.foldl Settings.set S).encode := by
  induction cs generalizing S with
  | nil => rfl
  | cons c cs ih =>
      show calls E (call E S.encode c).2 cs = _
      rw [call_encode]
      exact ih (S.set c)

/-! ### The thread -/

/-- What `pthread_getattr_np` reports of a thread that was created with the attributes `a`, and
with the mapping from `K` when the stack is one of the library. -/
structure Reported (E : Env) (K : Answers) (dfl a b : PthreadAttr) : Prop where
  detachstate : pthreadAttrGetdetachstate b = pthreadAttrGetdetachstate a
  inheritsched : pthreadAttrGetinheritsched b = pthreadAttrGetinheritsched a
  schedpolicy : pthreadAttrGetschedpolicy b = pthreadAttrGetschedpolicy a
  /-- The priority of the attributes is not taken over. -/
  schedparam : pthreadAttrGetschedparam b = pthreadAttrGetschedparam dfl
  /-- No attribute object has a flag for its scope. -/
  scope : pthreadAttrGetscope b = PTHREAD_SCOPE_SYSTEM ∧ pthreadAttrGetscope a = 0
  /-- A stack of the program is reported as it was set. -/
  program : a.stack ≠ 0 →
    pthreadAttrGetstack b = pthreadAttrGetstack a ∧
      pthreadAttrGetstackaddr b = pthreadAttrGetstackaddr a ∧
      pthreadAttrGetstacksize E b = pthreadAttrGetstacksize E a ∧
      pthreadAttrGetguardsize b = pthreadAttrGetguardsize a
  /-- A stack of the library has at least the sizes that were set. It is the mapping without
  the guard area. -/
  library : ∀ base, a.stack = 0 → K.vmMap = some base → Create.Fits E a.toAttr →
    base.toNat + (a.toAttr.mapSize E).toNat ≤ 2 ^ 32 →
      (pthreadAttrGetstacksize E a).toNat ≤ (pthreadAttrGetstacksize E b).toNat ∧
        (pthreadAttrGetguardsize a).toNat ≤ (pthreadAttrGetguardsize b).toNat ∧
        (pthreadAttrGetstack b).1.toNat = base.toNat + (pthreadAttrGetguardsize b).toNat ∧
        (pthreadAttrGetstack b).1.toNat + (pthreadAttrGetstack b).2.toNat =
          base.toNat + (a.toAttr.mapSize E).toNat

/-- The detach flag is read back from `joinpt`. -/
theorem detachedP_eq {d : Desc} (hpt : pt ≠ 0)
    (hjoin : d.joinpt = if S.encode.flags &&& PTHREAD_CREATE_DETACHED ≠ 0 then pt else 0) :
    detachedP pt d = S.detached := by
  unfold detachedP
  rw [hjoin]
  cases hd : S.detached with
  | true =>
      have hflag : S.encode.flags &&& PTHREAD_CREATE_DETACHED ≠ 0 := by
        show (Settings.detachFlag S.detached ||| PTHREAD_INHERIT_SCHED) &&& _ ≠ 0
        rw [hd]
        decide
      rw [if_pos hflag]
      exact beq_self_eq_true pt
  | false =>
      have hflag : S.encode.flags &&& PTHREAD_CREATE_DETACHED = 0 := by
        show (Settings.detachFlag S.detached ||| PTHREAD_INHERIT_SCHED) &&& _ = 0
        rw [hd]
        decide
      rw [if_neg (not_not.mpr hflag)]
      exact beq_eq_false_iff_ne.mpr hpt.symm

/-- What `pthread_getattr_np` stores for a thread with the settings. -/
theorem getattr_eq {d : Desc} (dfl : PthreadAttr) (hpt : pt ≠ 0) (hid : d.id ≠ 0)
    (hjoin : d.joinpt = if S.encode.flags &&& PTHREAD_CREATE_DETACHED ≠ 0 then pt else 0) :
    pthreadGetattrNp dfl pt d attr = (.code .ok,
      { stack := d.stack + d.stacksize
        stacksize := d.stacksize
        guardsize := d.guardsize
        flags := Settings.detachFlag S.detached |||
          (PTHREAD_SCOPE_SYSTEM ||| PTHREAD_INHERIT_SCHED)
        sched := dfl.sched }) := by
  have hvalid : invalidP pt d = false := by
    rw [invalidP, beq_eq_false_iff_ne.mpr hpt, beq_eq_false_iff_ne.mpr hid]
    rfl
  rw [pthreadGetattrNp, hvalid, detachedP_eq hpt hjoin]
  rfl

/-- The flags that are reported, beside those of the attributes. -/
theorem flags_reported (b : Bool) :
    let reported := Settings.detachFlag b ||| (PTHREAD_SCOPE_SYSTEM ||| PTHREAD_INHERIT_SCHED)
    let asked := Settings.detachFlag b ||| PTHREAD_INHERIT_SCHED
    let detach := PTHREAD_CREATE_DETACHED ||| PTHREAD_CREATE_JOINABLE
    let inherit := PTHREAD_INHERIT_SCHED ||| PTHREAD_EXPLICIT_SCHED
    let scope := PTHREAD_SCOPE_PROCESS ||| PTHREAD_SCOPE_SYSTEM
    reported &&& detach = asked &&& detach ∧ reported &&& inherit = asked &&& inherit ∧
      reported &&& scope = PTHREAD_SCOPE_SYSTEM ∧ asked &&& scope = 0 := by
  cases b <;> decide

/-- No setter leaves a stack size of 0. -/
theorem size_ne (S : Settings E) : S.size ≠ 0 := by
  intro h0
  have hmin := BitVec.le_def.mp S.size_min
  rw [h0] at hmin
  exact absurd hmin (by decide)

/-- So the default size is not used. -/
theorem size_encode (S : Settings E) : S.encode.size E = S.size := if_pos (size_ne S)

/-- The setters accept the sizes that they have left. -/
theorem accepted_encode (hstack : S.stackEnd = 0) : Accepted E S.encode.toAttr := by
  constructor
  · exact hstack
  · show (Create.pthreadAttrSetstacksize S.encode.toAttr S.size).1 = .ok
    rw [Create.pthreadAttrSetstacksize, if_neg (BitVec.not_lt.mpr S.size_min)]
  · show S.guard = 0 ∨ (Create.pthreadAttrSetguardsize E S.encode.toAttr S.guard).1 = .ok
    refine S.guard_min.imp_right fun hguard => ?_
    rw [Create.pthreadAttrSetguardsize, if_neg (BitVec.not_lt.mpr hguard)]

/-- The stack of the library, as the descriptor has it. -/
theorem stack_library {base : Addr} {a : Attr} (ha : Accepted E a) (hfits : Create.Fits E a)
    (hmap : base.toNat + (a.mapSize E).toNat ≤ 2 ^ 32) :
    (base + a.mapSize E - roundupPage E (a.size E)).toNat = base.toNat + (a.guard E).toNat ∧
      (a.mapSize E).toNat = (roundupPage E (a.size E)).toNat + (a.guard E).toNat := by
  have hsize : (roundupPage E (a.size E)).toNat = E.ceilPage a.stacksize.toNat := by
    rw [ha.size.2]
    exact roundupPage_toNat hfits.stacksize
  have hguard := guard_toNat hfits.guardsize
  have htotal := hfits.mapSize ha
  have hmin : 16384 ≤ a.stacksize.toNat := ha.size.1
  have hceil := le_ceilPage E a.stacksize.toNat
  constructor
  · rw [BitVec.toNat_sub, BitVec.toNat_add, hsize, hguard]
    omega
  · rw [htotal, hsize, hguard]

/-- The stack that is reported is the one of the descriptor. -/
theorem getstack_reported (b : PthreadAttr) {stack : Addr} (hb : b.stack = stack + b.stacksize) :
    pthreadAttrGetstack b = (stack, b.stacksize) := by
  rw [pthreadAttrGetstack, hb]
  exact congrArg (·, b.stacksize) (BitVec.add_sub_cancel _ _)

/-- A stack of the program is reported as it was set. -/
theorem reported_program {b : PthreadAttr}
    (hb : b.stack = S.stackEnd - S.encode.size E + b.stacksize)
    (hsize : b.stacksize = S.encode.size E) (hguard : b.guardsize = S.guard) :
    pthreadAttrGetstack b = pthreadAttrGetstack S.encode ∧
      pthreadAttrGetstackaddr b = pthreadAttrGetstackaddr S.encode ∧
      pthreadAttrGetstacksize E b = pthreadAttrGetstacksize E S.encode ∧
      pthreadAttrGetguardsize b = pthreadAttrGetguardsize S.encode := by
  have hne := size_ne S
  rw [size_encode] at hb hsize
  refine ⟨?_, ?_, ?_, hguard⟩
  · rw [getstack_reported b hb, hsize]
    rfl
  · show b.stack = S.stackEnd
    rw [hb, hsize]
    exact BitVec.sub_add_cancel _ _
  · show b.size E = S.encode.size E
    rw [size_encode, Attr.size, hsize, if_pos hne]

/-- A stack of the library is the mapping without the guard area. -/
theorem reported_library {b : PthreadAttr} {base : Addr} (hstack : S.stackEnd = 0)
    (hfits : Create.Fits E S.encode.toAttr)
    (hmap : base.toNat + (S.encode.mapSize E).toNat ≤ 2 ^ 32)
    (hb : b.stack = base + S.encode.mapSize E - roundupPage E (S.encode.size E) + b.stacksize)
    (hsize : b.stacksize = roundupPage E (S.encode.size E))
    (hguard : b.guardsize = S.encode.guard E) :
    (pthreadAttrGetstacksize E S.encode).toNat ≤ (pthreadAttrGetstacksize E b).toNat ∧
      (pthreadAttrGetguardsize S.encode).toNat ≤ (pthreadAttrGetguardsize b).toNat ∧
      (pthreadAttrGetstack b).1.toNat = base.toNat + (pthreadAttrGetguardsize b).toNat ∧
      (pthreadAttrGetstack b).1.toNat + (pthreadAttrGetstack b).2.toNat =
        base.toNat + (S.encode.mapSize E).toNat := by
  obtain ⟨hbottom, htotal⟩ := stack_library (accepted_encode hstack) hfits hmap
  have hround := le_ceilPage E S.size.toNat
  rw [← roundupPage_toNat (show S.size.toNat + E.page ≤ 2 ^ 32 from hfits.stacksize)] at hround
  rw [size_encode] at hb hsize hbottom htotal
  -- The getter would report the default size instead of a size of 0.
  have hne : b.stacksize ≠ 0 := by
    intro h0
    rw [← hsize, h0] at hround
    have hmin : PTHREAD_STACK_MIN.toNat ≤ S.size.toNat := BitVec.le_def.mp S.size_min
    exact absurd (Nat.le_trans hmin hround) (by decide)
  rw [getstack_reported b hb]
  refine ⟨?_, ?_, ?_, ?_⟩
  · show (S.encode.size E).toNat ≤ (b.size E).toNat
    rw [size_encode, Attr.size, if_pos hne, hsize]
    exact hround
  · show S.guard.toNat ≤ b.guardsize.toNat
    rw [hguard, guard_toNat hfits.guardsize]
    exact le_ceilPage E _
  · show _ = base.toNat + b.guardsize.toNat
    rw [hguard]
    exact hbottom
  · show _ + b.stacksize.toNat = _
    rw [hbottom, htotal, hsize]
    omega

/-- Whatever was called on an attribute object: a thread that was created with it, or without
one, is reported with what was set. It may have set its `id` already. -/
theorem getattr_of_create (E : Env) (K : Answers) (args : Args) (s s' : State)
    (infinity : BitVec 32) (lim : Option (BitVec 32)) (cs : List Call) (id : BitVec 32)
    (attr : PthreadAttr)
    (hattr : args.attrp.getD E.dflAttr = (calls E (dflAttr infinity lim) cs).toAttr)
    (hcreate : pthreadCreate E K args s = some (.ok, s')) (hptp : s'.ptp ≠ 0) (hid : id ≠ 0) :
    ∃ b, pthreadGetattrNp (dflAttr infinity lim) s'.ptp { s'.desc s'.ptp with id := id } attr =
        (.code .ok, b) ∧
      Reported E K (dflAttr infinity lim) (calls E (dflAttr infinity lim) cs) b := by
  have hcalls := calls_encode (Settings.default E infinity lim) cs
  rw [encode_default] at hcalls
  rw [hcalls] at hattr ⊢
  -- From here on only the settings matter, not the calls that made them.
  generalize cs.foldl Settings.set (Settings.default E infinity lim) = S at hattr ⊢
  obtain ⟨pt, s₁, ktid, hplaced, -, -, -, rfl⟩ := pthreadCreate_ok hcreate
  rw [hattr] at hplaced
  obtain ⟨hdetach, hinherit, hscope, hnone⟩ := flags_reported S.detached
  show ∃ b, pthreadGetattrNp _ pt { (created args pt ktid _ s₁).desc pt with id := id } attr =
    _ ∧ _
  rw [desc_created]
  -- Each kind of stack meets the half of `Reported` that is about it.
  cases hplaced with
  | @library base hstack hbase hguard hin =>
      rw [desc_library hin]
      refine ⟨_, getattr_eq _ hptp hid rfl, hdetach, hinherit, rfl, rfl, ⟨hscope, hnone⟩, ?_, ?_⟩
      · intro hprogram
        exact absurd hstack hprogram
      · intro base' _ hbase' hfits hmap
        obtain rfl := Option.some.inj (hbase.symm.trans hbase')
        exact reported_library hstack hfits hmap rfl rfl rfl
  | program hstack =>
      rw [desc_program]
      refine ⟨_, getattr_eq _ hptp hid rfl, hdetach, hinherit, rfl, rfl, ⟨hscope, hnone⟩, ?_, ?_⟩
      · intro _
        exact reported_program rfl rfl rfl
      · intro base hlibrary
        exact absurd hlibrary hstack

/-- A program that asks for a detached thread with a stack of 20000 bytes and a guard area. The
second call fails. -/
def detachedCalls : List Call :=
  [.setstacksize 20000, .setstacksize 1, .setguardsize 5000,
    .setdetachstate PTHREAD_CREATE_DETACHED]

/-- The thread that is created then. Its attributes are read back while it has no `id` yet. -/
theorem getattr_of_create_detached : ∃ s' b,
    pthreadCreate .pages .all
      ⟨some (calls .pages (dflAttr 0 none) detachedCalls).toAttr, 0, 0, none⟩ .fresh =
        some (.ok, s') ∧
      pthreadGetattrNp (dflAttr 0 none) s'.ptp
        { s'.desc s'.ptp with id := PTHREAD_INVALID_ID } (dflAttr 0 none) = (.code .ok, b) ∧
      Reported .pages .all (dflAttr 0 none) (calls .pages (dflAttr 0 none) detachedCalls) b := by
  obtain ⟨s', hcreate, hptp⟩ : ∃ s', pthreadCreate .pages .all
      ⟨some (calls .pages (dflAttr 0 none) detachedCalls).toAttr, 0, 0, none⟩ .fresh =
        some (.ok, s') ∧ s'.ptp ≠ 0 := ⟨_, rfl, by decide⟩
  obtain ⟨b, hget, hreported⟩ := getattr_of_create .pages .all
    ⟨some (calls .pages (dflAttr 0 none) detachedCalls).toAttr, 0, 0, none⟩ .fresh s' 0 none
    detachedCalls PTHREAD_INVALID_ID (dflAttr 0 none) rfl hcreate hptp (by decide)
  exact ⟨s', b, hcreate, hget, hreported⟩

end Hlpt.Attributes
