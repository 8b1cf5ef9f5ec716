import Hlpt.Barrier.Steps
import Mathlib.Data.BitVec
import Mathlib.Order.Interval.Finset.Nat

/-!
# `Hlpt.Barrier.Rounds`: the rounds of a barrier

`Rounds N m round` states what a barrier for `N` threads is for. The arrivals fall
into rounds of exactly `N`; a call returns only when all calls of its round have
arrived; one call of each round returns `PTHREAD_BARRIER_SERIAL_THREAD`.

The code meets it as long as every arrival is `Punctual`: it finds the count at most
at the total (`NotLate`), and when it has to wait, the sequence it loaded is still the
current one (`Current`). Then the arrival `k` belongs to the round `k / N`, and the last
arrival of a round is the one that releases it (`barrier_rounds`).

Both parts of the condition are needed (`barrier_three_calls`). A late arrival leaves
with `continue` and is in no round. An arrival with an old sequence does not wait for
its round.
-/

set_option autoImplicit false

namespace Hlpt.Barrier

open Hlpt.Lib

universe u

variable {T : Type u}

/-! ### What the rounds are -/

/-- The arrivals that `round` puts into the round `r`. -/
def members (n : ℕ) (round : ℕ → ℕ) (r : ℕ) : Finset ℕ :=
  (Finset.range n).filter fun k => round k = r

/-- `round` sorts the arrivals into rounds of `N`. -/
structure Rounds (N : ℕ) (m : Mem T) (round : ℕ → ℕ) : Prop where
  /-- No round takes more than `N` arrivals. -/
  atMost : ∀ r, (members m.arrivals round r).card ≤ N
  /-- No arrival is forgotten: a round starts only when the ones before it are full. -/
  full : ∀ k < m.arrivals, ∀ r < round k, (members m.arrivals round r).card = N
  /-- A call that returned has arrived, and so have all `N` calls of its round. -/
  entered : ∀ k r, m.returned k = some r →
    k < m.arrivals ∧ (members m.arrivals round (round k)).card = N
  /-- At most one call of a round is the serial one. -/
  unique : ∀ j k, m.returned j = some .serialThread → m.returned k = some .serialThread →
    round j = round k → j = k
  /-- When all calls of a round returned, one of them was the serial one. -/
  serial : ∀ r, (members m.arrivals round r).card = N →
    (∀ k ∈ members m.arrivals round r, m.returned k ≠ none) →
    ∃ k ∈ members m.arrivals round r, m.returned k = some .serialThread

/-- The completed calls are partitioned into rounds of exactly `N`. -/
def RoundsOk (N : ℕ) (m : Mem T) : Prop := ∃ round, Rounds N m round

/-- When every call has returned, the number of arrivals is a multiple of `N`. -/
theorem Rounds.dvd {N : ℕ} {m : Mem T} {round : ℕ → ℕ} (h : Rounds N m round)
    (hall : ∀ k < m.arrivals, m.returned k ≠ none) : N ∣ m.arrivals := by
  have hcard := Finset.card_eq_sum_card_image round (Finset.range m.arrivals)
  rw [Finset.card_range] at hcard
  rw [hcard]
  apply Finset.dvd_sum
  intro r hr
  obtain ⟨k, hk, rfl⟩ := Finset.mem_image.mp hr
  obtain ⟨w, hw⟩ := Option.ne_none_iff_exists'.mp (hall k (Finset.mem_range.mp hk))
  exact (h.entered k w hw).2.symm.dvd

/-- The arrivals of the round `r` are the block of `N` numbers from `r * N` on. -/
theorem members_div (n N r : ℕ) (hN : 0 < N) :
    members n (· / N) r = Finset.Ico (r * N) (min n (r * N + N)) := by
  ext k
  simp only [members, Finset.mem_filter, Finset.mem_range, Finset.mem_Ico, lt_min_iff]
  rw [Nat.div_eq_iff hN]
  constructor
  · rintro ⟨hk, hle, hlt⟩
    exact ⟨by omega, hk, by omega⟩
  · rintro ⟨hle, hk, hlt⟩
    exact ⟨hk, by omega, by omega⟩

/-- The size of a block, when it starts below `n`. -/
theorem card_members_div (n N r : ℕ) (hN : 0 < N) :
    (members n (· / N) r).card = min n (r * N + N) - r * N := by
  rw [members_div n N r hN, Nat.card_Ico]

/-! ### The invariant -/

/-- The rounds that the access at a control point ends. -/
def Pc.ends : Pc → ℕ
  | .relStore _ => 1
  | .idle | .refsAdd | .seqLoad | .cntAdd _ | .loopTest _ | .loopWait _ | .loopAsleep _
  | .relLoad | .relWake | .lateWait _ | .lateAsleep | .refsDec _ | .refsWake _ | .ret _
  | .destDec | .destWait _ | .destAsleep | .destLoad | .destRet => 0

/-- A thread between its arrival as the last of a round and the release. -/
def Pc.releasing : Pc → Bool
  | .relLoad | .relStore _ => true
  | .idle | .refsAdd | .seqLoad | .cntAdd _ | .loopTest _ | .loopWait _ | .loopAsleep _
  | .relWake | .lateWait _ | .lateAsleep | .refsDec _ | .refsWake _ | .ret _
  | .destDec | .destWait _ | .destAsleep | .destLoad | .destRet => false

/-- What holds of a thread when `R` rounds have been released: where it stands, to
which round its arrival belongs, and what it will return. -/
def PcOk (N R : ℕ) (m : Mem T) (l : Local) : Prop :=
  match l.pc with
  | .loopTest seq | .loopWait seq | .loopAsleep seq =>
      l.arrival / N ≤ R ∧ l.arrival % N ≠ N - 1 ∧ l.arrival < m.arrivals ∧
        seq = BitVec.ofNat 32 (l.arrival / N)
  | .relLoad => m.hi.toNat = N ∧ l.arrival + 1 = m.arrivals
  | .relStore v => m.hi.toNat = N ∧ l.arrival + 1 = m.arrivals ∧ v = m.lo + 1
  | .relWake => l.arrival / N < R ∧ l.arrival % N = N - 1
  | .refsDec r | .refsWake r | .ret r =>
      l.arrival / N < R ∧ (r = .serialThread ↔ l.arrival % N = N - 1)
  | .lateWait _ | .lateAsleep => False
  | .idle | .refsAdd | .seqLoad | .cntAdd _ | .destDec | .destWait _ | .destAsleep
  | .destLoad | .destRet => True

/-- The barrier after `R` released rounds. -/
structure Inv (N R : ℕ) (s : Global T (Mem T) Local) : Prop where
  lo : s.mem.lo = BitVec.ofNat 32 R
  count : s.mem.arrivals = N * R + s.mem.hi.toNat
  hi : s.mem.hi.toNat ≤ N
  pc : ∀ t, PcOk N R s.mem (s.loc t)
  releaser : ∀ t u, (s.loc t).pc.releasing = true → (s.loc u).pc.releasing = true → t = u
  returned : ∀ k r, s.mem.returned k = some r →
    k / N < R ∧ (r = .serialThread ↔ k % N = N - 1)

/-- An arrival finds the count at most at the total. -/
def NotLate (total : BitVec 32) (s : Global T (Mem T) Local) (a : T × Choice T) : Prop :=
  match (s.loc a.1).pc with
  | .cntAdd _ => s.mem.hi ≤ total
  | _ => True

/-- An arrival that will have to wait has loaded the current sequence. -/
def Current (total : BitVec 32) (s : Global T (Mem T) Local) (a : T × Choice T) : Prop :=
  match (s.loc a.1).pc with
  | .cntAdd seq => s.mem.hi < total → s.mem.lo = seq
  | _ => True

/-- An arrival on time. -/
def Punctual (total : BitVec 32) (s : Global T (Mem T) Local) (a : T × Choice T) : Prop :=
  NotLate total s a ∧ Current total s a

instance (total : BitVec 32) (s : Global T (Mem T) Local) (a : T × Choice T) :
    Decidable (NotLate total s a) := by
  unfold NotLate
  split <;> infer_instance

instance (total : BitVec 32) (s : Global T (Mem T) Local) (a : T × Choice T) :
    Decidable (Current total s a) := by
  unfold Current
  split <;> infer_instance

instance (total : BitVec 32) (s : Global T (Mem T) Local) (a : T × Choice T) :
    Decidable (Punctual total s a) :=
  inferInstanceAs (Decidable (_ ∧ _))

/-! ### What one step does -/

/-- What a step does to the pair, to the arrivals and to the returned calls. -/
inductive RoundStep (m m' : Mem T) (l l' : Local) : Prop
  | quiet (hpc : l.pc.ends = 0) (hlo : m'.lo = m.lo) (hhi : m'.hi = m.hi)
      (ha : m'.arrivals = m.arrivals) (hr : m'.returned = m.returned)
      (hrel : l'.pc.releasing = l.pc.releasing)
  | arrive (seq : BitVec 32) (hpc : l.pc = .cntAdd seq) (hlo : m'.lo = m.lo)
      (hhi : m'.hi = m.hi + 1) (ha : m'.arrivals = m.arrivals + 1)
      (hr : m'.returned = m.returned)
  | release (v : BitVec 32) (hpc : l.pc = .relStore v) (hlo : m'.lo = v) (hhi : m'.hi = 0)
      (ha : m'.arrivals = m.arrivals) (hr : m'.returned = m.returned)
      (hrel : l'.pc.releasing = false)
  | ret (r : WaitRet) (hpc : l.pc = .ret r) (hlo : m'.lo = m.lo) (hhi : m'.hi = m.hi)
      (ha : m'.arrivals = m.arrivals)
      (hr : m'.returned = Function.update m.returned l.arrival (some r))
      (hrel : l'.pc.releasing = false)

variable [DecidableEq T] {total : BitVec 32} {t : T} {c : Choice T} {m m' : Mem T}
  {l l' : Local}

omit [DecidableEq T] in
/-- A step that only moves on ends no round, and it begins and ends no release. -/
theorem Moves.releasing {pc pc' : Pc} (h : Moves m pc pc') :
    pc.ends = 0 ∧ pc'.releasing = pc.releasing := by
  cases h <;> exact ⟨rfl, rfl⟩

/-- Every step is one of the four. -/
theorem exec_round (h : exec total t c m l = some (m', l')) : RoundStep m m' l l' := by
  cases step_of_exec h with
  | move hm => exact .quiet hm.releasing.1 rfl rfl rfl rfl hm.releasing.2
  | @arrive seq => exact .arrive seq rfl rfl rfl rfl rfl
  | @release v => exact .release v rfl rfl rfl rfl rfl rfl
  | @ret r => exact .ret r rfl rfl rfl rfl rfl rfl

/-- The place of an arrival that finds `h` arrivals in the running round. -/
theorem div_mod_of_lt {N R h : ℕ} (hh : h < N) :
    (N * R + h) / N = R ∧ (N * R + h) % N = h := by
  have hN : 0 < N := by omega
  constructor
  · rw [Nat.mul_add_div hN, Nat.div_eq_of_lt hh, Nat.add_zero]
  · rw [Nat.mul_add_mod, Nat.mod_eq_of_lt hh]

omit [DecidableEq T] in
/-- What a thread knows goes with it, until its call ends. -/
theorem Moves.pcOk {N R arrival : ℕ} {pc pc' : Pc} {nrefs : BitVec 32}
    {seqSleepers refSleepers : Finset T} (h : Moves m pc pc') (hpc : PcOk N R m ⟨pc, arrival⟩)
    (hlo : m.lo = BitVec.ofNat 32 R) :
    PcOk N R { m with nrefs := nrefs, seqSleepers := seqSleepers, refSleepers := refSleepers }
      ⟨pc', arrival⟩ := by
  cases h with
  | loopSame | loopWait | loopChanged | loopAwake | refsLast | refsDec | refsWake => exact hpc
  | @loopDone seq hne =>
    -- The sequence moved on, so the round of this arrival is over.
    obtain ⟨hle, hmod, -, hseq⟩ := hpc
    have hR : arrival / N ≠ R := fun hR => hne (by rw [hlo, hseq, hR])
    exact ⟨lt_of_le_of_ne hle hR, by simpa using hmod⟩
  | relLoad => exact ⟨hpc.1, hpc.2, rfl⟩
  | relWake => exact ⟨hpc.1, by simpa using hpc.2⟩
  | lateWait | lateChanged | lateAwake => exact hpc.elim
  | _ => trivial

/-- What a step makes of the thread that moves, when the barrier stands in the round
`R`. -/
theorem exec_pcOk {N R : ℕ} (h : exec total t c m l = some (m', l')) (hpc : PcOk N R m l)
    (hN : total.toNat + 1 = N) (hN' : N < 2 ^ 32) (hlo : m.lo = BitVec.ofNat 32 R)
    (hcount : m.arrivals = N * R + m.hi.toNat)
    (hp : ∀ seq, l.pc = .cntAdd seq → m.hi ≤ total ∧ (m.hi < total → m.lo = seq)) :
    PcOk N (R + l.pc.ends) m' l' := by
  cases step_of_exec h with
  | move hm =>
    show PcOk N (R + Pc.ends _) _ _
    rw [hm.releasing.1]
    exact hm.pcOk hpc hlo
  | @arrive seq arrival =>
    obtain ⟨hle, hseq⟩ := hp seq rfl
    have hle' : m.hi.toNat ≤ total.toNat := BitVec.le_def.mp hle
    by_cases hlt : m.hi < total
    · have hlt' : m.hi.toNat < total.toNat := BitVec.lt_def.mp hlt
      obtain ⟨hdiv, hmod⟩ := div_mod_of_lt (R := R) (show m.hi.toNat < N by omega)
      simp only [afterAdd, PcOk, if_pos hlt, Pc.ends, Nat.add_zero]
      rw [hcount, hdiv, hmod, ← hseq hlt, hlo]
      exact ⟨Nat.le_refl R, by omega, by omega, rfl⟩
    · -- It completes the round, and releases the others.
      have heq : m.hi = total := by
        apply BitVec.eq_of_toNat_eq
        have := mt BitVec.lt_def.mpr hlt
        omega
      have hadd : (m.hi + 1).toNat = N := by
        rw [heq, BitVec.toNat_add_of_lt] <;> simp <;> omega
      simp only [afterAdd, PcOk, if_neg hlt, if_pos heq]
      exact ⟨hadd, trivial⟩
  | @release v arrival =>
    obtain ⟨hhi, harr, -⟩ := hpc
    have harr' : arrival = N * R + (N - 1) := by
      simp only at harr
      omega
    obtain ⟨hdiv, hmod⟩ := div_mod_of_lt (R := R) (show N - 1 < N by omega)
    show arrival / N < R + 1 ∧ arrival % N = N - 1
    rw [harr', hdiv, hmod]
    exact ⟨Nat.lt_succ_self R, rfl⟩
  | ret => trivial

omit [DecidableEq T] in
/-- What holds of a thread stays true as the barrier moves on, as long as nothing
moves on while the thread releases a round. -/
theorem PcOk.mono {N R R' : ℕ} (hpc : PcOk N R m l) (hR : R ≤ R')
    (ha : m.arrivals ≤ m'.arrivals)
    (hrel : l.pc.releasing = true → m'.lo = m.lo ∧ m'.hi = m.hi ∧ m'.arrivals = m.arrivals) :
    PcOk N R' m' l := by
  rcases l with ⟨pc, arrival⟩
  cases pc with
  | loopTest seq | loopWait seq | loopAsleep seq =>
      obtain ⟨hle, hmod, hlt, hseq⟩ := hpc
      exact ⟨hle.trans hR, hmod, hlt.trans_le ha, hseq⟩
  | relLoad =>
      obtain ⟨hhi, harr⟩ := hpc
      obtain ⟨-, hhi', ha'⟩ := hrel rfl
      exact ⟨hhi' ▸ hhi, ha' ▸ harr⟩
  | relStore v =>
      obtain ⟨hhi, harr, hv⟩ := hpc
      obtain ⟨hlo', hhi', ha'⟩ := hrel rfl
      exact ⟨hhi' ▸ hhi, ha' ▸ harr, hlo' ▸ hv⟩
  | relWake | refsDec r | refsWake r | ret r => exact ⟨hpc.1.trans_le hR, hpc.2⟩
  | lateWait _ | lateAsleep => exact hpc
  | idle | refsAdd | seqLoad | cntAdd _ | destDec | destWait _ | destAsleep | destLoad
  | destRet => trivial

/-! ### Whole runs -/

/-- A punctual step ends the rounds that its access ends. -/
theorem Inv.step {N R : ℕ} {s : Global T (Mem T) Local} (hs : Inv N R s)
    (hN : total.toNat + 1 = N) (hN' : N < 2 ^ 32) (hp : Punctual total s (t, c))
    (h : exec total t c s.mem (s.loc t) = some (m, l)) :
    Inv N (R + (s.loc t).pc.ends) ⟨m, Function.update s.loc t l⟩ := by
  have hp' : ∀ seq, (s.loc t).pc = .cntAdd seq →
      s.mem.hi ≤ total ∧ (s.mem.hi < total → s.mem.lo = seq) := fun seq he => by
    simpa only [Punctual, NotLate, Current, he] using hp
  have hown := exec_pcOk h (hs.pc t) hN hN' hs.lo hs.count hp'
  have hok := hs.pc t
  -- A thread that releases a round keeps the count at `N`, so nobody arrives then.
  have hfull : ∀ u, (s.loc u).pc.releasing = true → s.mem.hi.toNat = N := by
    intro u hu
    have hu' := hs.pc u
    cases hpc : (s.loc u).pc <;> simp [hpc, Pc.releasing] at hu <;>
      simp only [PcOk, hpc] at hu' <;> exact hu'.1
  cases exec_round h with
  | quiet hpc hlo hhi ha hr hrel =>
      rw [hpc] at hown ⊢
      refine ⟨hlo.trans hs.lo, ?_, ?_, ?_, ?_, ?_⟩
      · show m.arrivals = _ + m.hi.toNat
        rw [ha, hhi, hs.count, Nat.add_zero]
      · show m.hi.toNat ≤ N
        rw [hhi]
        exact hs.hi
      · exact forall_loc_iff.mpr
          ⟨hown, fun u _ => (hs.pc u).mono le_rfl ha.ge fun _ => ⟨hlo, hhi, ha⟩⟩
      · intro u v
        apply unique_update (P := fun l : Local => l.pc.releasing = true) hs.releaser
        intro hl
        exact .inl (hrel ▸ hl)
      · show ∀ k r, m.returned k = some r → _
        rw [hr]
        exact hs.returned
  | arrive seq hpc hlo hhi ha hr =>
      have hle : s.mem.hi.toNat ≤ total.toNat := BitVec.le_def.mp (hp' seq hpc).1
      have hnone : ∀ u, (s.loc u).pc.releasing = false := fun u => by
        by_contra hu
        have := hfull u (by simpa using hu)
        omega
      have hadd : m.hi.toNat = s.mem.hi.toNat + 1 := by
        rw [hhi, BitVec.toNat_add_of_lt] <;> simp
        omega
      have hends : (s.loc t).pc.ends = 0 := by rw [hpc]; rfl
      rw [hends] at hown ⊢
      refine ⟨hlo.trans hs.lo, ?_, ?_, ?_, ?_, ?_⟩
      · show m.arrivals = _ + m.hi.toNat
        rw [ha, hadd, hs.count]
        exact Nat.add_assoc _ _ _
      · show m.hi.toNat ≤ N
        omega
      · refine forall_loc_iff.mpr
          ⟨hown, fun u _ => (hs.pc u).mono le_rfl (ha ▸ Nat.le_succ _) fun hu => ?_⟩
        rw [hnone u] at hu
        cases hu
      · intro u v
        apply unique_update (P := fun l : Local => l.pc.releasing = true) hs.releaser
        intro _
        exact .inr fun u _ => by simp [hnone u]
      · show ∀ k r, m.returned k = some r → _
        rw [hr]
        exact hs.returned
  | release v hpc hlo hhi ha hr hrel =>
      have hrelt : (s.loc t).pc.releasing = true := by rw [hpc]; rfl
      have hends : (s.loc t).pc.ends = 1 := by rw [hpc]; rfl
      have hv : v = s.mem.lo + 1 := by
        simp only [PcOk, hpc] at hok
        exact hok.2.2
      rw [hends] at hown ⊢
      refine ⟨?_, ?_, ?_, ?_, ?_, ?_⟩
      · show m.lo = _
        rw [hlo, hv, hs.lo, BitVec.ofNat_add]
        rfl
      · show m.arrivals = _ + m.hi.toNat
        rw [ha, hhi, hs.count, hfull t hrelt, Nat.mul_succ]
        rfl
      · show m.hi.toNat ≤ N
        rw [hhi]
        exact Nat.zero_le N
      · refine forall_loc_iff.mpr
          ⟨hown, fun u hut => (hs.pc u).mono (Nat.le_succ R) ha.ge fun hu => ?_⟩
        exact absurd (hs.releaser u t hu hrelt) hut
      · intro u v
        apply unique_update (P := fun l : Local => l.pc.releasing = true) hs.releaser
        intro hl
        rw [hrel] at hl
        cases hl
      · show ∀ k r, m.returned k = some r → _
        rw [hr]
        exact fun k r hk => ⟨(hs.returned k r hk).1.trans (Nat.lt_succ_self R),
          (hs.returned k r hk).2⟩
  | ret r hpc hlo hhi ha hr hrel =>
      have hends : (s.loc t).pc.ends = 0 := by rw [hpc]; rfl
      rw [hends] at hown ⊢
      refine ⟨hlo.trans hs.lo, ?_, ?_, ?_, ?_, ?_⟩
      · show m.arrivals = _ + m.hi.toNat
        rw [ha, hhi, hs.count, Nat.add_zero]
      · show m.hi.toNat ≤ N
        rw [hhi]
        exact hs.hi
      · exact forall_loc_iff.mpr
          ⟨hown, fun u _ => (hs.pc u).mono le_rfl ha.ge fun _ => ⟨hlo, hhi, ha⟩⟩
      · intro u v
        apply unique_update (P := fun l : Local => l.pc.releasing = true) hs.releaser
        intro hl
        rw [hrel] at hl
        cases hl
      · show ∀ k r, m.returned k = some r → _
        intro k r' hk
        rw [hr] at hk
        by_cases hka : k = (s.loc t).arrival
        · -- The call that returns in this step.
          subst hka
          rw [Function.update_self, Option.some.injEq] at hk
          subst hk
          simpa only [PcOk, hpc, Nat.add_zero] using hok
        · rw [Function.update_of_ne hka] at hk
          exact hs.returned k r' hk

/-- After a run of punctual steps the barrier stands in some round. -/
theorem inv_of_reach {cnt : BitVec 32} (hcnt : cnt ≠ 0) {s : Global T (Mem T) Local}
    (h : (machine cnt).ReachVia (Punctual (cnt - 1)) s) : ∃ R, Inv cnt.toNat R s := by
  have hpos : 0 < cnt.toNat := Nat.pos_of_ne_zero fun h0 => hcnt (BitVec.eq_of_toNat_eq h0)
  have hN : (cnt - 1).toNat + 1 = cnt.toNat := by
    have hle : 1 ≤ cnt := BitVec.le_def.mpr hpos
    rw [BitVec.toNat_sub_of_le hle]
    exact Nat.sub_add_cancel hpos
  refine Exec.invariant (P := fun s => ∃ R, Inv cnt.toNat R s) (fun s hs => ⟨0, ?_⟩)
    (fun s t c m p ⟨R, hs⟩ hp he => ⟨_, hs.step hN cnt.isLt hp he⟩) h
  obtain ⟨hm, hloc⟩ := hs
  rw [pthreadBarrierInit, if_neg hcnt] at hm
  injection hm with hm
  have hm' := congrArg Prod.fst hm
  simp only at hm'
  constructor <;> simp [← hm', hloc, PcOk, Pc.releasing]

/-! ### The rounds -/

omit [DecidableEq T] in
/-- The rounds of a barrier for `N` threads whose arrivals are all on time: the arrival
`k` is in the round `k / N`. -/
theorem Inv.rounds {N R : ℕ} {s : Global T (Mem T) Local} (hs : Inv N R s) (hN : 0 < N) :
    Rounds N s.mem (· / N) := by
  have hcard := fun r => card_members_div s.mem.arrivals N r hN
  -- A round below `R` has taken all its arrivals.
  have hover : ∀ r, r < R → r * N + N ≤ s.mem.arrivals := by
    intro r hr
    calc r * N + N = N * (r + 1) := by rw [Nat.mul_succ, Nat.mul_comm]
      _ ≤ N * R := Nat.mul_le_mul_left N hr
      _ ≤ s.mem.arrivals := by rw [hs.count]; exact Nat.le_add_right _ _
  constructor
  · intro r
    rw [hcard r]
    omega
  · intro k hk r hr
    have hle : r * N + N ≤ k := by
      rw [← Nat.succ_mul]
      exact (Nat.mul_le_mul_right N hr).trans (Nat.div_mul_le_self k N)
    rw [hcard r]
    omega
  · intro k r hk
    have hfull := hover _ (hs.returned k r hk).1
    refine ⟨?_, ?_⟩
    · have := Nat.div_add_mod k N
      have hmod := Nat.mod_lt k hN
      rw [Nat.mul_comm] at this
      omega
    · rw [hcard (k / N)]
      omega
  · intro j k hj hk hjk
    have hj' := (hs.returned j _ hj).2.mp rfl
    have hk' := (hs.returned k _ hk).2.mp rfl
    rw [← Nat.div_add_mod j N, ← Nat.div_add_mod k N, hj', hk']
    exact congrArg (N * · + (N - 1)) hjk
  · intro r hr hall
    rw [hcard r] at hr
    have hlast : r * N + (N - 1) ∈ members s.mem.arrivals (· / N) r := by
      rw [members_div _ _ _ hN, Finset.mem_Ico]
      omega
    refine ⟨_, hlast, ?_⟩
    cases hret : s.mem.returned (r * N + (N - 1)) with
    | none => exact absurd hret (hall _ hlast)
    | some w =>
        have hmod : (r * N + (N - 1)) % N = N - 1 := by
          rw [Nat.mul_comm]
          exact (div_mod_of_lt (by omega)).2
        rw [(hs.returned _ w hret).2.mpr hmod]

/-- The rounds of `pthread_barrier_wait`: for every count, any number of threads and
any number of calls, in every run whose arrivals are punctual, the completed calls are
partitioned into rounds of exactly the count, none of them returns before its round is
full, and one of each round is the serial one. -/
theorem barrier_rounds {cnt : BitVec 32} (hcnt : cnt ≠ 0) {s : Global T (Mem T) Local}
    (h : (machine cnt).ReachVia (Punctual (cnt - 1)) s) : RoundsOk cnt.toNat s.mem := by
  obtain ⟨R, hs⟩ := inv_of_reach hcnt h
  exact ⟨_, hs.rounds (Nat.pos_of_ne_zero fun h0 => hcnt (BitVec.eq_of_toNat_eq h0))⟩

/-- Two threads make the first round of a barrier for two, with one of them asleep when
the other one arrives. -/
theorem barrier_rounds_two : ∃ s : Global (Fin 2) (Mem (Fin 2)) Local,
    (machine 2).ReachVia (Punctual (2 - 1)) s ∧ s.mem.returned 0 = some .zero ∧
    s.mem.returned 1 = some .serialThread ∧ RoundsOk (2 : BitVec 32).toNat s.mem := by
  obtain ⟨s, hs, h₀, h₁⟩ := (machine (T := Fin 2) 2).exists_reachVia (Punctual (2 - 1))
    (s := ⟨⟨0, 0, 1, ∅, ∅, 0, fun _ => none⟩, fun _ => ⟨.idle, 0⟩⟩) ⟨rfl, fun _ => rfl⟩
    [(0, {}), (0, {}), (0, {}), (0, {}), (0, {}), (0, {}),
      (1, {}), (1, {}), (1, {}), (1, {}), (1, {}), (1, {}), (1, {}), (1, {}), (1, {}),
      (0, {}), (0, {}), (0, {}), (0, {})]
    (fun s => s.mem.returned 0 = some .zero ∧ s.mem.returned 1 = some .serialThread)
    (by decide)
  exact ⟨s, hs, h₀, h₁, barrier_rounds (by decide) hs⟩

/-- Three calls on a barrier for two that all return, so that there are no rounds of
two. In the first run the thread 2 arrives late, between the arrival of 1 and the
release. In the second one it loads the sequence, then the threads 0 and 1 make a round,
and it does not wait for the next one. -/
theorem barrier_three_calls :
    (∃ s : Global (Fin 3) (Mem (Fin 3)) Local,
      (machine 2).ReachVia (Current (2 - 1)) s ∧ ¬ RoundsOk 2 s.mem) ∧
    ∃ s : Global (Fin 3) (Mem (Fin 3)) Local,
      (machine 2).ReachVia (NotLate (2 - 1)) s ∧ ¬ RoundsOk 2 s.mem := by
  have hinit : IsInit 2 (⟨⟨0, 0, 1, ∅, ∅, 0, fun _ => none⟩, fun _ => ⟨.idle, 0⟩⟩ :
      Global (Fin 3) (Mem (Fin 3)) Local) := ⟨rfl, fun _ => rfl⟩
  have hno : ∀ s : Global (Fin 3) (Mem (Fin 3)) Local,
      (s.mem.arrivals = 3 ∧ ∀ k < 3, s.mem.returned k ≠ none) → ¬ RoundsOk 2 s.mem := by
    rintro s ⟨h3, hall⟩ ⟨round, hr⟩
    have hdvd := hr.dvd fun k hk => hall k (h3 ▸ hk)
    rw [h3] at hdvd
    exact absurd hdvd (by decide)
  constructor
  · obtain ⟨s, hs, hp⟩ := (machine (T := Fin 3) 2).exists_reachVia (Current (2 - 1)) hinit
      [(0, {}), (0, {}), (0, {}), (0, {}), (1, {}), (1, {}), (1, {}), (1, {}),
        (2, {}), (2, {}), (2, {}), (2, {}), (1, {}), (1, {}), (1, {}), (1, {}), (1, {}),
        (0, {}), (0, {}), (0, {}), (2, {}), (2, {}), (2, {})]
      (fun s => s.mem.arrivals = 3 ∧ ∀ k : ℕ, k < 3 → s.mem.returned k ≠ none) (by decide)
    exact ⟨s, hs, hno s hp⟩
  · obtain ⟨s, hs, hp⟩ := (machine (T := Fin 3) 2).exists_reachVia (NotLate (2 - 1)) hinit
      [(2, {}), (2, {}), (2, {}), (0, {}), (0, {}), (0, {}), (0, {}), (1, {}), (1, {}),
        (1, {}), (1, {}), (1, {}), (1, {}), (1, {}), (1, {}), (1, {}), (0, {}), (0, {}),
        (0, {}), (2, {}), (2, {}), (2, {}), (2, {})]
      (fun s => s.mem.arrivals = 3 ∧ ∀ k : ℕ, k < 3 → s.mem.returned k ≠ none) (by decide)
    exact ⟨s, hs, hno s hp⟩

end Hlpt.Barrier
