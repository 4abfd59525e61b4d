import KmsDrm.DpMst.Payload.Basic
import KmsDrm.Lib.Machine

/-!
# The masks and the proposed virtual channels agree

Over any run of the manager the mask of payloads says which slots are proposed, the mask of numbers
says which numbers the ports have, a port has one number and one slot, and no slot points to a port
that left the topology. Three calls can break this: allocating for a port that has a number for
another bandwidth, updating the table when a port without slots is behind a slot that is removed,
and switching the manager off while ports have numbers.

## Main definitions

* `DpMst.Consistent` — the masks, the table and the ports agree.

## Main results

* `DpMst.payload_consistent` — they agree over every run of careful calls.
-/

namespace KmsDrm.DpMst

open KmsDrm.Lib
open Function (update update_apply update_of_ne update_self)

namespace Mgr

variable {P : Type}
variable {s s' : Mgr P} {p : P} {i : ℕ}

/-- **The masks and the entries agree**: a slot is taken if and only if an entry is proposed for it,
the numbers that are taken are those of the ports, no two ports have the same number, no port is
proposed twice, and an entry points to a port of the topology that has a number. -/
structure Consistent (s : Mgr P) : Prop where
  slots : ∀ i, i < s.maxPayloads → (s.payloadMask (i + 1) = true ↔ s.proposedVcpis i ≠ none)
  numbers : ∀ v, s.vcpiMask v = true ↔ ∃ p, (s.ports p).vcpi.vcpi = v + 1
  distinct : ∀ p q, 0 < (s.ports p).vcpi.vcpi →
    (s.ports p).vcpi.vcpi = (s.ports q).vcpi.vcpi → p = q
  once : ∀ i j p, i < s.maxPayloads → j < s.maxPayloads → s.proposedVcpis i = some p →
    s.proposedVcpis j = some p → i = j
  owner : ∀ i p, i < s.maxPayloads → s.proposedVcpis i = some p → 0 < (s.ports p).vcpi.vcpi
  alive : ∀ i p, i < s.maxPayloads → s.proposedVcpis i = some p → s.valid p = true

/-- The update of the table removes slot `i`. -/
def Removes (s : Mgr P) (i : ℕ) : Prop :=
  if (s.payloads i).numSlots = s.reqSlots i then (s.payloads i).payloadState = .payloadDeleteLocal
  else s.reqSlots i = 0

instance (s : Mgr P) (i : ℕ) : Decidable (s.Removes i) :=
  inferInstanceAs (Decidable (if (s.payloads i).numSlots = s.reqSlots i then
    (s.payloads i).payloadState = .payloadDeleteLocal else s.reqSlots i = 0))

/-- A call that keeps the masks and the entries in agreement: a port that has a number is not
allocated another one, no entry without slots is behind a slot that the update removes, and the
manager is switched off only if no port has a number. -/
def Careful (s : Mgr P) : Call P → Prop
  | .allocateVcpi p pbn _ => 0 < (s.ports p).vcpi.vcpi → pbn = (s.ports p).vcpi.pbn
  | .updatePayloadPart1 _ => ∀ j, j < s.maxPayloads → ∀ i, i < j → s.Removes i →
      s.proposedVcpis j ≠ none → s.reqSlots j ≠ 0
  | .setMst false _ => s.mstState = true → ∀ p, (s.ports p).vcpi.vcpi = 0
  | _ => True

instance [Fintype P] (s : Mgr P) (c : Call P) : Decidable (s.Careful c) :=
  match c with
  | .allocateVcpi p pbn _ =>
    inferInstanceAs (Decidable (0 < (s.ports p).vcpi.vcpi → pbn = (s.ports p).vcpi.pbn))
  | .updatePayloadPart1 _ =>
    inferInstanceAs (Decidable (∀ j, j < s.maxPayloads → ∀ i, i < j → s.Removes i →
      s.proposedVcpis j ≠ none → s.reqSlots j ≠ 0))
  | .setMst false _ =>
    inferInstanceAs (Decidable (s.mstState = true → ∀ p, (s.ports p).vcpi.vcpi = 0))
  | .resetVcpiSlots _ | .deallocateVcpi _ | .updatePayloadPart2 _ | .setMst true _
  | .addPort _ _ _ | .destroyConnectorWork _ _ => inferInstanceAs (Decidable True)

/-- The invariant: the first bit of the mask of payloads is set, and only ports of the topology have
numbers. -/
structure Inv (s : Mgr P) : Prop extends Consistent s where
  first : s.payloadMask 0 = true
  live : ∀ p, 0 < (s.ports p).vcpi.vcpi → s.valid p = true

/-! ## Slots and numbers are taken and given back -/

lemma Inv.of_eq (h : Inv s) (hmax : s'.maxPayloads = s.maxPayloads)
    (hmask : s'.payloadMask = s.payloadMask) (hvcpi : s'.vcpiMask = s.vcpiMask)
    (hproposed : s'.proposedVcpis = s.proposedVcpis)
    (hports : ∀ p, (s'.ports p).vcpi.vcpi = (s.ports p).vcpi.vcpi)
    (hvalid : ∀ p, 0 < (s.ports p).vcpi.vcpi → s.valid p = true → s'.valid p = true) : Inv s' where
  slots := by
    rw [hmax, hmask, hproposed]
    exact h.slots
  numbers := by
    simp only [hvcpi, hports]
    exact h.numbers
  distinct := by
    simp only [hports]
    exact h.distinct
  once := by
    rw [hmax, hproposed]
    exact h.once
  owner := by
    simp only [hmax, hproposed, hports]
    exact h.owner
  alive := by
    rw [hmax, hproposed]
    exact fun i p hi hp => hvalid p (h.owner i p hi hp) (h.alive i p hi hp)
  first := by
    rw [hmask]
    exact h.first
  live := by
    intro p hp
    rw [hports] at hp
    exact hvalid p hp (h.live p hp)

lemma findFirstZeroBit_spec {mask : ℕ → Bool} {size bit : ℕ}
    (h : findFirstZeroBit mask size = bit) (hlt : bit < size) : mask bit = false := by
  unfold findFirstZeroBit at h
  cases hfind : (List.range size).find? fun bit => !mask bit with
  | none =>
    rw [hfind, Option.getD_none] at h
    omega
  | some found =>
    rw [hfind, Option.getD_some] at h
    have hfound := List.find?_some hfind
    rw [h] at hfound
    simpa using hfound

lemma Inv.holdsVcpi_iff (h : Inv s) {v : ℕ} (hv : (s.ports p).vcpi.vcpi = v + 1) (i : ℕ) :
    s.holdsVcpi (v + 1) i = true ↔ s.proposedVcpis i = some p := by
  unfold holdsVcpi
  cases hi : s.proposedVcpis i with
  | none => simp
  | some q =>
    simp only [decide_eq_true_eq, Option.some.injEq]
    refine ⟨fun hq => ?_, fun hq => by rw [hq, hv]⟩
    exact h.distinct q p (by omega) (hq.trans hv.symm)

section Ports

variable [DecidableEq P]

lemma Inv.setVcpi (h : Inv s) (p : P) (vcpi : Vcpi) (hvcpi : vcpi.vcpi = (s.ports p).vcpi.vcpi) :
    Inv (s.setVcpi p vcpi) := by
  refine h.of_eq rfl rfl rfl rfl (fun q => ?_) (fun q _ hq => ?_)
  · by_cases hqp : q = p
    · rw [hqp, ← hvcpi]
      simp [Mgr.setVcpi]
    · simp [Mgr.setVcpi, hqp]
  · rw [← hq]
    by_cases hqp : q = p
    · rw [hqp]
      simp [Mgr.setVcpi, valid]
    · simp [Mgr.setVcpi, valid, hqp]

lemma Inv.leak (h : Inv s) (p : P) : Inv (s.leak p) := by
  refine h.of_eq rfl rfl rfl rfl (fun q => ?_) (fun q _ hq => ?_)
  · by_cases hqp : q = p
    · rw [hqp]
      simp [Mgr.leak]
    · simp [Mgr.leak, hqp]
  · rw [← hq]
    by_cases hqp : q = p
    · rw [hqp]
      simp [Mgr.leak, valid]
    · simp [Mgr.leak, valid, hqp]

lemma Inv.assign (h : Inv s) (hvalid : s.valid p = true) (hnone : (s.ports p).vcpi.vcpi = 0)
    (i : ℕ) {vcpiRet : ℕ} (hnumber : s.vcpiMask vcpiRet = false) :
    Inv (s.assign p (i + 1) vcpiRet) := by
  have hself : ((s.assign p (i + 1) vcpiRet).ports p).vcpi.vcpi = vcpiRet + 1 := by
    simp [Mgr.assign, Mgr.setVcpi]
  have hother : ∀ q, q ≠ p → (s.assign p (i + 1) vcpiRet).ports q = s.ports q := by
    intro q hq
    simp [Mgr.assign, Mgr.setVcpi, hq]
  have hstays : ∀ q, s.valid q = true → (s.assign p (i + 1) vcpiRet).valid q = true := by
    intro q hq
    by_cases hqp : q = p
    · rw [← hq, hqp]
      simp [Mgr.assign, Mgr.setVcpi, valid]
    · rw [← hq]
      simp [Mgr.assign, Mgr.setVcpi, valid, hqp]
  have hproposed : ∀ j, (s.assign p (i + 1) vcpiRet).proposedVcpis j =
      if j = i then some p else s.proposedVcpis j := by
    intro j
    simp [Mgr.assign, update_apply]
  -- no port has the new number, and the port is not proposed yet
  have hfresh : ∀ q, (s.ports q).vcpi.vcpi ≠ vcpiRet + 1 := by
    intro q hq
    rw [(h.numbers vcpiRet).2 ⟨q, hq⟩] at hnumber
    exact Bool.noConfusion hnumber
  have hnew : ∀ j, j < s.maxPayloads → s.proposedVcpis j ≠ some p := by
    intro j hj hp
    have hpos := h.owner j p hj hp
    omega
  refine ⟨⟨fun j hj => ?_, fun v => ?_, fun q r hpos hqr => ?_, fun j k q hj hk hjq hkq => ?_,
    fun j q hj hq => ?_, fun j q hj hq => ?_⟩, ?_, fun q hpos => ?_⟩
  · show update s.payloadMask (i + 1) true (j + 1) = true ↔ _
    rw [hproposed, update_apply]
    by_cases hji : j = i
    · simp [hji]
    · rw [if_neg (by omega), if_neg hji]
      exact h.slots j hj
  · show update s.vcpiMask vcpiRet true v = true ↔ _
    rw [update_apply]
    by_cases hv : v = vcpiRet
    · rw [if_pos hv, hv]
      exact ⟨fun _ => ⟨p, hself⟩, fun _ => rfl⟩
    · rw [if_neg hv, h.numbers v]
      refine ⟨fun ⟨q, hq⟩ => ⟨q, ?_⟩, fun ⟨q, hq⟩ => ⟨q, ?_⟩⟩
      · rw [hother q (fun hqp => by rw [hqp] at hq; omega)]
        exact hq
      · have hqp : q ≠ p := by
          rintro rfl
          omega
        rwa [hother q hqp] at hq
  · by_cases hqp : q = p
    · by_cases hrp : r = p
      · rw [hqp, hrp]
      · rw [hqp, hself, hother r hrp] at hqr
        exact absurd hqr.symm (hfresh r)
    · by_cases hrp : r = p
      · rw [hrp, hself, hother q hqp] at hqr
        exact absurd hqr (hfresh q)
      · rw [hother q hqp] at hpos hqr
        rw [hother r hrp] at hqr
        exact h.distinct q r hpos hqr
  · rw [hproposed] at hjq hkq
    split_ifs at hjq hkq with hji hki hki
    · rw [hji, hki]
    · cases hjq
      exact absurd hkq (hnew k hk)
    · cases hkq
      exact absurd hjq (hnew j hj)
    · exact h.once j k q hj hk hjq hkq
  · by_cases hqp : q = p
    · rw [hqp]
      omega
    · rw [hother q hqp]
      rw [hproposed] at hq
      split_ifs at hq with hji
      · exact absurd (Option.some.inj hq).symm hqp
      · exact h.owner j q hj hq
  · rw [hproposed] at hq
    split_ifs at hq with hji
    · cases hq
      exact hstays p hvalid
    · exact hstays q (h.alive j q hj hq)
  · show update s.payloadMask (i + 1) true 0 = true
    exact h.first
  · by_cases hqp : q = p
    · rw [hqp]
      exact hstays p hvalid
    · rw [hother q hqp] at hpos
      exact hstays q (h.live q hpos)

lemma Inv.assignPayloadId (h : Inv s) (hvalid : s.valid p = true)
    (hnone : (s.ports p).vcpi.vcpi = 0) : Inv (s.assignPayloadId p).1 := by
  unfold Mgr.assignPayloadId
  obtain ⟨ret, hret⟩ : ∃ ret, findFirstZeroBit s.payloadMask (s.maxPayloads + 1) = ret := ⟨_, rfl⟩
  obtain ⟨vcpiRet, hvcpiRet⟩ : ∃ ret, findFirstZeroBit s.vcpiMask (s.maxPayloads + 1) = ret :=
    ⟨_, rfl⟩
  simp only [hret, hvcpiRet]
  split_ifs with hfull hnumbers
  · exact h
  · exact h
  · have hslot := findFirstZeroBit_spec hret (by omega)
    have hnumber := findFirstZeroBit_spec hvcpiRet (by omega)
    -- bit 0 is always set
    cases ret with
    | zero =>
      rw [h.first] at hslot
      exact Bool.noConfusion hslot
    | succ i => exact h.assign hvalid hnone i hnumber

lemma Inv.allocateVcpi (h : Inv s) (p : P) (pbn slots : ℤ)
    (hcareful : 0 < (s.ports p).vcpi.vcpi → pbn = (s.ports p).vcpi.pbn) :
    Inv (s.allocateVcpi p pbn slots).1 := by
  unfold Mgr.allocateVcpi
  split_ifs with hvalid hneg hsame
  · exact h.leak p
  · exact h
  · have hnone : (s.ports p).vcpi.vcpi = 0 := by
      by_contra hpos
      exact hsame ⟨by omega, hcareful (by omega)⟩
    have hinit : Inv (s.initVcpi p pbn slots).1 := by
      unfold Mgr.initVcpi
      split_ifs
      · exact h
      · have hset := h.setVcpi p { (s.ports p).vcpi with
          pbn := pbn, alignedPbn := slots * s.pbnDiv, numSlots := slots } rfl
        refine hset.assignPayloadId ?_ ?_
        · rw [← hvalid]
          simp [Mgr.setVcpi, valid]
        · rw [← hnone]
          simp [Mgr.setVcpi]
    simp only []
    split_ifs
    · exact hinit.leak p
    · exact hinit
  · exact h

lemma Inv.deallocateVcpi (h : Inv s) (p : P) : Inv (s.deallocateVcpi p) := by
  unfold Mgr.deallocateVcpi
  split_ifs with hvalid
  swap
  · exact h
  by_cases hzero : (s.ports p).vcpi.vcpi = 0
  · rw [hzero]
    exact h.setVcpi p {} hzero.symm
  obtain ⟨v, hv⟩ : ∃ v, (s.ports p).vcpi.vcpi = v + 1 := ⟨(s.ports p).vcpi.vcpi - 1, by omega⟩
  obtain ⟨s', hs'⟩ : ∃ s', (s.putPayloadId (s.ports p).vcpi.vcpi).setVcpi p {} = s' := ⟨_, rfl⟩
  rw [hs']
  rw [putPayloadId, hv] at hs'
  have hmax : s'.maxPayloads = s.maxPayloads := by
    rw [← hs']
    rfl
  have hself : (s'.ports p).vcpi.vcpi = 0 := by
    rw [← hs']
    simp [Mgr.setVcpi]
  have hother : ∀ q, q ≠ p → (s'.ports q).vcpi.vcpi = (s.ports q).vcpi.vcpi := by
    intro q hq
    rw [← hs']
    simp [Mgr.setVcpi, hq]
  have hstays : ∀ q, s.valid q = true → s'.valid q = true := by
    intro q hq
    rw [← hq, ← hs']
    by_cases hqp : q = p
    · rw [hqp]
      simp [Mgr.setVcpi, valid]
    · simp [Mgr.setVcpi, valid, hqp]
  have hne : ∀ q, 0 < (s'.ports q).vcpi.vcpi → q ≠ p := by
    rintro q hpos rfl
    omega
  have hproposed : ∀ i, i < s.maxPayloads →
      s'.proposedVcpis i = if s.proposedVcpis i = some p then none else s.proposedVcpis i := by
    intro i hi
    rw [← hs']
    show (if i < s.maxPayloads ∧ s.holdsVcpi (v + 1) i = true then none
      else s.proposedVcpis i) = _
    simp only [hi, h.holdsVcpi_iff hv, true_and]
  have hsome : ∀ i q, i < s.maxPayloads → s'.proposedVcpis i = some q →
      q ≠ p ∧ s.proposedVcpis i = some q := by
    intro i q hi hq
    rw [hproposed i hi] at hq
    split_ifs at hq with hip
    refine ⟨?_, hq⟩
    rintro rfl
    exact hip hq
  refine ⟨⟨fun i hi => ?_, fun w => ?_, fun q r hpos hqr => ?_, fun i j q hi hj hiq hjq => ?_,
    fun i q hi hq => ?_, fun i q hi hq => ?_⟩, ?_, fun q hpos => ?_⟩
  · rw [hmax] at hi
    have hmask : s'.payloadMask (i + 1) =
        if s.proposedVcpis i = some p then false else s.payloadMask (i + 1) := by
      rw [← hs']
      show (if 0 < i + 1 ∧ i + 1 - 1 < s.maxPayloads ∧ s.holdsVcpi (v + 1) (i + 1 - 1) = true
        then false else s.payloadMask (i + 1)) = _
      simp only [Nat.add_sub_cancel, Nat.succ_pos, hi, h.holdsVcpi_iff hv, true_and]
    rw [hmask, hproposed i hi]
    split_ifs
    · simp
    · exact h.slots i hi
  · have hmask : s'.vcpiMask w = if w = v then false else s.vcpiMask w := by
      rw [← hs']
      show update s.vcpiMask (v + 1 - 1) false w = _
      rw [update_apply, Nat.add_sub_cancel]
    rw [hmask]
    split_ifs with hw
    · refine ⟨fun hfalse => hfalse.elim, fun ⟨q, hq⟩ => ?_⟩
      have hqp := hne q (by omega)
      rw [hother q hqp] at hq
      exact absurd (h.distinct q p (by omega) (by omega)) hqp
    · rw [h.numbers w]
      refine ⟨fun ⟨q, hq⟩ => ⟨q, ?_⟩, fun ⟨q, hq⟩ => ⟨q, ?_⟩⟩
      · have hqp : q ≠ p := by
          rintro rfl
          omega
        rw [hother q hqp, hq]
      · rw [← hother q (hne q (by omega)), hq]
  · have hqp := hne q hpos
    have hrp := hne r (by omega)
    rw [hother q hqp] at hpos hqr
    rw [hother r hrp] at hqr
    exact h.distinct q r hpos hqr
  · rw [hmax] at hi hj
    exact h.once i j q hi hj (hsome i q hi hiq).2 (hsome j q hj hjq).2
  · rw [hmax] at hi
    obtain ⟨hqp, hq⟩ := hsome i q hi hq
    rw [hother q hqp]
    exact h.owner i q hi hq
  · rw [hmax] at hi
    exact hstays q (h.alive i q hi (hsome i q hi hq).2)
  · rw [← hs']
    exact h.first
  · rw [hother q (hne q hpos)] at hpos
    exact hstays q (h.live q hpos)

end Ports

/-! ## The update of the table -/

/-- The first slot of entry `i`, if the entries before it get what they request. -/
def reqStart (req : ℕ → ℤ) : ℕ → ℤ
  | 0 => 1
  | i + 1 => reqStart req i + req i

/-- Entry `i` of the table as it is requested. -/
def requested (s : Mgr P) (write : ℕ → Bool) (i : ℕ) : Payload :=
  (s.payloads i).push (reqStart s.reqSlots i) (s.reqSlots i) (s.reqVcpi i) (write i)

lemma requested_marked_iff {write : ℕ → Bool} :
    (s.requested write i).payloadState = .payloadDeleteLocal ↔ s.Removes i := by
  unfold requested Payload.push Removes
  split_ifs <;> simp_all

lemma solvePayloads_spec (write : ℕ → Bool) (turns i : ℕ) (s : Mgr P) :
    ∃ payloads ret, solvePayloads write turns i (reqStart s.reqSlots i) s =
        ({ s with payloads := payloads }, ret) ∧
      (ret = 0 ↔ ∀ j, i ≤ j → j < i + turns → (s.proposedVcpis j).all s.valid = true) ∧
      (ret = 0 → ∀ j, payloads j =
        if i ≤ j ∧ j < i + turns then s.requested write j else s.payloads j) := by
  induction turns generalizing i s with
  | zero =>
    exact ⟨s.payloads, 0, rfl, ⟨fun _ j _ _ => by omega, fun _ => rfl⟩,
      fun _ j => (if_neg (by omega)).symm⟩
  | succ turns ih =>
    rw [solvePayloads]
    split_ifs with hvalid
    · obtain ⟨payloads, ret, hs', hret, hpayloads⟩ :=
        ih (i + 1) (s.setPayload i (s.requested write i))
      refine ⟨payloads, ret, hs', hret.trans ⟨fun h j hij hj => ?_, fun h j hij hj => ?_⟩,
        fun hzero j => ?_⟩
      · rcases Nat.eq_or_lt_of_le hij with rfl | hlt
        · exact hvalid
        · exact h j hlt (by omega)
      · exact h j (by omega) (by omega)
      · rw [hpayloads hzero]
        by_cases hj : j = i
        · rw [hj, if_neg (by omega), if_pos (by omega)]
          exact update_self _ _ _
        · have hother : (s.setPayload i (s.requested write i)).payloads j = s.payloads j :=
            update_of_ne hj _ _
          have hsame : (s.setPayload i (s.requested write i)).requested write j =
              s.requested write j :=
            congrArg (Payload.push · (reqStart s.reqSlots j) (s.reqSlots j) _ _) hother
          rw [hsame, hother]
          exact if_congr (by omega) rfl rfl
    · have hret : -einval ≠ 0 := by decide
      exact ⟨s.payloads, -einval, rfl, ⟨fun h => absurd h hret,
        fun h => absurd (h i (by omega) (by omega)) hvalid⟩, fun h => absurd h hret⟩

lemma shiftSlots_spec (turns j : ℕ) (s : Mgr P) :
    ∃ payloads proposed mask, shiftSlots turns j s =
      { s with payloads := payloads, proposedVcpis := proposed, payloadMask := mask } ∧
      (∀ k, payloads k = if j ≤ k ∧ k < j + turns then s.payloads (k + 1) else s.payloads k) ∧
      (∀ k, proposed k =
        if j ≤ k ∧ k < j + turns then s.proposedVcpis (k + 1) else s.proposedVcpis k) ∧
      mask 0 = s.payloadMask 0 ∧ ∀ k, mask (k + 1) =
        if j ≤ k ∧ k < j + turns then decide (s.reqSlots (k + 1) ≠ 0)
        else s.payloadMask (k + 1) := by
  induction turns generalizing j s with
  | zero =>
    refine ⟨s.payloads, s.proposedVcpis, s.payloadMask, rfl, ?_, ?_, rfl, ?_⟩ <;> intro k <;>
      rw [if_neg (by omega)]
  | succ turns ih =>
    obtain ⟨payloads, proposed, mask, hs', hpayloads, hproposed, hfirst, hmask⟩ :=
      ih (j + 1) (s.copySlot j)
    refine ⟨payloads, proposed, mask, hs', fun k => ?_, fun k => ?_, hfirst, fun k => ?_⟩
    · rw [hpayloads, copySlot]
      simp only [update_apply]
      split_ifs <;> first | rfl | omega | (congr; omega)
    · rw [hproposed, copySlot]
      simp only [update_apply]
      split_ifs <;> first | rfl | omega | (congr; omega)
    · have hreq : j + 1 ≤ k → (s.copySlot j).reqSlots (k + 1) = s.reqSlots (k + 1) := by
        intro hk
        have hentry : (s.copySlot j).proposedVcpis (k + 1) = s.proposedVcpis (k + 1) :=
          update_of_ne (by omega) _ _
        unfold reqSlots
        rw [hentry]
        rfl
      rw [hmask]
      split_ifs with hlater hrange hrange
      · rw [hreq hlater.1]
      · omega
      · obtain rfl : k = j := by omega
        exact update_self _ _ _
      · exact update_of_ne (by omega) _ _

lemma removeSlot_spec (s : Mgr P) (hi : i < s.maxPayloads) :
    ∃ payloads proposed mask, s.removeSlot i =
      { s with payloads := payloads, proposedVcpis := proposed, payloadMask := mask } ∧
      mask 0 = s.payloadMask 0 ∧ ∀ k, k < s.maxPayloads →
        (payloads k = if k < i then s.payloads k
          else if k + 1 < s.maxPayloads then s.payloads (k + 1) else {}) ∧
        (proposed k = if k < i then s.proposedVcpis k
          else if k + 1 < s.maxPayloads then s.proposedVcpis (k + 1) else none) ∧
        mask (k + 1) = if k < i then s.payloadMask (k + 1)
          else if k + 1 < s.maxPayloads then decide (s.reqSlots (k + 1) ≠ 0) else false := by
  obtain ⟨payloads, proposed, mask, hs', hpayloads, hproposed, hfirst, hmask⟩ :=
    shiftSlots_spec (s.maxPayloads - 1 - i) i s
  unfold removeSlot
  rw [hs']
  refine ⟨_, _, _, rfl, ?_, fun k hk => ⟨?_, ?_, ?_⟩⟩
  · show update mask s.maxPayloads false 0 = _
    rw [update_of_ne (by omega), hfirst]
  · show update payloads (s.maxPayloads - 1) {} k = _
    rw [update_apply, hpayloads]
    split_ifs <;> first | rfl | omega
  · show update proposed (s.maxPayloads - 1) none k = _
    rw [update_apply, hproposed]
    split_ifs <;> first | rfl | omega
  · show update mask s.maxPayloads false (k + 1) = _
    rw [update_apply, hmask]
    split_ifs <;> first | rfl | omega

lemma Inv.removeSlot (h : Inv s) (hi : i < s.maxPayloads)
    (hlater : ∀ j, j < s.maxPayloads → i < j → s.proposedVcpis j ≠ none → s.reqSlots j ≠ 0) :
    Inv (s.removeSlot i) := by
  obtain ⟨payloads, proposed, mask, hs', hfirst, hslot⟩ := removeSlot_spec s hi
  rw [hs']
  -- an entry comes from the same slot or from the one behind it
  have hfrom : ∀ k p, k < s.maxPayloads → proposed k = some p →
      ∃ l, l < s.maxPayloads ∧ s.proposedVcpis l = some p ∧ l = if k < i then k else k + 1 := by
    intro k p hk hp
    rw [(hslot k hk).2.1] at hp
    split_ifs at hp with hki hlast
    · exact ⟨k, hk, hp, by rw [if_pos hki]⟩
    · exact ⟨k + 1, hlast, hp, by rw [if_neg hki]⟩
  refine ⟨⟨fun k hk => ?_, h.numbers, h.distinct, fun j k p hj hk hjp hkp => ?_,
    fun k p hk hp => ?_, fun k p hk hp => ?_⟩, hfirst.trans h.first, h.live⟩
  · show mask (k + 1) = true ↔ proposed k ≠ none
    rw [(hslot k hk).2.2, (hslot k hk).2.1]
    split_ifs with hki hlast
    · exact h.slots k hk
    · rw [decide_eq_true_eq]
      refine ⟨fun hreq hnone => hreq ?_, hlater (k + 1) hlast (by omega)⟩
      unfold reqSlots
      rw [hnone]
    · simp
  · obtain ⟨l, hl, hlp, hlj⟩ := hfrom j p hj hjp
    obtain ⟨m, hm, hmp, hmk⟩ := hfrom k p hk hkp
    have hlm := h.once l m p hl hm hlp hmp
    split_ifs at hlj hmk <;> omega
  · obtain ⟨l, hl, hlp, -⟩ := hfrom k p hk hp
    exact h.owner l p hl hlp
  · obtain ⟨l, hl, hlp, -⟩ := hfrom k p hk hp
    exact h.alive l p hl hlp

/-- No entry without slots is behind a marked slot, from slot `i` on. -/
def NoEmptyBehind (s : Mgr P) (i : ℕ) : Prop :=
  ∀ b, b < s.maxPayloads → ∀ a, i ≤ a → a < b →
    (s.payloads a).payloadState = .payloadDeleteLocal → s.proposedVcpis b ≠ none → s.reqSlots b ≠ 0

lemma NoEmptyBehind.removeSlot (h : s.NoEmptyBehind i) (hi : i < s.maxPayloads) :
    (s.removeSlot i).NoEmptyBehind (i + 1) := by
  obtain ⟨payloads, proposed, mask, hs', -, hslot⟩ := removeSlot_spec s hi
  rw [hs']
  intro b hb a hia hab hmark hsome
  have hpayload := (hslot a (by simp only [] at hb; omega)).1
  have hentry := (hslot b hb).2.1
  rw [if_neg (by omega), if_pos (by simp only [] at hb; omega)] at hpayload
  rw [if_neg (by omega)] at hentry
  simp only [] at hmark hsome
  rw [hpayload] at hmark
  rw [hentry] at hsome
  split_ifs at hentry hsome with hlast
  · have hreq := h (b + 1) hlast (a + 1) (by omega) (by omega) hmark hsome
    unfold reqSlots at hreq ⊢
    simp only []
    rwa [hentry]
  · exact absurd rfl hsome

lemma Inv.removeDeleted (h : Inv s) {turns : ℕ} (hturns : i + turns = s.maxPayloads)
    (hempty : s.NoEmptyBehind i) : Inv (removeDeleted turns i s) := by
  induction turns generalizing i s with
  | zero => exact h
  | succ turns ih =>
    rw [Mgr.removeDeleted]
    split_ifs with hmark
    · have hi : i < s.maxPayloads := by omega
      have hmax : (s.removeSlot i).maxPayloads = s.maxPayloads := by
        obtain ⟨payloads, proposed, mask, hs', -⟩ := removeSlot_spec s hi
        rw [hs']
      refine ih (h.removeSlot hi fun j hj hij => hempty j hj i (Nat.le_refl i) hij hmark) ?_
        (hempty.removeSlot hi)
      omega
    · exact ih h (by omega) fun b hb a hia => hempty b hb a (by omega)

/-- The update of the table keeps the invariant, if no entry without slots is behind a slot that it
removes. -/
lemma Inv.updatePayloadPart1 (h : Inv s) (write : ℕ → Bool)
    (hcareful : ∀ j, j < s.maxPayloads → ∀ i, i < j → s.Removes i → s.proposedVcpis j ≠ none →
      s.reqSlots j ≠ 0) :
    Inv (s.updatePayloadPart1 write).1 := by
  obtain ⟨payloads, ret, hs', -, hpayloads⟩ := solvePayloads_spec write s.maxPayloads 0 s
  have hinv : Inv { s with payloads := payloads } :=
    h.of_eq rfl rfl rfl rfl (fun _ => rfl) fun _ _ hq => hq
  unfold Mgr.updatePayloadPart1
  rw [show (1 : ℤ) = reqStart s.reqSlots 0 from rfl, hs']
  dsimp only
  split_ifs with hret
  · exact hinv
  · refine hinv.removeDeleted (Nat.zero_add _) fun b hb a _ hab hmark => hcareful b hb a hab ?_
    have hlt : a < s.maxPayloads := Nat.lt_trans hab hb
    have hmark : (payloads a).payloadState = .payloadDeleteLocal := hmark
    rw [hpayloads (not_not.1 hret), if_pos (by omega)] at hmark
    exact requested_marked_iff.1 hmark

lemma finishPayloads_spec (send : ℕ → ℤ) (turns i : ℕ) (s : Mgr P) :
    ∃ payloads, (finishPayloads send turns i s).1 = { s with payloads := payloads } := by
  induction turns generalizing i s with
  | zero => exact ⟨s.payloads, rfl⟩
  | succ turns ih =>
    rw [finishPayloads]
    by_cases hnone : (s.proposedVcpis i).isNone
    · rw [if_pos hnone]
      exact ih (i + 1) s
    · rw [if_neg hnone]
      cases (s.payloads i).payloadState with
      | zero | payloadRemote => exact ih (i + 1) s
      | payloadLocal =>
        by_cases hneg : send i < 0
        · rw [if_pos hneg, if_pos (by omega)]
          exact ⟨s.payloads, rfl⟩
        · split_ifs
          · exact ⟨_, rfl⟩
          · exact ih (i + 1) (s.setPayload i { s.payloads i with payloadState := .payloadRemote })
      | payloadDeleteLocal =>
        exact ih (i + 1) (s.setPayload i { s.payloads i with payloadState := .zero })

/-! ## Ports that come and go -/

@[simp] lemma vcpi_put (port : Port P) : port.put.vcpi.vcpi = port.vcpi.vcpi := by
  unfold Port.put Port.destroy
  dsimp only
  split_ifs <;> rfl

lemma inv_of_none (hmask : s.payloadMask = fun bit => decide (bit = 0))
    (hvcpi : s.vcpiMask = fun _ => false)
    (hnone : ∀ i, i < s.maxPayloads → s.proposedVcpis i = none)
    (hzero : ∀ p, (s.ports p).vcpi.vcpi = 0) : Inv s where
  slots := fun i hi => by simp [hmask, hnone i hi]
  numbers := fun v => by simp [hvcpi, hzero]
  distinct := fun p q hpos => by
    rw [hzero p] at hpos
    omega
  once := fun i j p hi _ hp => by
    rw [hnone i hi] at hp
    cases hp
  owner := fun i p hi hp => by
    rw [hnone i hi] at hp
    cases hp
  alive := fun i p hi hp => by
    rw [hnone i hi] at hp
    cases hp
  first := by simp [hmask]
  live := fun p hpos => by
    rw [hzero p] at hpos
    omega

lemma Inv.switchOn (h : Inv s) (answer : Answer) : Inv (s.switchOn answer).1 := by
  have hon : ∀ (pbnDiv : ℤ) (mstPrimary : Bool), (s.mstPrimary = true → mstPrimary = true) →
      Inv { s with mstState := true, pbnDiv := pbnDiv, mstPrimary := mstPrimary } := by
    intro pbnDiv mstPrimary hprimary
    refine h.of_eq rfl rfl rfl rfl (fun _ => rfl) (fun q _ hq => ?_)
    unfold valid at hq ⊢
    rw [Bool.and_eq_true] at hq ⊢
    exact ⟨hprimary hq.1, hq.2⟩
  unfold Mgr.switchOn
  by_cases hread : answer.read ≠ receiverCapSize
  · rw [if_pos hread]
    exact hon s.pbnDiv s.mstPrimary id
  · rw [if_neg hread]
    cases answer.payloadBw with
    | none => exact hon s.pbnDiv s.mstPrimary id
    | some pbnDiv =>
      dsimp only
      by_cases halloc : answer.alloc = true
      · rw [if_pos halloc]
        exact hon pbnDiv true fun _ => rfl
      · rw [if_neg halloc]
        exact hon pbnDiv s.mstPrimary id

lemma Inv.switchOff (h : Inv s) (hzero : ∀ p, (s.ports p).vcpi.vcpi = 0) : Inv s.switchOff := by
  refine inv_of_none rfl rfl (fun i hi => ?_) (fun p => ?_)
  · cases hp : s.proposedVcpis i with
    | none => exact hp
    | some p =>
      have hpos := h.owner i p hi hp
      rw [hzero p] at hpos
      omega
  · unfold Mgr.switchOff
    dsimp only
    split_ifs <;> simp [hzero p]

lemma Inv.vcpi_eq_zero (h : Inv s) (hplace : (s.ports p).place ≠ .topology) :
    (s.ports p).vcpi.vcpi = 0 := by
  by_contra hpos
  have hvalid := h.live p (by omega)
  simp [valid, hplace] at hvalid

section Ports

variable [DecidableEq P]

lemma Inv.addPort (h : Inv s) {parent : Option P} {input : Bool}
    (hs' : s.addPort p parent input = some s') : Inv s' := by
  unfold Mgr.addPort at hs'
  split_ifs at hs' with hfree
  cases hs'
  have hnone := h.vcpi_eq_zero (p := p) (by simp [hfree.2.1])
  refine h.of_eq rfl rfl rfl rfl (fun q => ?_) (fun q hpos hq => ?_)
  · by_cases hqp : q = p
    · rw [hqp, hnone]
      simp
    · simp [hqp]
  · have hqp : q ≠ p := by
      rintro rfl
      omega
    rw [← hq]
    simp [valid, hqp]

lemma Inv.dropBehind (h : Inv s) (p : P) : Inv (s.dropBehind p) := by
  refine h.of_eq rfl rfl rfl rfl (fun q => ?_) (fun q _ hq => ?_)
  · unfold Mgr.dropBehind
    dsimp only
    split_ifs <;> simp
  · unfold valid Mgr.dropBehind at *
    rw [Bool.and_eq_true, decide_eq_true_eq] at hq ⊢
    refine ⟨hq.1, ?_⟩
    dsimp only
    rw [if_neg (by simp [hq.2])]
    exact hq.2

lemma Inv.destroyConnectorWork (h : Inv s) {write : ℕ → Bool}
    (hs' : s.destroyConnectorWork p write = some s') : Inv s' := by
  unfold Mgr.destroyConnectorWork at hs'
  split_ifs at hs' with hlist
  cases hs'
  have hbehind := h.dropBehind p
  have hplace : ((s.dropBehind p).ports p).place = .destroyList := by
    unfold Mgr.dropBehind
    simp [hlist]
  have hnone := hbehind.vcpi_eq_zero (p := p) (by simp [hplace])
  rw [giveBack, if_neg (by omega)]
  refine hbehind.of_eq rfl rfl rfl rfl (fun q => ?_) (fun q hpos hq => ?_)
  · by_cases hqp : q = p
    · rw [hqp]
      simp [freePort]
    · simp [freePort, hqp]
  · have hqp : q ≠ p := by
      rintro rfl
      omega
    rw [← hq]
    simp [freePort, valid, hqp]

lemma Inv.call (h : Inv s) (c : Call P) (hcareful : s.Careful c) (hs' : call c s = some s') :
    Inv s' := by
  cases c with
  | allocateVcpi p pbn slots =>
    cases hs'
    exact h.allocateVcpi p pbn slots hcareful
  | resetVcpiSlots p =>
    cases hs'
    unfold Mgr.resetVcpiSlots
    split_ifs
    · exact h.setVcpi p _ rfl
    · exact h
  | deallocateVcpi p =>
    cases hs'
    exact h.deallocateVcpi p
  | updatePayloadPart1 write =>
    cases hs'
    exact h.updatePayloadPart1 write hcareful
  | updatePayloadPart2 send =>
    cases hs'
    obtain ⟨payloads, hpayloads⟩ := finishPayloads_spec send s.maxPayloads 0 s
    rw [updatePayloadPart2, hpayloads]
    exact h.of_eq rfl rfl rfl rfl (fun _ => rfl) fun _ _ hq => hq
  | setMst mstState answer =>
    cases hs'
    unfold Mgr.setMst
    split_ifs with hsame hon
    · exact h
    · exact h.switchOn answer
    · obtain rfl : mstState = false := by simpa using hon
      exact h.switchOff (hcareful (by simpa using hsame))
  | addPort p parent input => exact h.addPort hs'
  | destroyConnectorWork p write => exact h.destroyConnectorWork hs'

end Ports

end Mgr

variable {P : Type} [DecidableEq P]

/-- **The masks and the entries agree** in every state that a run of careful calls reaches, for any
ports and any number of payloads. -/
theorem payload_consistent {n : ℕ} {s : Mgr P}
    (h : Machine.Runs call Mgr.Careful { maxPayloads := n } s) : s.Consistent := by
  have hinv : s.Inv := by
    refine Machine.Runs.invariant (P := Mgr.Inv) ?_ ?_ h
    · exact Mgr.inv_of_none rfl rfl (fun _ _ => rfl) fun _ => rfl
    · exact fun s c s' hs hcareful hs' => hs.call c hcareful hs'
  exact hinv.toConsistent

/-- A device that can be switched on. -/
def soundAnswer : Mgr.Answer where
  read := Mgr.receiverCapSize
  payloadBw := some 10
  alloc := true
  write := 1

/-- Two ports get slots, the first one gives its slots back, and then its number. -/
def twoPortCalls : List (Call (Fin 2)) :=
  [.setMst true soundAnswer, .addPort 0 none false, .addPort 1 (some 0) false,
    .allocateVcpi 0 100 10, .allocateVcpi 1 50 5, .updatePayloadPart1 fun _ => true,
    .updatePayloadPart2 fun _ => 0, .resetVcpiSlots 0, .updatePayloadPart1 fun _ => true,
    .deallocateVcpi 0]

/-- The masks and the entries agree when the second port has moved to the first slot. -/
theorem payload_consistent_twoPorts : ∃ s : Mgr (Fin 2),
    Machine.execIf call Mgr.Careful { maxPayloads := 3 } twoPortCalls = some s ∧
      s.proposedVcpis 0 = some 1 ∧ (s.ports 1).vcpi.vcpi = 2 ∧ s.Consistent := by
  obtain ⟨s, hs, hobs⟩ := Option.map_eq_some_iff.1
    (show (Machine.execIf call Mgr.Careful { maxPayloads := 3 } twoPortCalls).map
      (fun s => (s.proposedVcpis 0, (s.ports 1).vcpi.vcpi)) = some (some 1, 2) by decide +kernel)
  rw [Prod.mk.injEq] at hobs
  exact ⟨s, hs, hobs.1, hobs.2, payload_consistent (Machine.execIf_runs hs)⟩

/-- The device is switched on, and two ports are found. -/
def twoPorts : List (Call (Fin 3)) :=
  [.setMst true soundAnswer, .addPort 0 none false, .addPort 1 none false]

/-- **The masks and the entries can disagree.** A port that is allocated again for another bandwidth
is proposed twice and leaves its first number without a port. If two ports have given their slots
back, an update of the table clears the bit of a slot that is still proposed. After the manager is
switched off, the entries of its ports stay; and if it is switched on again, the worker then gives
back the number of a new port, so that two ports get the same one. -/
theorem payload_inconsistent :
    (∃ s, Machine.exec call { maxPayloads := 3 } (twoPorts ++
        [.allocateVcpi 0 100 10, .allocateVcpi 0 200 20]) = some s ∧
      s.proposedVcpis 0 = some 0 ∧ s.proposedVcpis 1 = some 0 ∧ s.vcpiMask 0 = true ∧
      ∀ p, (s.ports p).vcpi.vcpi ≠ 1) ∧
    (∃ s, Machine.exec call { maxPayloads := 3 } (twoPorts ++
        [.allocateVcpi 0 100 10, .allocateVcpi 1 50 5, .updatePayloadPart1 fun _ => true,
          .resetVcpiSlots 0, .resetVcpiSlots 1, .updatePayloadPart1 fun _ => true]) = some s ∧
      s.payloadMask 1 = false ∧ s.proposedVcpis 0 = some 1) ∧
    (∃ s, Machine.exec call { maxPayloads := 3 } (twoPorts ++
        [.allocateVcpi 0 100 10, .setMst false soundAnswer]) = some s ∧
      s.payloadMask 1 = false ∧ s.proposedVcpis 0 = some 0 ∧
      (s.ports 0).place = .destroyList) ∧
    ∃ s, Machine.exec call { maxPayloads := 3 } (twoPorts ++
        [.allocateVcpi 0 100 10, .setMst false soundAnswer, .setMst true soundAnswer,
          .destroyConnectorWork 1 fun _ => true, .addPort 1 none false, .allocateVcpi 1 100 10,
          .destroyConnectorWork 0 fun _ => true, .addPort 2 none false,
          .allocateVcpi 2 100 10]) = some s ∧
      (s.ports 1).vcpi.vcpi = 1 ∧ (s.ports 2).vcpi.vcpi = 1 ∧ s.valid 1 = true ∧
      s.valid 2 = true := by
  refine ⟨⟨_, rfl, ?_⟩, ⟨_, rfl, ?_⟩, ⟨_, rfl, ?_⟩, ⟨_, rfl, ?_⟩⟩ <;> decide +kernel

end KmsDrm.DpMst
