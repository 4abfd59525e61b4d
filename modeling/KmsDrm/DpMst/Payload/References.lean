import KmsDrm.DpMst.Payload.Invariant

/-!
# The reference that an allocation takes

`drm_dp_mst_allocate_vcpi` takes a reference to its port first. It drops the reference when it
succeeds, and keeps it when it fails after the port was found. If the tables are full, the port is
left with the bandwidth and the slots that it did not get.

## Main results

* `DpMst.allocate_vcpi_balanced_iff` — when an allocation leaves the references as they were.
-/

namespace KmsDrm.DpMst

open KmsDrm.Lib
open Function (update update_idem update_self)

namespace Mgr

variable {P : Type}

/-- The `vcpi` of the port and the tables of the manager are as before. -/
structure Unchanged (s : Mgr P) (p : P) (s' : Mgr P) : Prop where
  vcpi : (s'.ports p).vcpi = (s.ports p).vcpi
  payloadMask : s'.payloadMask = s.payloadMask
  vcpiMask : s'.vcpiMask = s.vcpiMask
  proposedVcpis : s'.proposedVcpis = s.proposedVcpis
  payloads : s'.payloads = s.payloads

/-- A slot of the table and a number are free. -/
def HasRoom (s : Mgr P) : Prop :=
  (∃ bit ≤ s.maxPayloads, s.payloadMask bit = false) ∧
    ∃ bit ≤ s.maxPayloads, s.vcpiMask bit = false

lemma findFirstZeroBit_le_iff {mask : ℕ → Bool} {n : ℕ} :
    findFirstZeroBit mask (n + 1) ≤ n ↔ ∃ bit ≤ n, mask bit = false := by
  refine ⟨fun h => ⟨_, h, findFirstZeroBit_spec rfl (by omega)⟩, fun ⟨bit, hbit, hmask⟩ => ?_⟩
  unfold findFirstZeroBit
  cases hfind : (List.range (n + 1)).find? fun bit => !mask bit with
  | none =>
    have := List.find?_eq_none.1 hfind bit (List.mem_range.2 (by omega))
    simp [hmask] at this
  | some found => exact Nat.lt_succ_iff.1 (List.mem_range.1 (List.mem_of_find?_eq_some hfind))

variable [DecidableEq P] {s : Mgr P} {p : P} {pbn slots : ℤ}

/-- `drm_dp_get_validated_port_ref`. -/
def getValidatedPortRef (s : Mgr P) (p : P) : Option (Mgr P) :=
  if s.valid p then some (s.leak p) else none

/-- `drm_dp_put_port`. -/
def putPort (s : Mgr P) (p : P) : Mgr P :=
  let port := { s.ports p with kref := (s.ports p).kref - 1 }
  { s with ports := update s.ports p (if port.kref = 0 then port.destroy else port) }

/-- `drm_dp_mst_allocate_vcpi` with the reference that it takes and drops. -/
def allocateVcpiRef (s : Mgr P) (p : P) (pbn slots : ℤ) : Mgr P × Bool :=
  match s.getValidatedPortRef p with
  | none => (s, false)
  | some s =>
    if slots < 0 then (s, false)
    else if 0 < (s.ports p).vcpi.vcpi ∧ pbn = (s.ports p).vcpi.pbn then (s.putPort p, true)
    else
      let (s', ret) := s.initVcpi p pbn slots
      if ret ≠ 0 then (s', false) else (s'.putPort p, true)

lemma putPort_kref (s : Mgr P) (p : P) :
    ((s.putPort p).ports p).kref = (s.ports p).kref - 1 := by
  simp only [putPort, update_self, Port.destroy]
  split_ifs <;> rfl

lemma assignPayloadId_spec (s : Mgr P) (p : P) :
    ((s.assignPayloadId p).1.ports p).kref = (s.ports p).kref ∧
      (0 ≤ (s.assignPayloadId p).2 ↔ s.HasRoom) := by
  rw [HasRoom, ← findFirstZeroBit_le_iff, ← findFirstZeroBit_le_iff]
  simp only [assignPayloadId, einval]
  split_ifs
  · exact ⟨rfl, by omega⟩
  · exact ⟨rfl, by omega⟩
  · exact ⟨by simp [assign, setVcpi], by omega⟩

lemma initVcpi_spec (s : Mgr P) (p : P) (pbn slots : ℤ) :
    ((s.initVcpi p pbn slots).1.ports p).kref = (s.ports p).kref ∧
      ((s.initVcpi p pbn slots).2 = 0 ↔ slots ≤ 63 ∧ s.HasRoom) := by
  unfold initVcpi
  split_ifs with hslots
  · exact ⟨rfl, by simp only [enospc]; omega⟩
  · obtain ⟨hkref, hret⟩ := assignPayloadId_spec
      (s.setVcpi p ⟨(s.ports p).vcpi.vcpi, pbn, slots * s.pbnDiv, slots⟩) p
    refine ⟨hkref.trans (by simp [setVcpi]), Iff.trans ?_ (and_congr_right fun _ => hret)⟩
    dsimp only
    split_ifs <;> omega

lemma initVcpi_leak (s : Mgr P) (p : P) (pbn slots : ℤ) :
    (s.leak p).initVcpi p pbn slots =
      ((s.initVcpi p pbn slots).1.leak p, (s.initVcpi p pbn slots).2) := by
  simp only [initVcpi, assignPayloadId, leak, assign, setVcpi, update_self]
  split_ifs <;> simp

lemma putPort_leak (h : 0 < (s.ports p).kref) : (s.leak p).putPort p = s := by
  simp [leak, putPort, h.ne']

/-- The model without the reference that is dropped again says the same. -/
lemma allocateVcpiRef_eq (h : 0 < (s.ports p).kref) :
    s.allocateVcpiRef p pbn slots = s.allocateVcpi p pbn slots := by
  have hvcpi : ((s.leak p).ports p).vcpi = (s.ports p).vcpi := by simp [leak]
  have hkref := h.trans_eq (initVcpi_spec s p pbn slots).1.symm
  unfold allocateVcpiRef allocateVcpi getValidatedPortRef
  cases s.valid p with
  | false => rfl
  | true => simp only [if_true, hvcpi, putPort_leak h, initVcpi_leak, putPort_leak hkref]

end Mgr

/-- **An allocation is balanced if it does not fail.** The port has as many references as before,
and after a failure it and the tables are as before, if and only if the port is not found, or it has
a number for the bandwidth already, or there are enough slots and there is room in the tables. -/
theorem allocate_vcpi_balanced_iff {P : Type} [DecidableEq P] (s : Mgr P) (p : P) (pbn slots : ℤ) :
    (((s.allocateVcpiRef p pbn slots).1.ports p).kref = (s.ports p).kref ∧
      ((s.allocateVcpiRef p pbn slots).2 = false →
        s.Unchanged p (s.allocateVcpiRef p pbn slots).1)) ↔
    (s.valid p = true → 0 ≤ slots ∧
      (0 < (s.ports p).vcpi.vcpi ∧ pbn = (s.ports p).vcpi.pbn ∨ slots ≤ 63 ∧ s.HasRoom)) := by
  obtain ⟨hinit, hret⟩ := Mgr.initVcpi_spec s p pbn slots
  have hkref : ∀ s : Mgr P, ((s.leak p).ports p).kref = (s.ports p).kref + 1 := by simp [Mgr.leak]
  have hvcpi : ((s.leak p).ports p).vcpi = (s.ports p).vcpi := by simp [Mgr.leak]
  unfold Mgr.allocateVcpiRef Mgr.getValidatedPortRef
  cases s.valid p with
  | false =>
    exact ⟨fun _ h => absurd h Bool.false_ne_true,
      fun _ => ⟨rfl, fun _ => ⟨rfl, rfl, rfl, rfl, rfl⟩⟩⟩
  | true =>
    simp only [if_true, hvcpi, Mgr.initVcpi_leak, forall_const]
    split_ifs with hneg hsame hfail
    · -- the exits that fail keep the reference
      rw [hkref]
      exact ⟨fun h => by omega, fun h => by omega⟩
    · rw [Mgr.putPort_kref, hkref]
      exact ⟨fun _ => ⟨by omega, .inl hsame⟩, fun _ => ⟨rfl, fun h => absurd h (by decide)⟩⟩
    · rw [hkref]
      exact ⟨fun h => by omega, fun h => absurd (hret.2 (h.2.resolve_left hsame)) hfail⟩
    · rw [Mgr.putPort_kref, hkref, hinit]
      exact ⟨fun _ => ⟨by omega, .inr (hret.1 (not_not.1 hfail))⟩,
        fun _ => ⟨rfl, fun h => absurd h (by decide)⟩⟩

/-- **An allocation that fails keeps its reference.** It is kept if the slots are negative, as when
`drm_dp_find_vcpi_slots` failed, and if the table is full, when the port gets the slots as well. -/
theorem allocate_vcpi_unbalanced :
    (∃ s, Machine.exec call { maxPayloads := 1 } twoPorts = some s ∧ (s.ports 1).kref = 1 ∧
      (s.allocateVcpiRef 1 100 (-enospc)).2 = false ∧
      ((s.allocateVcpiRef 1 100 (-enospc)).1.ports 1).kref = 2) ∧
    ∃ s, Machine.exec call { maxPayloads := 1 } (twoPorts ++ [.allocateVcpi 0 100 10]) = some s ∧
      (s.ports 1).kref = 1 ∧ (s.ports 1).vcpi = {} ∧ (s.allocateVcpiRef 1 50 5).2 = false ∧
      ((s.allocateVcpiRef 1 50 5).1.ports 1).kref = 2 ∧
      ((s.allocateVcpiRef 1 50 5).1.ports 1).vcpi.numSlots = 5 := by
  refine ⟨⟨_, rfl, ?_⟩, _, rfl, ?_⟩ <;> decide +kernel

end KmsDrm.DpMst
