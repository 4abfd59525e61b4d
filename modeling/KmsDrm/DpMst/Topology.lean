import KmsDrm.DpMst.Sideband.Header

/-!
# Branch devices by their address

A branch device is addressed by the numbers of the ports on the way to it, four bits each. If a
branch device has no port with the next number, `drm_dp_get_mst_branch_device` goes on with the same
branch device. The address of a new branch device is computed in a buffer of six bytes, which is too
small behind a way of more than eleven ports.

## Main definitions

* `DpMst.Topology.getMstBranchDevice`, `DpMst.calculateRad` — the lookup and the address.

## Main results

* `DpMst.branch_lookup_iff` — when both are right.
-/

namespace KmsDrm.DpMst

open Function (update update_of_ne update_self)

/-- A port with the branch device behind it. -/
structure BranchPort (B : Type) where
  portNum : ℕ
  mstb : Option B

/-- The ports of the branch devices. `drm_dp_add_port` adds a port for a new number only. -/
structure Topology (B : Type) where
  ports : B → List (BranchPort B)
  unique : ∀ b, ((ports b).map BranchPort.portNum).Nodup

/-- The port number of hop `i` of an address. -/
def hop (rad : ℕ → Byte) (i : ℕ) : ℕ :=
  let shift := if i % 2 ≠ 0 then 0 else 4
  (rad (i / 2) >>> shift &&& 0xf).toNat

/-- The path that an address encodes. -/
def hops (lct : ℕ) (rad : ℕ → Byte) : List ℕ := (List.range (lct - 1)).map (hop rad)

/-- `drm_dp_calculate_rad`, with the buffer `rad` of its caller. -/
def calculateRad (parentLct : ℕ) (parentRad : ℕ → Byte) (portNum : ℕ) (rad : ℕ → Byte) :
    (ℕ → Byte) × ℕ :=
  let idx := (parentLct - 1) / 2
  let shift := if 1 < parentLct then if parentLct % 2 ≠ 0 then 4 else 0 else 4
  let rad := if 1 < parentLct then fun i => if i < idx + 1 then parentRad i else rad i
    else update rad 0 0
  (update rad idx (rad idx ||| BitVec.ofNat 8 portNum <<< shift), (parentLct + 1) % 256)

lemma calculateRad_inside_iff (parentLct : ℕ) (parentRad : ℕ → Byte) (portNum : ℕ) :
    (∀ rad i, 6 ≤ i → (calculateRad parentLct parentRad portNum rad).1 i = rad i) ↔
      parentLct ≤ 12 := by
  constructor
  · intro h
    by_contra hlct
    have hzero := h (fun _ => 0) ((parentLct - 1) / 2) (by omega)
    have hone := h (fun _ => 1) ((parentLct - 1) / 2) (by omega)
    simp only [calculateRad, update_self, if_pos (show 1 < parentLct by omega),
      if_pos (Nat.lt_succ_self _)] at hzero hone
    exact absurd (hzero.symm.trans hone) (by decide)
  · intro hlct rad i hi
    simp only [calculateRad]
    rw [update_of_ne (by omega)]
    split_ifs
    · exact if_neg (by omega)
    · exact update_of_ne (by omega) _ _

namespace Topology

variable {B : Type} (T : Topology B)

/-- The loop of `drm_dp_get_mst_branch_device`. -/
def iterateDown : List ℕ → B → Option B
  | [], mstb => some mstb
  | portNum :: hops, mstb =>
    match (T.ports mstb).find? fun port => port.portNum = portNum with
    | none => iterateDown hops mstb
    | some port => port.mstb.bind (iterateDown hops)

/-- `drm_dp_get_mst_branch_device`, with the primary branch device `mstb`. -/
def getMstBranchDevice (mstb : B) (lct : ℕ) (rad : ℕ → Byte) : Option B :=
  T.iterateDown (hops lct rad) mstb

/-- The path leads from `mstb` to `c`. -/
def At : List ℕ → B → B → Prop
  | [], mstb, c => mstb = c
  | portNum :: path, mstb, c =>
    ∃ port ∈ T.ports mstb, port.portNum = portNum ∧ ∃ b ∈ port.mstb, At path b c

/-- Each hop has a port, up to a port without a branch device if there is one. -/
def Matched : List ℕ → B → Prop
  | [], _ => True
  | portNum :: path, mstb =>
    ∃ port ∈ T.ports mstb, port.portNum = portNum ∧ ∀ b ∈ port.mstb, Matched path b

/-- The path leads to a port without a branch device, if the hops without a port are left out. -/
def DeadEnd : List ℕ → B → Prop
  | [], _ => False
  | portNum :: path, mstb =>
    (∃ port ∈ T.ports mstb, port.portNum = portNum ∧ ∀ b ∈ port.mstb, DeadEnd path b) ∨
      (∀ port ∈ T.ports mstb, port.portNum ≠ portNum) ∧ DeadEnd path mstb

section Find

variable {T} {mstb : B} {portNum : ℕ}

lemma exists_port_iff {port : BranchPort B}
    (hfind : (T.ports mstb).find? (fun port => port.portNum = portNum) = some port)
    (X : BranchPort B → Prop) :
    (∃ p ∈ T.ports mstb, p.portNum = portNum ∧ X p) ↔ X port := by
  have hmem := List.mem_of_find?_eq_some hfind
  have hnum : port.portNum = portNum := by simpa using List.find?_some hfind
  refine ⟨fun ⟨p, hp, hp', hX⟩ => ?_, fun hX => ⟨port, hmem, hnum, hX⟩⟩
  rwa [List.inj_on_of_nodup_map (T.unique mstb) hp hmem (hp'.trans hnum.symm)] at hX

lemma not_exists_port (hno : ∀ port ∈ T.ports mstb, port.portNum ≠ portNum)
    (X : BranchPort B → Prop) : ¬ ∃ p ∈ T.ports mstb, p.portNum = portNum ∧ X p :=
  fun ⟨p, hp, hnum, _⟩ => hno p hp hnum

end Find

lemma iterateDown_eq_none_iff (path : List ℕ) (mstb : B) :
    T.iterateDown path mstb = none ↔ T.DeadEnd path mstb := by
  induction path generalizing mstb with
  | nil => simp [iterateDown, DeadEnd]
  | cons portNum path ih =>
    rw [iterateDown, DeadEnd]
    cases hfind : (T.ports mstb).find? fun port => port.portNum = portNum with
    | none =>
      have hno : ∀ port ∈ T.ports mstb, port.portNum ≠ portNum := by simpa using hfind
      simp only [ih, not_exists_port hno, false_or, and_iff_right hno]
    | some port =>
      have hport := (exists_port_iff hfind fun _ => True).2 trivial
      rw [exists_port_iff hfind, or_iff_left fun h => not_exists_port h.1 _ hport]
      simp [ih]

lemma iterateDown_iff (path : List ℕ) (mstb : B) :
    (∀ c, T.iterateDown path mstb = some c ↔ T.At path mstb c) ↔
      T.Matched path mstb ∨ T.DeadEnd path mstb := by
  rw [← iterateDown_eq_none_iff]
  induction path generalizing mstb with
  | nil => simp [iterateDown, At, Matched]
  | cons portNum path ih =>
    simp only [iterateDown, At, Matched]
    cases hfind : (T.ports mstb).find? fun port => port.portNum = portNum with
    | none =>
      have hno : ∀ port ∈ T.ports mstb, port.portNum ≠ portNum := by simpa using hfind
      simp only [not_exists_port hno, iff_false, false_or]
      exact Option.eq_none_iff_forall_ne_some.symm
    | some port =>
      simp only [exists_port_iff hfind]
      cases port.mstb with
      | none => simp
      | some b => simpa using ih b

end Topology

/-- **A lookup along ports that are there**: it finds the branch device at the end of the path, and
nothing if a port on the way has none behind it. -/
theorem getMstBranchDevice_of_matched {B : Type} (T : Topology B) {mstb : B} {lct : ℕ}
    {rad : ℕ → Byte} (h : T.Matched (hops lct rad) mstb) (c : B) :
    T.getMstBranchDevice mstb lct rad = some c ↔ T.At (hops lct rad) mstb c :=
  (T.iterateDown_iff _ _).2 (.inl h) c

/-- **When a lookup finds the branch device of an address.** It finds the branch device at the end
of the path that the address encodes, or nothing if there is none, and the address of a new branch
device is written inside of its buffer, if and only if every hop the lookup comes to has a port or
it ends at a port without a branch device, and the parent is at most eleven ports away. -/
theorem branch_lookup_iff {B : Type} (T : Topology B) (mstb : B) (lct : ℕ) (rad : ℕ → Byte)
    (parentLct : ℕ) (parentRad : ℕ → Byte) (portNum : ℕ) :
    ((∀ c, T.getMstBranchDevice mstb lct rad = some c ↔ T.At (hops lct rad) mstb c) ∧
      ∀ buf i, 6 ≤ i → (calculateRad parentLct parentRad portNum buf).1 i = buf i) ↔
    (T.Matched (hops lct rad) mstb ∨ T.DeadEnd (hops lct rad) mstb) ∧ parentLct ≤ 12 :=
  and_congr (T.iterateDown_iff _ _) (calculateRad_inside_iff ..)

/-- Fourteen branch devices in a row, each behind port 1 of the one before. -/
def branchRow : Topology ℕ where
  ports b := if b < 13 then [⟨1, some (b + 1)⟩] else []
  unique b := by split <;> simp

/-- **A lookup that strays and an address that is too long.** The primary branch device has no port
2, and the lookup of that port gives the primary branch device itself. The address of the last
branch device takes the byte behind the buffer. -/
theorem branch_lookup_stray :
    branchRow.getMstBranchDevice 0 2 (fun _ => 0x20) = some 0 ∧
      (∀ c, ¬ branchRow.At (hops 2 fun _ => 0x20) 0 c) ∧
      branchRow.getMstBranchDevice 0 13 (fun _ => 0x11) = some 12 ∧
      (calculateRad 13 (fun i => if i < 6 then 0x11 else 0) 1 fun _ => 0).1 6 = 0x10 := by
  refine ⟨rfl, fun c => ?_, rfl, rfl⟩
  rintro ⟨port, hport, hnum, -⟩
  cases List.mem_singleton.1 hport
  cases hnum

end KmsDrm.DpMst
