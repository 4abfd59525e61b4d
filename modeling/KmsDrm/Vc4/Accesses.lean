import KmsDrm.Vc4.Clamp

/-!
# The arrays of the shader validation

While it validates a shader, the kernel indexes four arrays with what it finds in it: the
instructions of the object, the bitmap of branch targets, which has a bit for each of them, and the
three arrays of `LIVE_REG_COUNT` registers. This file lists every such access of
`vc4_validate_shader`, also those it makes before it rejects the shader, and says for which shaders
all of them stay inside of the arrays.

Two things are not checked by the validation. The end of the program sets `max_ip` three
instructions further, also when the object ends before; and the first operand of the ADD half may
be read from any of the 64 addresses of the file B, while the arrays end with the accumulators.

## Main definitions

* `Vc4.validateShaderAccesses` — the list of the accesses.

## Main results

* `Vc4.validate_accesses_inside_iff` — when all of them are inside.
-/

namespace KmsDrm.Vc4

open List

/-! ## Accesses -/

/-- An access to `shader`, to a bit of `branch_targets`, or to one of `live_min_clamp_offsets`,
`live_max_clamp_regs` and `live_immediates`. -/
inductive ArrayAccess where
  | shader (ip : ℕ)
  | branchTarget (ip : ℕ)
  | live (lri : ℕ)
  deriving DecidableEq, Repr

/-- The access is inside of its array, for an object of `n` instructions. -/
def ArrayAccess.Inside (n : ℕ) : ArrayAccess → Prop
  | .shader ip => ip < n
  | .branchTarget ip => ip < n
  | .live lri => lri < liveRegCount

instance ArrayAccess.decidableInside (n : ℕ) : DecidablePred (ArrayAccess.Inside n)
  | .shader ip => inferInstanceAs (Decidable (ip < n))
  | .branchTarget ip => inferInstanceAs (Decidable (ip < n))
  | .live lri => inferInstanceAs (Decidable (lri < liveRegCount))

/-- The access to a register, if there is one. -/
def liveAccess : Option ℕ → List ArrayAccess
  | none => []
  | some lri => [.live lri]

/-! ### The first pass -/

/-- What `vc4_validate_branches` checks of a branch before it marks its target. -/
def MarksTarget (inst : Inst) (ip : ℕ) (s : BranchScan) : Prop :=
  4 ≤ (ip : ℤ) - s.lastBranch ∧ inst.branchReg = false ∧ inst.branchRel = true ∧
    inst.branchTarget % 8 = 0 ∧ branchTargetIp inst ip < s.maxIp

instance MarksTarget.decidable (inst : Inst) (ip : ℕ) (s : BranchScan) :
    Decidable (MarksTarget inst ip s) :=
  inferInstanceAs (Decidable (_ ∧ _))

/-- The accesses of the body of the loop of `vc4_validate_branches`. The target of a branch is
marked before the instruction behind the delay slots is compared with `max_ip`. -/
def scanBranchAccesses (inst : Inst) (ip : ℕ) (s : BranchScan) : List ArrayAccess :=
  .shader ip ::
    if inst.sig = .branch ∧ MarksTarget inst ip s then
      .branchTarget (branchTargetIp inst ip) ::
        if ip + 4 < s.maxIp then [.branchTarget (ip + 4)] else []
    else []

/-- The accesses of the loop of `vc4_validate_branches` from `ip` on. -/
def scanBranchesAccesses (mem : ℕ → Inst) : ℕ → ℕ → BranchScan → List ArrayAccess
  | 0, _, _ => []
  | fuel + 1, ip, s =>
    if ip < s.maxIp then
      scanBranchAccesses (mem ip) ip s ++
        (scanBranch (mem ip) ip s).elim [] (scanBranchesAccesses mem fuel (ip + 1))
    else []

/-- The variables of `vc4_validate_branches` at its start. -/
def initScan (bo : ShaderBo) : BranchScan where
  maxIp := bo.len
  branchTargets _ := false
  maxBranchTarget := 0
  lastBranch := -2

/-! ### The second pass -/

/-- The signal is one of those for which the loop of `vc4_validate_shader` checks the writes. -/
def Sig.ChecksWrites (sig : Sig) : Prop :=
  sig ≠ .branch ∧ sig ≠ .swBreakpoint ∧ sig ≠ .coverageLoad ∧ sig ≠ .colorLoadEnd ∧
    sig ≠ .alphaMaskLoad

instance Sig.decidableChecksWrites : DecidablePred Sig.ChecksWrites :=
  fun _ => inferInstanceAs (Decidable (_ ∧ _))

/-- The access of `check_tmu_write`: the bound of the first operand of a direct read. -/
def tmuWriteAccesses (inst : Inst) (isMul : Bool) (c : Checked) : List ArrayAccess :=
  let waddr := waddrOf inst isMul
  if isTmuSubmit waddr ∧ c.state.tmuWriteCount (wTmu0B < waddr) = 0 ∧ inst.sig ≠ .smallImm ∧
      isMul = false ∧ inst.opAdd = .add then
    liveAccess (raddrAddAToLiveRegIndex inst)
  else []

/-- The access of `validate_uniform_address_write`: the immediate in its first operand. -/
def uniformAddressAccesses (inst : Inst) (isMul : Bool) : List ArrayAccess :=
  if (inst.sig = .none ∨ inst.sig = .scoreboardUnlock ∨ inst.sig = .colorLoad ∨
      inst.sig = .loadTmu0 ∨ inst.sig = .loadTmu1) ∧ isMul = false ∧ inst.opAdd = .add ∧
      inst.condAdd = .always ∧ (inst.pack = 0 ∨ inst.pm) then
    liveAccess (raddrAddAToLiveRegIndex inst)
  else []

/-- The accesses of `check_reg_write`. -/
def regWriteAccesses (inst : Inst) (isMul : Bool) (c : Checked) : List ArrayAccess :=
  let waddr := waddrOf inst isMul
  liveAccess (waddrToLiveRegIndex waddr (isMul ^^ inst.ws)) ++
    if waddr = wUniformsAddress then
      if isMul ^^ inst.ws then [] else uniformAddressAccesses inst isMul
    else if isTmuWrite waddr then tmuWriteAccesses inst isMul (trackImmediate inst isMul c)
    else []

/-- The accesses of `track_live_clamps`. -/
def liveClampAccesses (inst : Inst) : List ArrayAccess :=
  liveAccess (raddrAddAToLiveRegIndex inst) ++
    (liveAccess (waddrToLiveRegIndex inst.waddrMul (!inst.ws)) ++
      liveAccess (waddrToLiveRegIndex inst.waddrAdd inst.ws))

/-- The accesses of `check_instruction_writes`, which tracks the clamps also of an instruction that
it rejects. -/
def instructionWritesAccesses (stray : Stray) (inst : Inst) (c : Checked) : List ArrayAccess :=
  if isTmuWrite inst.waddrAdd ∧ isTmuWrite inst.waddrMul then []
  else
    regWriteAccesses inst false c ++
      ((checkRegWrite stray inst false c).elim [] (regWriteAccesses inst true) ++
        liveClampAccesses inst)

/-- The accesses of `reset_validation_state`. -/
def resetAccesses : List ArrayAccess := (List.range liveRegCount).map .live

/-- The accesses of `vc4_handle_branch_target`. -/
def branchTargetAccesses (stray : Stray) (bo : ShaderBo) (ip : ℕ) (v : ValidationState) :
    List ArrayAccess :=
  .branchTarget ip ::
    if isBranchTarget stray bo v ip ∧ texturingInProgress v = false then resetAccesses else []

/-- The accesses of the body of the loop of `vc4_validate_shader`. -/
def instAccesses (stray : Stray) (bo : ShaderBo) (ip : ℕ) (l : LoopState) : List ArrayAccess :=
  .shader ip :: (branchTargetAccesses stray bo ip l.state ++
    (enterInst stray bo ip l).elim [] fun l =>
      (if (ip : ℤ) = l.lastThreadSwitchIp + 3 then
          (List.range (liveRegCount - 64)).map fun i => .live (64 + i)
        else []) ++
      if (bo.mem ip).sig.ChecksWrites then
        instructionWritesAccesses stray (bo.mem ip) l.toChecked
      else [])

/-- The accesses of the loop of `vc4_validate_shader` from `ip` on. -/
def validateInstsAccesses (stray : Stray) (bo : ShaderBo) : ℕ → ℕ → LoopState → List ArrayAccess
  | 0, _, _ => []
  | fuel + 1, ip, l =>
    if ip < l.state.maxIp then
      instAccesses stray bo ip l ++
        (validateInst stray bo ip l).elim [] fun l =>
          if l.foundShaderEnd ∧ ip = l.shaderEndIp + 2 then []
          else validateInstsAccesses stray bo fuel (ip + 1) l
    else []

/-- The accesses of `vc4_validate_shader`. -/
def validateShaderAccesses (stray : Stray) (bo : ShaderBo) : List ArrayAccess :=
  resetAccesses ++
    (scanBranchesAccesses bo.mem intFuel 0 (initScan bo) ++
      (validateBranches bo).elim [] fun scan =>
        validateInstsAccesses stray bo (scan.maxIp + 1) 0 (initLoop scan))

/-! ## What the validation does not check -/

/-- `s` are the variables of the loop of `vc4_validate_branches` before the instruction at `ip`. -/
inductive ScanAt (bo : ShaderBo) : ℕ → BranchScan → Prop
  | init : ScanAt bo 0 (initScan bo)
  | next {ip : ℕ} {s s' : BranchScan} (h : ScanAt bo ip s) (hip : ip < s.maxIp)
    (hpass : scanBranch (bo.mem ip) ip s = some s') : ScanAt bo (ip + 1) s'

/-- An end of the program that the first pass comes to is followed by its two instructions in the
object; or it is the last but one, and the last one is a branch that is rejected without a mark
behind the object. -/
def EndsFit (bo : ShaderBo) : Prop :=
  ∀ ip s, ScanAt bo ip s → ip < s.maxIp → ip < bo.len → IsEnd bo.mem ip →
    ip + 2 < bo.len ∨
      (ip + 2 = bo.len ∧ (bo.mem (ip + 1)).sig = .branch ∧
        ¬ (MarksTarget (bo.mem (ip + 1)) (ip + 1) { s with maxIp := ip + 3 } ∧
          branchTargetIp (bo.mem (ip + 1)) (ip + 1) = bo.len))

/-- The first operand of the ADD half is one of the registers that are tracked, if it is one of the
file B. -/
def OperandTracked (inst : Inst) : Prop :=
  inst.addA = .b → inst.sig ≠ .smallImm → inst.raddrB + 32 < liveRegCount

/-- Every instruction that the second pass comes to and whose writes it checks has such an operand,
unless both halves write to a texture unit, for which it is rejected at once. -/
def OperandsTracked (stray : Stray) (bo : ShaderBo) : Prop :=
  ∀ ip l l', LoopAt stray bo ip l → ip < l.state.maxIp → enterInst stray bo ip l = some l' →
    (bo.mem ip).sig.ChecksWrites →
    (isTmuWrite (bo.mem ip).waddrAdd = true ∧ isTmuWrite (bo.mem ip).waddrMul = true) ∨
      OperandTracked (bo.mem ip)

/-! ## The registers -/

section Registers

variable {stray : Stray} {bo : ShaderBo} {inst : Inst} {c : Checked} {n : ℕ}

lemma liveAccess_inside_iff {r : Option ℕ} :
    (∀ a ∈ liveAccess r, a.Inside n) ↔ ∀ lri, r = some lri → lri < liveRegCount := by
  cases r with
  | none => simp [liveAccess]
  | some lri => simp [liveAccess, ArrayAccess.Inside]

lemma waddrToLiveRegIndex_lt {waddr lri : ℕ} {isB : Bool}
    (h : waddrToLiveRegIndex waddr isB = some lri) : lri < liveRegCount := by
  unfold waddrToLiveRegIndex at h
  unfold wAcc3 wAcc0 at h
  unfold liveRegCount
  split_ifs at h <;> cases h <;> omega

lemma waddr_inside (waddr : ℕ) (isB : Bool) :
    ∀ a ∈ liveAccess (waddrToLiveRegIndex waddr isB), a.Inside n :=
  liveAccess_inside_iff.2 fun _ => waddrToLiveRegIndex_lt

/-- The first operand is looked up inside of the arrays when it is tracked: the addresses of the
file A are below the number of registers anyway. -/
lemma operand_inside_iff :
    (∀ a ∈ liveAccess (raddrAddAToLiveRegIndex inst), a.Inside n) ↔ OperandTracked inst := by
  have ha : inst.raddrA < 64 := inst.field_lt 18 6
  rw [liveAccess_inside_iff, OperandTracked]
  unfold raddrAddAToLiveRegIndex
  cases hmux : inst.addA with
  | a => simp [liveRegCount]; omega
  | b =>
    by_cases himm : inst.sig = .smallImm
    · simp [himm]
    · simp [Nat.add_comm]
  | r0 | r1 | r2 | r3 => simp [liveRegCount]
  | r4 => simp
  | r5 => simp

lemma resetAccesses_inside : ∀ a ∈ resetAccesses, a.Inside n := by
  intro a ha
  obtain ⟨i, hi, rfl⟩ := mem_map.1 ha
  exact mem_range.1 hi

lemma tmuWriteAccesses_subset (isMul : Bool) (c : Checked) :
    tmuWriteAccesses inst isMul c ⊆ liveAccess (raddrAddAToLiveRegIndex inst) := by
  simp only [tmuWriteAccesses]
  split_ifs
  · exact List.Subset.refl _
  · exact nil_subset _

lemma uniformAddressAccesses_subset (isMul : Bool) :
    uniformAddressAccesses inst isMul ⊆ liveAccess (raddrAddAToLiveRegIndex inst) := by
  unfold uniformAddressAccesses
  split_ifs
  · exact List.Subset.refl _
  · exact nil_subset _

lemma regWriteAccesses_inside (h : OperandTracked inst) (isMul : Bool) (c : Checked) :
    ∀ a ∈ regWriteAccesses inst isMul c, a.Inside n := by
  have hop : ∀ a ∈ liveAccess (raddrAddAToLiveRegIndex inst), a.Inside n := operand_inside_iff.2 h
  intro a ha
  rcases mem_append.1 ha with ha | ha
  · exact waddr_inside _ _ a ha
  · split_ifs at ha
    · cases ha
    · exact hop a (uniformAddressAccesses_subset isMul ha)
    · exact hop a (tmuWriteAccesses_subset isMul _ ha)
    · cases ha

/-- The check of the writes of an instruction stays inside of the arrays exactly when its first
operand is tracked, or when it does not come to look at the registers. -/
lemma instructionWritesAccesses_inside_iff :
    (∀ a ∈ instructionWritesAccesses stray inst c, a.Inside n) ↔
      (isTmuWrite inst.waddrAdd = true ∧ isTmuWrite inst.waddrMul = true) ∨
        OperandTracked inst := by
  unfold instructionWritesAccesses
  by_cases hboth : isTmuWrite inst.waddrAdd = true ∧ isTmuWrite inst.waddrMul = true
  · simp [hboth]
  · rw [if_neg hboth, or_iff_right hboth]
    constructor
    · intro h
      refine operand_inside_iff.1 fun a ha => h a ?_
      exact mem_append_right _ (mem_append_right _ (mem_append_left _ ha))
    · intro h a ha
      rcases mem_append.1 ha with ha | ha
      · exact regWriteAccesses_inside h false c a ha
      rcases mem_append.1 ha with ha | ha
      · cases hadd : checkRegWrite stray inst false c with
        | none => simp [hadd] at ha
        | some c1 =>
          rw [hadd] at ha
          exact regWriteAccesses_inside h true c1 a ha
      rcases mem_append.1 ha with ha | ha
      · exact operand_inside_iff.2 h a ha
      · rcases mem_append.1 ha with ha | ha <;> exact waddr_inside _ _ a ha

lemma instAccesses_inside_iff {ip : ℕ} {l : LoopState} (hip : ip < n) :
    (∀ a ∈ instAccesses stray bo ip l, a.Inside n) ↔
      ∀ l', enterInst stray bo ip l = some l' → (bo.mem ip).sig.ChecksWrites →
        (isTmuWrite (bo.mem ip).waddrAdd = true ∧ isTmuWrite (bo.mem ip).waddrMul = true) ∨
          OperandTracked (bo.mem ip) := by
  constructor
  · intro h l' hl' hsig
    refine instructionWritesAccesses_inside_iff.1 fun a
      (ha : a ∈ instructionWritesAccesses stray (bo.mem ip) l'.toChecked) => h a ?_
    refine .tail _ (mem_append_right _ ?_)
    rw [hl', Option.elim_some, if_pos hsig]
    exact mem_append_right _ ha
  · intro h a ha
    rcases mem_cons.1 ha with rfl | ha
    · exact hip
    rcases mem_append.1 ha with ha | ha
    · rcases mem_cons.1 ha with rfl | ha
      · exact hip
      · split_ifs at ha
        · exact resetAccesses_inside a ha
        · cases ha
    · cases hl' : enterInst stray bo ip l with
      | none => simp [hl'] at ha
      | some l' =>
        rw [hl'] at ha
        rcases mem_append.1 ha with ha | ha
        · split_ifs at ha
          · obtain ⟨i, hi, rfl⟩ := mem_map.1 ha
            have := mem_range.1 hi
            simp only [ArrayAccess.Inside]
            omega
          · cases ha
        · split_ifs at ha with hsig
          · exact instructionWritesAccesses_inside_iff.2 (h l' hl' hsig) a ha
          · cases ha

end Registers

/-! ## The first pass -/

section Scan

variable {bo : ShaderBo} {ip : ℕ} {s s' : BranchScan} {a : ArrayAccess}

lemma ScanAt.of_mem_accesses {fuel : ℕ} (h : ScanAt bo ip s)
    (ha : a ∈ scanBranchesAccesses bo.mem fuel ip s) :
    ∃ ip' s', ScanAt bo ip' s' ∧ ip' < s'.maxIp ∧ a ∈ scanBranchAccesses (bo.mem ip') ip' s' := by
  induction fuel generalizing ip s with
  | zero => cases ha
  | succ fuel ih =>
    rw [scanBranchesAccesses] at ha
    split_ifs at ha with hip
    · rcases mem_append.1 ha with ha | ha
      · exact ⟨ip, s, h, hip, ha⟩
      · cases hpass : scanBranch (bo.mem ip) ip s with
        | none => simp [hpass] at ha
        | some s1 =>
          rw [hpass] at ha
          exact ih (h.next hip hpass) ha
    · cases ha

lemma ScanAt.accesses_subset (h : ScanAt bo ip s) (fuel : ℕ) :
    scanBranchesAccesses bo.mem fuel ip s ⊆
      scanBranchesAccesses bo.mem (fuel + ip) 0 (initScan bo) := by
  induction h generalizing fuel with
  | init => exact List.Subset.refl _
  | @next ip s s' h hip hpass ih =>
    intro a ha
    have hsub := ih (fuel + 1)
    rw [scanBranchesAccesses, if_pos hip, hpass] at hsub
    rw [show fuel + (ip + 1) = fuel + 1 + ip by omega]
    exact hsub (mem_append_right _ ha)

/-- An instruction of the object, or the one behind it, that the first pass comes to is accessed by
it: the counter does not overflow before. -/
lemma ScanAt.mem_accesses (h : ScanAt bo ip s) (hip : ip < s.maxIp) (hlen : ip ≤ bo.len)
    (ha : a ∈ scanBranchAccesses (bo.mem ip) ip s) :
    a ∈ scanBranchesAccesses bo.mem intFuel 0 (initScan bo) := by
  have hsize := bo.size_le
  have hfuel : ip < intFuel := by
    unfold ShaderBo.len at hlen
    unfold intFuel
    omega
  have hsub := h.accesses_subset (intFuel - ip - 1 + 1)
  rw [show intFuel - ip - 1 + 1 + ip = intFuel by omega, scanBranchesAccesses, if_pos hip] at hsub
  exact hsub (mem_append_left _ ha)

/-- The state in which the first pass comes to an instruction: `max_ip` is inside of the object, or
this is the last instruction, a branch that is rejected. -/
def ScanFits (bo : ShaderBo) (ip : ℕ) (s : BranchScan) : Prop :=
  s.maxIp ≤ bo.len ∨
    (s.maxIp = bo.len + 1 ∧ ip + 1 = bo.len ∧ (bo.mem ip).sig = .branch ∧
      ¬ (MarksTarget (bo.mem ip) ip s ∧ branchTargetIp (bo.mem ip) ip = bo.len))

lemma ScanAt.fits (hends : EndsFit bo) (h : ScanAt bo ip s) : ScanFits bo ip s := by
  induction h with
  | init => exact .inl (Nat.le_refl _)
  | @next ip s s' h hip hpass ih =>
    by_cases hbr : (bo.mem ip).sig = .branch
    · obtain ⟨-, -, -, hafter, hmax, -⟩ := scanBranch_branch hbr hpass
      rcases ih with hle | ⟨hlen, hlast, -⟩
      · exact .inl (hmax ▸ hle)
      · omega
    · have hle : s.maxIp ≤ bo.len := ih.resolve_right fun hlast => hbr hlast.2.2.1
      by_cases hend : (bo.mem ip).sig = .progEnd
      · rw [scanBranch, if_pos hend] at hpass
        cases hpass
        rcases hends ip s h hip (by omega) hend with hroom | ⟨hlast, hsig, hmark⟩
        · exact .inl hroom
        · exact .inr ⟨by simp only; omega, by omega, hsig, hmark⟩
      · rw [scanBranch, if_neg hend, if_pos hbr] at hpass
        cases hpass
        exact .inl hle

lemma ScanFits.inside (h : ScanFits bo ip s) (hip : ip < s.maxIp) :
    ∀ a ∈ scanBranchAccesses (bo.mem ip) ip s, a.Inside bo.len := by
  have hlt : ip < bo.len := by
    rcases h with hle | ⟨-, hlast, -⟩ <;> omega
  intro a ha
  rcases mem_cons.1 ha with rfl | ha
  · exact hlt
  split_ifs at ha with hmark hafter
  · have htarget := hmark.2.2.2.2.2
    have hle : s.maxIp ≤ bo.len := by
      rcases h with hle | ⟨hmax, hlast, -⟩ <;> omega
    rcases mem_cons.1 ha with rfl | ha
    · exact Nat.lt_of_lt_of_le htarget hle
    · obtain rfl := mem_singleton.1 ha
      exact Nat.lt_of_lt_of_le hafter hle
  · have htarget := hmark.2.2.2.2.2
    obtain rfl := mem_singleton.1 ha
    rcases h with hle | ⟨hmax, -, -, hno⟩
    · exact Nat.lt_of_lt_of_le htarget hle
    · have hne : branchTargetIp (bo.mem ip) ip ≠ bo.len := fun heq => hno ⟨hmark.2, heq⟩
      simp only [ArrayAccess.Inside]
      omega
  · cases ha

lemma scanBranchesAccesses_inside_iff :
    (∀ a ∈ scanBranchesAccesses bo.mem intFuel 0 (initScan bo), a.Inside bo.len) ↔ EndsFit bo := by
  constructor
  · intro hall ip s h hip hlen hend
    have hnext : ScanAt bo (ip + 1) { s with maxIp := ip + 3 } := h.next hip (if_pos hend)
    have hlt : ip + 1 < bo.len :=
      hall _ (hnext.mem_accesses (by simp only; omega) hlen (.head _))
    refine or_iff_not_imp_left.2 fun hroom => ⟨by omega, ?_⟩
    -- the instruction behind the object is accessed as well, unless the pass stops here
    have hstop : ∀ s', scanBranch (bo.mem (ip + 1)) (ip + 1) { s with maxIp := ip + 3 } = some s' →
        ¬ ip + 2 < s'.maxIp := fun s' hs' hmax => by
      have : ip + 2 < bo.len := hall _ ((hnext.next (by simp only; omega) hs').mem_accesses hmax
        (by omega) (.head _))
      omega
    have hbr : (bo.mem (ip + 1)).sig = .branch := by
      by_contra hbr
      by_cases hend' : (bo.mem (ip + 1)).sig = .progEnd
      · exact hstop _ (by rw [scanBranch, if_pos hend']) (by simp only; omega)
      · exact hstop _ (by rw [scanBranch, if_neg hend', if_pos hbr]) (by simp only; omega)
    refine ⟨hbr, ?_⟩
    rintro ⟨hmark, htarget⟩
    have hin := hall (.branchTarget (branchTargetIp (bo.mem (ip + 1)) (ip + 1)))
      (hnext.mem_accesses (by simp only; omega) hlen (by
        rw [scanBranchAccesses, if_pos ⟨hbr, hmark⟩]
        exact .tail _ (.head _)))
    exact absurd hin (by simp [ArrayAccess.Inside, htarget])
  · intro hends a ha
    obtain ⟨ip, s, h, hip, ha⟩ := ScanAt.init.of_mem_accesses ha
    exact (h.fits hends).inside hip a ha

lemma EndsFit.maxIp_le (hends : EndsFit bo) (h : validateBranches bo = some s) :
    s.maxIp ≤ bo.len := by
  obtain ⟨s1, hscan, hlast⟩ := Option.bind_eq_some_iff.1 h
  split_ifs at hlast
  cases hlast
  obtain ⟨ip, hip, hat⟩ := scanBranches_inv hscan (.init : ScanAt bo 0 _) .next
  rcases hat.fits hends with hle | ⟨hmax, hlast, -⟩
  · exact hle
  · omega

end Scan

/-! ## The second pass -/

section Loop

variable {stray : Stray} {bo : ShaderBo} {ip : ℕ} {l : LoopState} {a : ArrayAccess}

section

variable (h : LoopAt stray bo ip l)

include h

lemma LoopAt.scan_eq : ∃ scan, validateBranches bo = some scan ∧
    l.state.maxIp = scan.maxIp ∧ l.state.branchTargets = scan.branchTargets := by
  induction h with
  | init hscan => exact ⟨_, hscan, rfl, rfl⟩
  | next _ _ hpass _ ih =>
    obtain ⟨scan, hscan, hmax, htargets⟩ := ih
    have hframe := validateInst_frame hpass
    exact ⟨scan, hscan, hframe.maxIp.trans hmax, hframe.branchTargets.trans htargets⟩

lemma LoopAt.of_mem_accesses {fuel : ℕ} (ha : a ∈ validateInstsAccesses stray bo fuel ip l) :
    ∃ ip' l', LoopAt stray bo ip' l' ∧ ip' < l'.state.maxIp ∧ a ∈ instAccesses stray bo ip' l' := by
  induction fuel generalizing ip l with
  | zero => cases ha
  | succ fuel ih =>
    rw [validateInstsAccesses] at ha
    split_ifs at ha with hip
    · rcases mem_append.1 ha with ha | ha
      · exact ⟨ip, l, h, hip, ha⟩
      · cases hpass : validateInst stray bo ip l with
        | none => simp [hpass] at ha
        | some l1 =>
          rw [hpass, Option.elim_some] at ha
          split_ifs at ha with hgo
          · cases ha
          · exact ih (h.next hip hpass hgo) ha
    · cases ha

lemma LoopAt.accesses_subset :
    ∃ scan, validateBranches bo = some scan ∧ l.state.maxIp = scan.maxIp ∧ ∀ fuel,
      validateInstsAccesses stray bo fuel ip l ⊆
        validateInstsAccesses stray bo (fuel + ip) 0 (initLoop scan) := by
  induction h with
  | init hscan => exact ⟨_, hscan, rfl, fun _ => List.Subset.refl _⟩
  | @next ip l l' h hip hpass hgo ih =>
    obtain ⟨scan, hscan, hmax, hsub⟩ := ih
    refine ⟨scan, hscan, (validateInst_frame hpass).maxIp.trans hmax, fun fuel a ha => ?_⟩
    have hsub := hsub (fuel + 1)
    rw [validateInstsAccesses, if_pos hip, hpass, Option.elim_some, if_neg hgo] at hsub
    rw [show fuel + (ip + 1) = fuel + 1 + ip by omega]
    exact hsub (mem_append_right _ ha)

lemma LoopAt.mem_accesses (hip : ip < l.state.maxIp)
    (ha : a ∈ instAccesses stray bo ip l) : a ∈ validateShaderAccesses stray bo := by
  obtain ⟨scan, hscan, hmax, hsub⟩ := h.accesses_subset
  have hsub := hsub (scan.maxIp - ip + 1)
  rw [show scan.maxIp - ip + 1 + ip = scan.maxIp + 1 by omega, validateInstsAccesses,
    if_pos hip] at hsub
  refine mem_append_right _ (mem_append_right _ ?_)
  rw [hscan]
  exact hsub (mem_append_left _ ha)

end

end Loop

/-! ## The whole validation -/

/-- **The accesses of the shader validation.**  For every content and size of a shader object, and
whatever lies behind the arrays, `vc4_validate_shader` reads only instructions of the object, sets
and tests only bits of the branch targets that stand for them, and indexes the arrays of registers
below `LIVE_REG_COUNT`, exactly when the ends of the program that its first pass comes to fit into
the object and the first operands that its second pass comes to are tracked.

**Proof sketch.** In the first pass `max_ip` leaves the object only by an end of the program in its
last two instructions, and the pass then goes on to the instruction behind the object unless it
stops at a branch in the last one (`scanBranchesAccesses_inside_iff`). Otherwise the second pass
visits instructions of the object only, and looks up the first operand of each whose writes it
checks (`instAccesses_inside_iff`). -/
theorem validate_accesses_inside_iff (stray : Stray) (bo : ShaderBo) :
    (∀ a ∈ validateShaderAccesses stray bo, a.Inside bo.len) ↔
      EndsFit bo ∧ OperandsTracked stray bo := by
  constructor
  · intro hall
    have hends : EndsFit bo := scanBranchesAccesses_inside_iff.1 fun a ha =>
      hall a (mem_append_right _ (mem_append_left _ ha))
    refine ⟨hends, fun ip l l' h hip hl' hsig => ?_⟩
    obtain ⟨scan, hscan, hmax, -⟩ := h.scan_eq
    have hle := hends.maxIp_le hscan
    exact (instAccesses_inside_iff (by omega)).1 (fun a ha => hall a (h.mem_accesses hip ha))
      l' hl' hsig
  · rintro ⟨hends, hops⟩ a ha
    rcases mem_append.1 ha with ha | ha
    · exact resetAccesses_inside a ha
    rcases mem_append.1 ha with ha | ha
    · exact scanBranchesAccesses_inside_iff.2 hends a ha
    · cases hscan : validateBranches bo with
      | none => simp [hscan] at ha
      | some scan =>
        rw [hscan] at ha
        obtain ⟨ip, l, h, hip, ha⟩ := (LoopAt.init hscan).of_mem_accesses ha
        obtain ⟨scan', hscan', hmax, -⟩ := h.scan_eq
        have hle := hends.maxIp_le hscan'
        exact (instAccesses_inside_iff (by omega)).2 (fun l' => hops ip l l' h hip) a ha

/-- A page of instructions that do nothing, with the end of the program in the last one. -/
def lateEnd : ShaderBo where
  mem i := if i = 511 then signal 3 else signal 1
  size := 4096
  size_le := page_le

/-- A page whose first instruction reads its first operand from the address 63 of the file B. -/
def highOperand : ShaderBo where
  mem i := if i = 0 then addInst 1 39 12 39 63 7 7 else if i = 3 then signal 3 else signal 1
  size := 4096
  size_le := page_le

/-- The end of the program in the last instruction of a page makes both passes read the two
instructions behind it; an operand from the address 63 of the file B is looked up at the index
95 of 68. -/
theorem validate_accesses_outside :
    lateEnd.len = 512 ∧ ArrayAccess.shader 512 ∈ validateShaderAccesses noStray lateEnd ∧
      ArrayAccess.shader 513 ∈ validateShaderAccesses noStray lateEnd ∧
      ArrayAccess.branchTarget 513 ∈ validateShaderAccesses noStray lateEnd ∧
      ArrayAccess.live 95 ∈ validateShaderAccesses noStray highOperand ∧ liveRegCount = 68 := by
  decide +kernel

end KmsDrm.Vc4
