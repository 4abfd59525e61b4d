import KmsDrm.Vc4.Qpu

/-!
# Shader validation

`vc4_validate_shader` decides, when a shader object is created, whether the QPU may run it. A
first pass collects the branch targets and finds the end of the program
(`vc4_validate_branches`); a second one checks every instruction in turn, keeping track of what
the texture units have been told, of which registers hold a clamped value, and of how far the
instructions so far have read into the uniform stream.

## Main definitions

* `Vc4.validateShader` — `vc4_validate_shader`.

## Main results

* `Vc4.checkTmuWrite_eq` — what a write to a texture unit that passes has done.

## Implementation notes

The result `none` stands for a rejected shader; a failed allocation also ends in a rejection and
is left out. Reads that the source makes outside of an array are answered by a `Stray`, about
which nothing is known: the registers above the tracked ones, the branch target bitmap behind the
object, and the instruction memory behind the object (`ShaderBo.mem`).
-/

namespace KmsDrm.Vc4

open Function (update)
open Option

variable {l l' : LoopState} {bo : ShaderBo} {stray : Stray} {ip : ℕ}

/-! ## Data -/

/-- A shader object: the instruction words from its address on, of which `size / 8` are its
own. -/
structure ShaderBo where
  mem : ℕ → Inst
  /-- `base.size`, in bytes. -/
  size : ℕ
  /-- The size asked for is a `u32`, rounded up to pages. -/
  size_le : size ≤ 2 ^ 32

lemma page_le : 4096 ≤ 2 ^ 32 := by decide

/-- The number of instructions in the object. -/
def ShaderBo.len (bo : ShaderBo) : ℕ := bo.size / 8

/-- What the reads outside of an array find, at each instruction. -/
structure Stray where
  minClampOffsets : ℕ → ℕ → U32
  maxClampRegs : ℕ → ℕ → Bool
  immediates : ℕ → ℕ → U32
  branchTargets : ℕ → Bool

/-- `struct vc4_texture_sample_info`. -/
structure TextureSampleInfo where
  isDirect : Bool
  pOffset : Fin 4 → U32

/-- `struct vc4_validated_shader_info`; the lists come with their lengths. -/
structure ValidatedShaderInfo where
  uniformsSize : U32
  uniformsSrcSize : U32
  textureSamples : List TextureSampleInfo
  uniformAddrOffsets : List U32
  isThreaded : Bool

/-- `struct vc4_shader_validation_state`. -/
structure ValidationState where
  ip : ℕ
  maxIp : ℕ
  tmuSetup : Bool → TextureSampleInfo
  tmuWriteCount : Bool → ℕ
  liveMinClampOffsets : ℕ → U32
  liveMaxClampRegs : ℕ → Bool
  liveImmediates : ℕ → U32
  branchTargets : ℕ → Bool
  needsUniformAddressUpdate : Bool
  needsUniformAddressForLoop : Bool
  allRegistersUsed : Bool

/-- What the checks of an instruction read and write. -/
structure Checked where
  shader : ValidatedShaderInfo
  state : ValidationState

/-- The `~0` that marks an unused offset. -/
def unused : U32 := BitVec.allOnes 32

/-- Nothing outside of the arrays. -/
def noStray : Stray where
  minClampOffsets _ _ := unused
  maxClampRegs _ _ := false
  immediates _ _ := unused
  branchTargets _ := false

/-- `LIVE_REG_COUNT`. -/
def liveRegCount : ℕ := 32 + 32 + 4

/-- Read `live_min_clamp_offsets`. -/
def ValidationState.minClampOffset (v : ValidationState) (stray : Stray) (i : ℕ) : U32 :=
  if i < liveRegCount then v.liveMinClampOffsets i else stray.minClampOffsets v.ip i

/-- Read `live_max_clamp_regs`. -/
def ValidationState.maxClampReg (v : ValidationState) (stray : Stray) (i : ℕ) : Bool :=
  if i < liveRegCount then v.liveMaxClampRegs i else stray.maxClampRegs v.ip i

/-- Read `live_immediates`. -/
def ValidationState.immediate (v : ValidationState) (stray : Stray) (i : ℕ) : U32 :=
  if i < liveRegCount then v.liveImmediates i else stray.immediates v.ip i

/-! ## Registers -/

/-- `waddr_to_live_reg_index`, `none` for `~0`. -/
def waddrToLiveRegIndex (waddr : ℕ) (isB : Bool) : Option ℕ :=
  if waddr < 32 then some (if isB then 32 + waddr else waddr)
  else if waddr ≤ wAcc3 then some (64 + waddr - wAcc0)
  else none

/-- `raddr_add_a_to_live_reg_index`, `none` for `~0`. -/
def raddrAddAToLiveRegIndex (inst : Inst) : Option ℕ :=
  match inst.addA with
  | .a => some inst.raddrA
  | .b => if inst.sig ≠ .smallImm then some (32 + inst.raddrB) else none
  | .r0 => some 64
  | .r1 => some 65
  | .r2 => some 66
  | .r3 => some 67
  | _ => none

/-- `live_reg_is_upper_half`. -/
def liveRegIsUpperHalf (lri : ℕ) : Bool := (16 ≤ lri ∧ lri < 32) ∨ (32 + 16 ≤ lri ∧ lri < 32 + 32)

/-- `is_tmu_submit`. -/
def isTmuSubmit (waddr : ℕ) : Bool := waddr = wTmu0S ∨ waddr = wTmu1S

/-- `is_tmu_write`. -/
def isTmuWrite (waddr : ℕ) : Bool := wTmu0S ≤ waddr ∧ waddr ≤ wTmu1B

/-- The write address of one half of an instruction. -/
def waddrOf (inst : Inst) (isMul : Bool) : ℕ := if isMul then inst.waddrMul else inst.waddrAdd

/-- One of the operands is a uniform: the second argument of the addition, as the checks of
direct reads and of uniform resets ask for it. -/
def addsUniform (inst : Inst) : Bool :=
  (inst.addB = .a ∧ inst.raddrA = rUnif) ∨ (inst.addB = .b ∧ inst.raddrB = rUnif)

/-- The instruction reads a uniform through one of its read addresses. -/
def readsUniform (inst : Inst) : Bool :=
  inst.raddrA = rUnif ∨ (inst.sig ≠ .smallImm ∧ inst.raddrB = rUnif)

/-! ## Texture units -/

/-- The checks of `check_tmu_write` for a direct read: it must add a uniform to a register that
holds a clamped value, whose bound it notes. -/
def checkTmuDirect (stray : Stray) (inst : Inst) (isMul tmu : Bool) (c : Checked) :
    Option Checked :=
  if inst.sig = .smallImm then none
  else if isMul ∨ inst.opAdd ≠ .add then none
  else
    match raddrAddAToLiveRegIndex inst with
    | none => none
    | some clampReg =>
      let clampOffset := c.state.minClampOffset stray clampReg
      if clampOffset = unused then none
      else if ¬ addsUniform inst then none
      else
        let setup := c.state.tmuSetup tmu
        some { c with
          state := { c.state with
            tmuSetup := update c.state.tmuSetup tmu
              { isDirect := true, pOffset := update setup.pOffset 1 clampOffset } } }

/-- `record_texture_sample`. -/
def recordTextureSample (tmu : Bool) (c : Checked) : Checked :=
  let setup := c.state.tmuSetup tmu
  { shader := { c.shader with textureSamples := c.shader.textureSamples ++ [setup] }
    state := { c.state with
      tmuSetup := update c.state.tmuSetup tmu { setup with pOffset := fun _ => unused } } }

/-- The second half of `check_tmu_write`: note where the parameter lies in the uniform stream,
and record the sample on a submission. -/
def recordTmuWrite (tmu submit isDirect : Bool) (c : Checked) : Option Checked :=
  let count := c.state.tmuWriteCount tmu
  if h : count < 4 then
    let setup := c.state.tmuSetup tmu
    let state : ValidationState := { c.state with
      tmuSetup := update c.state.tmuSetup tmu
        { setup with pOffset := update setup.pOffset ⟨count, h⟩ c.shader.uniformsSize }
      tmuWriteCount := update c.state.tmuWriteCount tmu (count + 1) }
    -- a direct read names its uniform by a read address, and is counted with the reads
    if ¬ isDirect ∧ state.needsUniformAddressUpdate then none
    else
      let shader :=
        if isDirect then c.shader
        else { c.shader with uniformsSize := c.shader.uniformsSize + 4 }
      if submit then
        let c := recordTextureSample tmu { shader, state }
        some { c with
          state := { c.state with tmuWriteCount := update c.state.tmuWriteCount tmu 0 } }
      else some { shader, state }
  else none

/-- `check_tmu_write`. -/
def checkTmuWrite (stray : Stray) (inst : Inst) (isMul : Bool) (c : Checked) : Option Checked :=
  let waddr := waddrOf inst isMul
  let tmu : Bool := wTmu0B < waddr
  let submit := isTmuSubmit waddr
  let isDirect := submit && c.state.tmuWriteCount tmu == 0
  if isDirect then
    (checkTmuDirect stray inst isMul tmu c).bind (recordTmuWrite tmu submit isDirect)
  else if readsUniform inst then none
  else recordTmuWrite tmu submit isDirect c

/-! ## Uniform address -/

/-- `require_uniform_address_uniform`. -/
def requireUniformAddressUniform (shader : ValidatedShaderInfo) : ValidatedShaderInfo :=
  { shader with uniformAddrOffsets := shader.uniformAddrOffsets ++ [shader.uniformsSize / 4] }

/-- `validate_uniform_address_write`. -/
def validateUniformAddressWrite (stray : Stray) (inst : Inst) (isMul : Bool) (c : Checked) :
    Option Checked :=
  let expectedOffset := c.shader.uniformsSize + 4
  if ¬ (inst.sig = .none ∨ inst.sig = .scoreboardUnlock ∨ inst.sig = .colorLoad ∨
      inst.sig = .loadTmu0 ∨ inst.sig = .loadTmu1) then none
  else if isMul ∨ inst.opAdd ≠ .add then none
  else if inst.condAdd ≠ .always then none
  else if inst.pack ≠ 0 ∧ ¬ inst.pm then none
  else
    match raddrAddAToLiveRegIndex inst with
    | none => none
    | some addLri =>
      if c.state.immediate stray addLri ≠ expectedOffset then none
      else if ¬ addsUniform inst then none
      else
        some
          { shader := requireUniformAddressUniform c.shader
            state := { c.state with
              needsUniformAddressUpdate := false, needsUniformAddressForLoop := false } }

/-! ## Register writes -/

/-- The first part of `check_reg_write`: what the destination register now holds. -/
def trackImmediate (inst : Inst) (isMul : Bool) (c : Checked) : Checked :=
  match waddrToLiveRegIndex (waddrOf inst isMul) (isMul ^^ inst.ws) with
  | none => c
  | some lri =>
    let cond := if isMul then inst.condMul else inst.condAdd
    let imm := if inst.sig = .loadImm ∧ inst.pack = 0 ∧ cond = .always then inst.loadImm else unused
    { c with
      state := { c.state with
        liveImmediates := update c.state.liveImmediates lri imm
        allRegistersUsed := c.state.allRegistersUsed || liveRegIsUpperHalf lri } }

/-- `check_reg_write`. -/
def checkRegWrite (stray : Stray) (inst : Inst) (isMul : Bool) (c : Checked) : Option Checked :=
  let waddr := waddrOf inst isMul
  let c := trackImmediate inst isMul c
  if waddr = wUniformsAddress then
    if isMul ^^ inst.ws then none else validateUniformAddressWrite stray inst isMul c
  else if isTmuWrite waddr then checkTmuWrite stray inst isMul c
  else if waddr = wHostInt ∨ waddr = wTmuNoswap ∨ waddr = wTlbAlphaMask ∨ waddr = wMutexRelease then
    none
  else if waddr = wVpmAddr then none
  else some c

/-- Forget what is known of a register. -/
def ValidationState.clearClamp (v : ValidationState) (lri : ℕ) : ValidationState :=
  { v with
    liveMaxClampRegs := update v.liveMaxClampRegs lri false
    liveMinClampOffsets := update v.liveMinClampOffsets lri unused }

/-- Forget what is known of a register, if there is one. -/
def ValidationState.clearClamp? (v : ValidationState) : Option ℕ → ValidationState
  | none => v
  | some lri => v.clearClamp lri

/-- The instruction is a maximum with the small immediate `0`. -/
def isMaxWithZero (inst : Inst) : Bool :=
  inst.opAdd = .max ∧ inst.sig = .smallImm ∧ inst.raddrB = 0 ∧ (inst.addA = .b ∨ inst.addB = .b)

/-- The instruction is a minimum whose second argument is a uniform. -/
def isMinWithUniform (inst : Inst) : Bool :=
  inst.opAdd = .min ∧ ((inst.addB = .a ∧ inst.raddrA = rUnif) ∨
    (inst.addB = .b ∧ inst.raddrB = rUnif ∧ inst.sig ≠ .smallImm))

/-- `track_live_clamps`. -/
def trackLiveClamps (stray : Stray) (inst : Inst) (c : Checked) : Checked :=
  -- looked up before the registers written by this instruction are cleared
  let addAIsMin0 : Bool :=
    match raddrAddAToLiveRegIndex inst with
    | none => false
    | some lri => c.state.maxClampReg stray lri
  let lriAdd := waddrToLiveRegIndex inst.waddrAdd inst.ws
  let lriMul := waddrToLiveRegIndex inst.waddrMul (!inst.ws)
  let v := (c.state.clearClamp? lriMul).clearClamp? lriAdd
  match lriAdd with
  | none => { c with state := v }
  | some lri =>
    if inst.condAdd ≠ .always then { c with state := v }
    else if isMaxWithZero inst then
      { c with state := { v with liveMaxClampRegs := update v.liveMaxClampRegs lri true } }
    else if addAIsMin0 ∧ isMinWithUniform inst then
      { c with
        state := { v with
          liveMinClampOffsets := update v.liveMinClampOffsets lri c.shader.uniformsSize } }
    else { c with state := v }

/-- `check_instruction_writes`. -/
def checkInstructionWrites (stray : Stray) (inst : Inst) (c : Checked) : Option Checked :=
  if isTmuWrite inst.waddrAdd ∧ isTmuWrite inst.waddrMul then none
  else
    (((checkRegWrite stray inst false c).bind (checkRegWrite stray inst true)).map
      (trackLiveClamps stray inst))

/-- `check_instruction_reads`. -/
def checkInstructionReads (inst : Inst) (c : Checked) : Option Checked :=
  let upper : Bool := (16 ≤ inst.raddrA ∧ inst.raddrA < 32) ∨
    (16 ≤ inst.raddrB ∧ inst.raddrB < 32 ∧ inst.sig ≠ .smallImm)
  let state := { c.state with allRegistersUsed := c.state.allRegistersUsed || upper }
  if readsUniform inst then
    if c.state.needsUniformAddressUpdate then none
    else some { shader := { c.shader with uniformsSize := c.shader.uniformsSize + 4 }, state }
  else some { c with state }

/-- `check_branch`. -/
def checkBranch (inst : Inst) (c : Checked) : Option Checked :=
  if inst.waddrAdd ≠ wNop ∨ inst.waddrMul ≠ wNop then none
  else
    some { c with
      state := { c.state with
        needsUniformAddressForLoop :=
          c.state.needsUniformAddressForLoop || decide (inst.branchTarget < 0) } }

/-! ## Branches -/

/-- What `vc4_validate_branches` keeps while it goes over the instructions. -/
structure BranchScan where
  maxIp : ℕ
  branchTargets : ℕ → Bool
  maxBranchTarget : ℕ
  lastBranch : ℤ

/-- `branch_target_ip`: the instruction after the delay slots, plus the offset in the word, in
`uint32_t`. -/
def branchTargetIp (inst : Inst) (ip : ℕ) : ℕ :=
  (((ip : ℤ) + 4 + inst.branchTarget / 8) % 2 ^ 32).toNat

/-- The body of the loop of `vc4_validate_branches`. -/
def scanBranch (inst : Inst) (ip : ℕ) (s : BranchScan) : Option BranchScan :=
  if inst.sig = .progEnd then some { s with maxIp := ip + 3 }
  else if inst.sig ≠ .branch then some s
  else if (ip : ℤ) - s.lastBranch < 4 then none
  else if inst.branchReg then none
  else if ¬ inst.branchRel then none
  else if inst.branchTarget % 8 ≠ 0 then none
  else if s.maxIp ≤ branchTargetIp inst ip then none
  else if s.maxIp ≤ ip + 4 then none
  else
    some
      { s with
        branchTargets :=
          update (update s.branchTargets (branchTargetIp inst ip) true) (ip + 4)
            true
        maxBranchTarget := max s.maxBranchTarget (ip + 4)
        lastBranch := ip }

/-- The loop of `vc4_validate_branches` from `ip` on. -/
def scanBranches (mem : ℕ → Inst) : ℕ → ℕ → BranchScan → Option BranchScan
  | 0, _, _ => none
  | fuel + 1, ip, s =>
    if ip < s.maxIp then (scanBranch (mem ip) ip s).bind (scanBranches mem fuel (ip + 1))
    else some s

/-- How far the `int ip` of `vc4_validate_branches` can count without an overflow of `ip + 4`. -/
def intFuel : ℕ := 2 ^ 31 - 4

/-- `vc4_validate_branches`. The last comparison is one of `uint32_t`, where `max_ip - 3` wraps
around for an object of less than three instructions. -/
def validateBranches (bo : ShaderBo) : Option BranchScan :=
  (scanBranches bo.mem intFuel 0
    { maxIp := bo.len, branchTargets := fun _ => false, maxBranchTarget := 0
      lastBranch := -2 }).bind fun s =>
    if 3 ≤ s.maxIp ∧ s.maxIp - 3 < s.maxBranchTarget then none else some s

/-! ## The validation loop -/

/-- `reset_validation_state`. -/
def resetValidationState (v : ValidationState) : ValidationState :=
  { v with
    tmuSetup := fun tmu => { v.tmuSetup tmu with pOffset := fun _ => unused }
    liveMinClampOffsets := fun _ => unused
    liveMaxClampRegs := fun _ => false
    liveImmediates := fun _ => unused }

/-- `texturing_in_progress`. -/
def texturingInProgress (v : ValidationState) : Bool :=
  v.tmuWriteCount false ≠ 0 ∨ v.tmuWriteCount true ≠ 0

/-- Read the bitmap of branch targets, which has a bit for every instruction of the object. -/
def isBranchTarget (stray : Stray) (bo : ShaderBo) (v : ValidationState) (ip : ℕ) : Bool :=
  if ip < bo.len then v.branchTargets ip else stray.branchTargets ip

/-- `vc4_handle_branch_target`. -/
def handleBranchTarget (stray : Stray) (bo : ShaderBo) (v : ValidationState) :
    Option ValidationState :=
  if ¬ isBranchTarget stray bo v v.ip then some v
  else if texturingInProgress v then none
  else some { resetValidationState v with needsUniformAddressUpdate := true }

/-- The variables of the loop of `vc4_validate_shader`. The instruction of the last thread
switch is a `uint32_t` that starts at `-3`, and is only used with `3` added to it. -/
structure LoopState extends Checked where
  foundShaderEnd : Bool
  shaderEndIp : ℕ
  lastThreadSwitchIp : ℤ

/-- The accumulators do not survive a thread switch. -/
def resetAccumulators (v : ValidationState) : ValidationState :=
  { v with
    liveMinClampOffsets := fun i => if 64 ≤ i then unused else v.liveMinClampOffsets i
    liveMaxClampRegs := fun i => if 64 ≤ i then false else v.liveMaxClampRegs i
    liveImmediates := fun i => if 64 ≤ i then unused else v.liveImmediates i }

/-- The start of the loop body: what a branch target and a finished thread switch make the
validation forget. -/
def enterInst (stray : Stray) (bo : ShaderBo) (ip : ℕ) (l : LoopState) : Option LoopState :=
  (handleBranchTarget stray bo { l.state with ip := ip }).map fun v =>
    { l with state := if (ip : ℤ) = l.lastThreadSwitchIp + 3 then resetAccumulators v else v }

/-- The end of the first case of the loop body, for the instructions with an ALU operation. -/
def noteSignal (sig : Sig) (ip : ℕ) (l : LoopState) : Option LoopState :=
  let l := if sig = .progEnd then { l with foundShaderEnd := true, shaderEndIp := ip } else l
  if sig = .threadSwitch ∨ sig = .lastThreadSwitch then
    if (ip : ℤ) < l.lastThreadSwitchIp + 3 then none
    else
      some { l with
        shader := { l.shader with isThreaded := true }
        lastThreadSwitchIp := ip }
  else some l

/-- The `switch` of the loop body. -/
def checkInst (stray : Stray) (inst : Inst) (ip : ℕ) (l : LoopState) : Option LoopState :=
  match inst.sig with
  | .none | .waitForScoreboard | .scoreboardUnlock | .colorLoad | .loadTmu0 | .loadTmu1
  | .progEnd | .smallImm | .threadSwitch | .lastThreadSwitch =>
    ((checkInstructionWrites stray inst l.toChecked).bind (checkInstructionReads inst)).bind
      fun c => noteSignal inst.sig ip { l with toChecked := c }
  | .loadImm =>
    (checkInstructionWrites stray inst l.toChecked).map fun c => { l with toChecked := c }
  | .branch =>
    (checkBranch inst l.toChecked).bind fun c =>
      if (ip : ℤ) < l.lastThreadSwitchIp + 3 then none else some { l with toChecked := c }
  | .swBreakpoint | .coverageLoad | .colorLoadEnd | .alphaMaskLoad => none

/-- The body of the loop of `vc4_validate_shader`. -/
def validateInst (stray : Stray) (bo : ShaderBo) (ip : ℕ) (l : LoopState) : Option LoopState :=
  (enterInst stray bo ip l).bind (checkInst stray (bo.mem ip) ip)

/-- The loop of `vc4_validate_shader` from `ip` on: the instruction it ends at, and its
variables. -/
def validateInsts (stray : Stray) (bo : ShaderBo) : ℕ → ℕ → LoopState → Option (ℕ × LoopState)
  | 0, _, _ => none
  | fuel + 1, ip, l =>
    if ip < l.state.maxIp then
      (validateInst stray bo ip l).bind fun l =>
        if l.foundShaderEnd ∧ ip = l.shaderEndIp + 2 then some (ip, l)
        else validateInsts stray bo fuel (ip + 1) l
    else some (ip, l)

/-- The variables of the loop at its start. -/
def initLoop (scan : BranchScan) : LoopState where
  shader :=
    { uniformsSize := 0, uniformsSrcSize := 0, textureSamples := [], uniformAddrOffsets := []
      isThreaded := false }
  state := resetValidationState
    { ip := 0, maxIp := scan.maxIp
      tmuSetup := fun _ => { isDirect := false, pOffset := fun _ => 0 }
      tmuWriteCount := fun _ => 0
      liveMinClampOffsets := fun _ => 0, liveMaxClampRegs := fun _ => false
      liveImmediates := fun _ => 0, branchTargets := scan.branchTargets
      needsUniformAddressUpdate := false, needsUniformAddressForLoop := false
      allRegistersUsed := false }
  foundShaderEnd := false
  shaderEndIp := 0
  lastThreadSwitchIp := -3

/-- The loop of `vc4_validate_shader`, which makes at most `max_ip` passes. -/
def validateLoop (stray : Stray) (bo : ShaderBo) (scan : BranchScan) : Option (ℕ × LoopState) :=
  validateInsts stray bo (scan.maxIp + 1) 0 (initLoop scan)

/-- What `vc4_validate_shader` does behind its loop. -/
def finishShader (ip : ℕ) (l : LoopState) : Option ValidatedShaderInfo :=
  if ip = l.state.maxIp then none
  else if l.shader.isThreaded ∧ l.state.allRegistersUsed then none
  else
    let shader :=
      if l.state.needsUniformAddressForLoop then
        let shader := requireUniformAddressUniform l.shader
        { shader with uniformsSize := shader.uniformsSize + 4 }
      else l.shader
    some { shader with
      uniformsSrcSize := shader.uniformsSize + 4 * BitVec.ofNat 32 shader.textureSamples.length }

/-- `vc4_validate_shader`. -/
def validateShader (stray : Stray) (bo : ShaderBo) : Option ValidatedShaderInfo :=
  (validateBranches bo).bind fun scan =>
    (validateLoop stray bo scan).bind fun p => finishShader p.1 p.2

/-! ## What the checks do -/

/-- A setup with the place of the next parameter. -/
def noteOffset (setup : TextureSampleInfo) (count : Fin 4) (ptr : U32) : TextureSampleInfo :=
  { setup with pOffset := update setup.pOffset count ptr }

/-- The setup that is left after a write: without offsets when it was submitted. -/
def setupAfter (submit : Bool) (setup : TextureSampleInfo) : TextureSampleInfo :=
  if submit then { setup with pOffset := fun _ => unused } else setup

section Inversion

variable {inst : Inst} {isMul tmu submit isDirect : Bool} {c c' : Checked}

lemma checkTmuDirect_eq (h : checkTmuDirect stray inst isMul tmu c = some c') :
    isMul = false ∧ inst.sig ≠ .smallImm ∧ inst.opAdd = .add ∧ addsUniform inst = true ∧
      ∃ r, raddrAddAToLiveRegIndex inst = some r ∧ c.state.minClampOffset stray r ≠ unused ∧
        c' = { c with
          state := { c.state with
            tmuSetup := update c.state.tmuSetup tmu ⟨true, update (c.state.tmuSetup tmu).pOffset 1
              (c.state.minClampOffset stray r)⟩ } } := by
  simp only [checkTmuDirect, ite_none_left_eq_some, not_or, not_not] at h
  obtain ⟨himm, ⟨hmul, hop⟩, h⟩ := h
  split at h
  · cases h
  next r hr =>
    simp only [ite_none_left_eq_some, Option.some.injEq, not_not] at h
    obtain ⟨hoff, hunif, rfl⟩ := h
    exact ⟨by simpa using hmul, himm, hop, hunif, r, hr, hoff, rfl⟩

/-- What a write to a texture unit notes: the place of its parameter in the stream, and the
sample on a submission. A parameter is not taken while the address has to be reset. -/
lemma recordTmuWrite_eq (h : recordTmuWrite tmu submit isDirect c = some c') :
    ∃ hcount : c.state.tmuWriteCount tmu < 4,
      (c.state.needsUniformAddressUpdate = true → isDirect = true) ∧
      let noted := noteOffset (c.state.tmuSetup tmu) ⟨_, hcount⟩ c.shader.uniformsSize
      c' =
        ⟨{ c.shader with
            uniformsSize := if isDirect then c.shader.uniformsSize else c.shader.uniformsSize + 4
            textureSamples := c.shader.textureSamples ++ if submit then [noted] else [] },
          { c.state with
            tmuSetup := update c.state.tmuSetup tmu (setupAfter submit noted)
            tmuWriteCount := update c.state.tmuWriteCount tmu
              (if submit then 0 else c.state.tmuWriteCount tmu + 1) }⟩ := by
  simp only [recordTmuWrite] at h
  split_ifs at h with hcount hneeds hsubmit hdirect hdirect <;> cases h <;>
    refine ⟨hcount, ?_, ?_⟩ <;>
    simp_all [recordTextureSample, setupAfter, noteOffset]

/-- What a write to a texture unit does. A direct read notes the offset of its bound as well and
takes no uniform; otherwise the address is known and the instruction reads no other uniform. -/
lemma checkTmuWrite_eq (h : checkTmuWrite stray inst isMul c = some c') :
    let tmu : Bool := decide (wTmu0B < waddrOf inst isMul)
    let submit := isTmuSubmit (waddrOf inst isMul)
    let isDirect := submit && c.state.tmuWriteCount tmu == 0
    ∃ hcount : c.state.tmuWriteCount tmu < 4, ∃ setup,
      let noted := noteOffset setup ⟨_, hcount⟩ c.shader.uniformsSize
      c' =
        ⟨{ c.shader with
            uniformsSize := if isDirect then c.shader.uniformsSize else c.shader.uniformsSize + 4
            textureSamples := c.shader.textureSamples ++ if submit then [noted] else [] },
          { c.state with
            tmuSetup := update c.state.tmuSetup tmu (setupAfter submit noted)
            tmuWriteCount := update c.state.tmuWriteCount tmu
              (if submit then 0 else c.state.tmuWriteCount tmu + 1) }⟩ ∧
      ((isDirect = false ∧ setup = c.state.tmuSetup tmu ∧ readsUniform inst = false ∧
          c.state.needsUniformAddressUpdate = false) ∨
        (isDirect = true ∧ isMul = false ∧ inst.sig ≠ .smallImm ∧ inst.opAdd = .add ∧
          addsUniform inst = true ∧ ∃ r, raddrAddAToLiveRegIndex inst = some r ∧
            c.state.minClampOffset stray r ≠ unused ∧
            setup = ⟨true, update (c.state.tmuSetup tmu).pOffset 1
              (c.state.minClampOffset stray r)⟩)) := by
  intro tmu submit isDirect
  simp only [checkTmuWrite] at h
  split_ifs at h with hdirect hreads
  · obtain ⟨c1, h1, h2⟩ := bind_eq_some_iff.1 h
    obtain ⟨hmul, himm, hop, hunif, r, hr, hoff, rfl⟩ := checkTmuDirect_eq h1
    obtain ⟨hcount, -, rfl⟩ := recordTmuWrite_eq h2
    refine ⟨hcount, _, ?_, .inr ⟨hdirect, hmul, himm, hop, hunif, r, hr, hoff, rfl⟩⟩
    simp only [Function.update_self, Function.update_idem]
    rfl
  · obtain ⟨hcount, hneeds, rfl⟩ := recordTmuWrite_eq h
    refine ⟨hcount, _, rfl, .inl ⟨eq_false_of_ne_true hdirect, rfl, by simpa using hreads, ?_⟩⟩
    by_contra hupdate
    exact hdirect (hneeds (by simpa using hupdate))

lemma validateUniformAddressWrite_eq
    (h : validateUniformAddressWrite stray inst isMul c = some c') :
    (inst.sig = .none ∨ inst.sig = .scoreboardUnlock ∨ inst.sig = .colorLoad ∨
        inst.sig = .loadTmu0 ∨ inst.sig = .loadTmu1) ∧
      isMul = false ∧ inst.opAdd = .add ∧ inst.condAdd = .always ∧
      (inst.pack = 0 ∨ inst.pm = true) ∧
      (∃ r, raddrAddAToLiveRegIndex inst = some r ∧
        c.state.immediate stray r = c.shader.uniformsSize + 4) ∧ addsUniform inst = true ∧
      c' = ⟨requireUniformAddressUniform c.shader, { c.state with
        needsUniformAddressUpdate := false, needsUniformAddressForLoop := false }⟩ := by
  simp only [validateUniformAddressWrite, ite_none_left_eq_some, not_not] at h
  obtain ⟨hsig, hadd, hcond, hpack, h⟩ := h
  rw [not_or, not_not] at hadd
  split at h
  · cases h
  next r hr =>
    simp only [ite_none_left_eq_some, Option.some.injEq, not_not] at h
    obtain ⟨himm, hunif, rfl⟩ := h
    refine ⟨hsig, by simpa using hadd.1, hadd.2, hcond, ?_, ⟨r, hr, himm⟩, hunif, rfl⟩
    by_contra hno
    exact hpack (by simpa using hno)

lemma trackImmediate_eq (inst : Inst) (isMul : Bool) (c : Checked) :
    ∃ imms used, trackImmediate inst isMul c =
      { c with state.liveImmediates := imms, state.allRegistersUsed := used } := by
  simp only [trackImmediate]
  split <;> exact ⟨_, _, rfl⟩

lemma trackLiveClamps_eq (stray : Stray) (inst : Inst) (c : Checked) :
    ∃ maxs mins, trackLiveClamps stray inst c = { c with state := { c.state with
      liveMaxClampRegs := maxs, liveMinClampOffsets := mins } } := by
  have hv : ∀ d d' : Option ℕ, ∃ maxs mins, (c.state.clearClamp? d).clearClamp? d' =
      { c.state with liveMaxClampRegs := maxs, liveMinClampOffsets := mins } := by
    intro d d'
    cases d <;> cases d' <;> exact ⟨_, _, rfl⟩
  obtain ⟨maxs, mins, heq⟩ := hv (waddrToLiveRegIndex inst.waddrMul (!inst.ws))
    (waddrToLiveRegIndex inst.waddrAdd inst.ws)
  simp only [trackLiveClamps, heq]
  split
  · exact ⟨_, _, rfl⟩
  · split_ifs <;> exact ⟨_, _, rfl⟩

lemma checkBranch_eq (h : checkBranch inst c = some c') :
    inst.waddrAdd = wNop ∧ inst.waddrMul = wNop ∧
      c' = { c with state := { c.state with needsUniformAddressForLoop :=
        c.state.needsUniformAddressForLoop || decide (inst.branchTarget < 0) } } := by
  simp only [checkBranch, ite_none_left_eq_some, Option.some.injEq, not_or, not_not] at h
  exact ⟨h.1.1, h.1.2, h.2.symm⟩

lemma checkInstructionWrites_one (h : checkInstructionWrites stray inst c = some c') :
    ¬ (isTmuWrite inst.waddrAdd = true ∧ isTmuWrite inst.waddrMul = true) := by
  intro hboth
  simp [checkInstructionWrites, hboth] at h

end Inversion

/-! ## What the checks leave alone -/

/-- Two states of the checks that agree on the position and on the results of the first pass. -/
structure Frame (c c' : Checked) : Prop where
  ip : c'.state.ip = c.state.ip
  maxIp : c'.state.maxIp = c.state.maxIp
  branchTargets : c'.state.branchTargets = c.state.branchTargets

lemma Frame.trans {c1 c2 c3 : Checked} (h : Frame c1 c2) (h' : Frame c2 c3) : Frame c1 c3 :=
  ⟨h'.ip.trans h.ip, h'.maxIp.trans h.maxIp, h'.branchTargets.trans h.branchTargets⟩

/-- Moreover they agree on the registers that are tracked as clamped. -/
structure RegFrame (c c' : Checked) : Prop extends Frame c c' where
  maxRegs : c'.state.liveMaxClampRegs = c.state.liveMaxClampRegs
  minOffsets : c'.state.liveMinClampOffsets = c.state.liveMinClampOffsets

lemma RegFrame.trans {c1 c2 c3 : Checked} (h : RegFrame c1 c2) (h' : RegFrame c2 c3) :
    RegFrame c1 c3 :=
  ⟨h.toFrame.trans h'.toFrame, h'.maxRegs.trans h.maxRegs, h'.minOffsets.trans h.minOffsets⟩

section Frames

variable {inst : Inst} {isMul tmu submit isDirect : Bool} {c c' : Checked}

lemma checkTmuWrite_frame (h : checkTmuWrite stray inst isMul c = some c') : RegFrame c c' := by
  obtain ⟨_, _, rfl, -⟩ := checkTmuWrite_eq h
  exact ⟨⟨rfl, rfl, rfl⟩, rfl, rfl⟩

lemma validateUniformAddressWrite_frame
    (h : validateUniformAddressWrite stray inst isMul c = some c') : RegFrame c c' := by
  obtain ⟨-, -, -, -, -, -, -, rfl⟩ := validateUniformAddressWrite_eq h
  exact ⟨⟨rfl, rfl, rfl⟩, rfl, rfl⟩

lemma trackImmediate_frame (inst : Inst) (isMul : Bool) (c : Checked) :
    RegFrame c (trackImmediate inst isMul c) := by
  obtain ⟨_, _, heq⟩ := trackImmediate_eq inst isMul c
  rw [heq]
  exact ⟨⟨rfl, rfl, rfl⟩, rfl, rfl⟩

lemma checkRegWrite_frame (h : checkRegWrite stray inst isMul c = some c') : RegFrame c c' := by
  have htrack := trackImmediate_frame inst isMul c
  simp only [checkRegWrite] at h
  split_ifs at h
  · exact htrack.trans (validateUniformAddressWrite_frame h)
  · exact htrack.trans (checkTmuWrite_frame h)
  · cases h
    exact htrack

lemma trackLiveClamps_frame (stray : Stray) (inst : Inst) (c : Checked) :
    Frame c (trackLiveClamps stray inst c) := by
  obtain ⟨_, _, heq⟩ := trackLiveClamps_eq stray inst c
  rw [heq]
  exact ⟨rfl, rfl, rfl⟩

lemma checkInstructionWrites_frame (h : checkInstructionWrites stray inst c = some c') :
    Frame c c' := by
  unfold checkInstructionWrites at h
  split_ifs at h
  obtain ⟨c2, h2, rfl⟩ := map_eq_some_iff.1 h
  obtain ⟨c1, h1, h2⟩ := bind_eq_some_iff.1 h2
  exact ((checkRegWrite_frame h1).trans (checkRegWrite_frame h2)).toFrame.trans
    (trackLiveClamps_frame stray inst c2)

lemma checkInstructionReads_frame (h : checkInstructionReads inst c = some c') :
    RegFrame c c' := by
  simp only [checkInstructionReads] at h
  split_ifs at h <;> cases h <;> exact ⟨⟨rfl, rfl, rfl⟩, rfl, rfl⟩

lemma checkBranch_frame (h : checkBranch inst c = some c') : RegFrame c c' := by
  obtain ⟨-, -, rfl⟩ := checkBranch_eq h
  exact ⟨⟨rfl, rfl, rfl⟩, rfl, rfl⟩

end Frames

/-- What the pass of the loop at the instruction `i` does to its variables, apart from the
tracking of registers, uniforms and texture units. -/
structure PassFrame (bo : ShaderBo) (i : ℕ) (l l' : LoopState) : Prop where
  ip : l'.state.ip = i
  maxIp : l'.state.maxIp = l.state.maxIp
  branchTargets : l'.state.branchTargets = l.state.branchTargets
  foundShaderEnd : l'.foundShaderEnd = (l.foundShaderEnd || decide ((bo.mem i).sig = .progEnd))
  shaderEndIp : l'.shaderEndIp = if (bo.mem i).sig = .progEnd then i else l.shaderEndIp

lemma enterInst_cases (h : enterInst stray bo ip l = some l') :
    ∃ v : ValidationState, l' = { l with
        state := if (ip : ℤ) = l.lastThreadSwitchIp + 3 then resetAccumulators v else v } ∧
      ((isBranchTarget stray bo l.state ip = false ∧ v = { l.state with ip := ip }) ∨
        (isBranchTarget stray bo l.state ip = true ∧ texturingInProgress l.state = false ∧
          v = { resetValidationState { l.state with ip := ip } with
            needsUniformAddressUpdate := true })) := by
  obtain ⟨v, hv, rfl⟩ := map_eq_some_iff.1 h
  refine ⟨v, rfl, ?_⟩
  have htarget : isBranchTarget stray bo { l.state with ip := ip } ip =
      isBranchTarget stray bo l.state ip := rfl
  rw [handleBranchTarget, htarget] at hv
  cases hb : isBranchTarget stray bo l.state ip with
  | false =>
    rw [if_pos (by simp [hb])] at hv
    exact .inl ⟨rfl, (Option.some.inj hv).symm⟩
  | true =>
    rw [if_neg (by simp [hb]), ite_none_left_eq_some] at hv
    exact .inr ⟨rfl, by simpa [texturingInProgress] using hv.1, (Option.some.inj hv.2).symm⟩

lemma enterInst_frame (h : enterInst stray bo ip l = some l') :
    l'.state.ip = ip ∧ l'.state.maxIp = l.state.maxIp ∧
      l'.state.branchTargets = l.state.branchTargets ∧ l'.foundShaderEnd = l.foundShaderEnd ∧
      l'.shaderEndIp = l.shaderEndIp := by
  obtain ⟨v, rfl, ⟨-, rfl⟩ | ⟨-, -, rfl⟩⟩ := enterInst_cases h <;> dsimp only <;> split_ifs <;>
    exact ⟨rfl, rfl, rfl, rfl, rfl⟩

lemma noteSignal_frame {sig : Sig} (h : noteSignal sig ip l = some l') :
    l'.state = l.state ∧ l'.foundShaderEnd = (l.foundShaderEnd || decide (sig = .progEnd)) ∧
      l'.shaderEndIp = if sig = .progEnd then ip else l.shaderEndIp := by
  simp only [noteSignal] at h
  by_cases hend : sig = .progEnd
  · subst hend
    simp at h
    subst h
    simp
  · split_ifs at h <;> cases h <;> simp [hend]

lemma checkInst_cases {inst : Inst} (h : checkInst stray inst ip l = some l') :
    (inst.sig ≠ .loadImm ∧ inst.sig ≠ .branch ∧ ∃ c1 c2,
      checkInstructionWrites stray inst l.toChecked = some c1 ∧
      checkInstructionReads inst c1 = some c2 ∧
      noteSignal inst.sig ip { l with toChecked := c2 } = some l') ∨
    (inst.sig = .loadImm ∧ ∃ c, checkInstructionWrites stray inst l.toChecked = some c ∧
      l' = { l with toChecked := c }) ∨
    (inst.sig = .branch ∧ ∃ c, checkBranch inst l.toChecked = some c ∧
      l' = { l with toChecked := c }) := by
  by_cases himm : inst.sig = .loadImm
  · rw [checkInst, himm] at h
    obtain ⟨c, hc, rfl⟩ := map_eq_some_iff.1 h
    exact .inr (.inl ⟨himm, c, hc, rfl⟩)
  by_cases hbr : inst.sig = .branch
  · rw [checkInst, hbr] at h
    obtain ⟨c, hc, hl⟩ := bind_eq_some_iff.1 h
    rw [ite_none_left_eq_some] at hl
    exact .inr (.inr ⟨hbr, c, hc, (Option.some.inj hl.2).symm⟩)
  · have halu : ((checkInstructionWrites stray inst l.toChecked).bind
        (checkInstructionReads inst)).bind
          (fun c => noteSignal inst.sig ip { l with toChecked := c }) = some l' := by
      cases hs : inst.sig <;> simp_all [checkInst]
    obtain ⟨c2, hc2, hn⟩ := bind_eq_some_iff.1 halu
    obtain ⟨c1, hc1, hc2⟩ := bind_eq_some_iff.1 hc2
    exact .inl ⟨himm, hbr, c1, c2, hc1, hc2, hn⟩

/-- What the checks do behind those of the writes: an ALU instruction takes the uniform that it
reads. -/
structure Reads (inst : Inst) (c c' : Checked) : Prop where
  state : c'.state = { c.state with allRegistersUsed := c'.state.allRegistersUsed }
  samples : c'.shader.textureSamples = c.shader.textureSamples
  size : c'.shader.uniformsSize = if inst.sig ≠ .loadImm ∧ readsUniform inst then
    c.shader.uniformsSize + 4 else c.shader.uniformsSize

lemma checkInst_writes {inst : Inst} (h : checkInst stray inst ip l = some l') :
    (inst.sig ≠ .branch ∧ ∃ c, checkInstructionWrites stray inst l.toChecked = some c ∧
      Reads inst c l'.toChecked) ∨
    (inst.sig = .branch ∧ checkBranch inst l.toChecked = some l'.toChecked) := by
  rcases checkInst_cases h with ⟨himm, hbr, c1, c2, hc1, hc2, hn⟩ | ⟨hs, c, hc, rfl⟩ |
    ⟨hs, c, hc, rfl⟩
  · refine .inl ⟨hbr, c1, hc1, ?_⟩
    obtain ⟨b, hb⟩ : ∃ b, l'.toChecked = { c2 with shader.isThreaded := b } := by
      simp only [noteSignal] at hn
      split_ifs at hn <;> cases hn <;> exact ⟨_, rfl⟩
    rw [hb]
    simp only [checkInstructionReads] at hc2
    split_ifs at hc2 with hr hno <;> cases hc2
    · exact ⟨rfl, rfl, (if_pos ⟨himm, hr⟩).symm⟩
    · exact ⟨rfl, rfl, (if_neg fun h => hr h.2).symm⟩
  · exact .inl ⟨by simp [hs], c, hc, rfl, rfl, by simp [hs]⟩
  · exact .inr ⟨hs, hc⟩

lemma checkInst_frame {inst : Inst} (h : checkInst stray inst ip l = some l') :
    Frame l.toChecked l'.toChecked ∧
      l'.foundShaderEnd = (l.foundShaderEnd || decide (inst.sig = .progEnd)) ∧
      l'.shaderEndIp = if inst.sig = .progEnd then ip else l.shaderEndIp := by
  rcases checkInst_cases h with ⟨-, -, c1, c2, hc1, hc2, hn⟩ | ⟨hs, c, hc, rfl⟩ | ⟨hs, c, hc, rfl⟩
  · obtain ⟨hstate, hfound, hend⟩ := noteSignal_frame hn
    have hframe := (checkInstructionWrites_frame hc1).trans
      (checkInstructionReads_frame hc2).toFrame
    exact ⟨⟨hstate ▸ hframe.ip, hstate ▸ hframe.maxIp, hstate ▸ hframe.branchTargets⟩, hfound, hend⟩
  · exact ⟨checkInstructionWrites_frame hc, by simp [hs], by simp [hs]⟩
  · exact ⟨(checkBranch_frame hc).toFrame, by simp [hs], by simp [hs]⟩

lemma validateInst_frame (h : validateInst stray bo ip l = some l') : PassFrame bo ip l l' := by
  obtain ⟨l1, h1, h2⟩ := bind_eq_some_iff.1 h
  obtain ⟨hip, hmax, htargets, hfound, hend⟩ := enterInst_frame h1
  obtain ⟨hframe, hfound', hend'⟩ := checkInst_frame h2
  exact ⟨hframe.ip.trans hip, hframe.maxIp.trans hmax, hframe.branchTargets.trans htargets,
    hfound ▸ hfound', hend ▸ hend'⟩

end KmsDrm.Vc4
