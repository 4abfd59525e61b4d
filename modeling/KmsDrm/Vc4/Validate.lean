import KmsDrm.Vc4.Texture
import KmsDrm.Vc4.ValidateShaders

/-!
# Validation of a binning job

A binning job comes as a command list, shader records and uniforms. `vc4_get_bcl` copies them
into one buffer and writes a validated copy, with the handles of buffer objects replaced by
addresses, into an object of the kernel: the command list first (`vc4_validate_bin_cl`), which
says which shader records there are and which vertices they are used with, then the records and
the uniforms of their shaders (`vc4_validate_shader_recs`).

## Main definitions

* `Vc4.Job`, `Vc4.Exec` — a job and the state of its validation.
* `Vc4.getBcl` — `vc4_get_bcl`.

## Implementation notes

A failed validation keeps the state in which it failed, as `exec` does in the source. Besides the
fields of `exec`, the state has a record of every address that was written for an object of the
job (`Exec.relocs`) and of every access to the shader records and uniforms (`Exec.accesses`); no
decision depends on them. Pointers into the two buffers are offsets. What a read behind the
copied data finds is left open, and so is the pointer that `exec->bo[exec->bo_count]` gives
(`Job.boStray`). Failures to allocate or to copy end the job before its validation and are left
out.
-/

namespace KmsDrm.Vc4

-- the indices of handles and of parameters
local instance neZero_two : NeZero 2 := ⟨two_ne_zero⟩
local instance neZero_four : NeZero 4 := ⟨four_ne_zero⟩

/-! ## Memory -/

abbrev Byte := BitVec 8

/-- Memory from some address on. -/
abbrev Mem := ℕ → Byte

namespace Mem

/-- The little-endian half word at an address. -/
def read16 (m : Mem) (a : ℕ) : BitVec 16 := m (a + 1) ++ m a

/-- The little-endian word at an address. -/
def read32 (m : Mem) (a : ℕ) : U32 := m (a + 3) ++ m (a + 2) ++ m (a + 1) ++ m a

def write8 (m : Mem) (a : ℕ) (b : Byte) : Mem := fun i => if i = a then b else m i

/-- Write a little-endian word. -/
def write32 (m : Mem) (a : ℕ) (w : U32) : Mem := fun i =>
  if a ≤ i ∧ i < a + 4 then w.extractLsb' (8 * (i - a)) 8 else m i

/-- `memcpy` of `n` bytes, from the address `b` of another memory to `a`. -/
def copy (m : Mem) (a : ℕ) (src : Mem) (b n : ℕ) : Mem := fun i =>
  if a ≤ i ∧ i < a + n then src (b + (i - a)) else m i

end Mem

/-! ## Objects -/

/-- `validated_shader` of an object: what `vc4_validate_shader` has returned for its code. -/
structure ValidatedShader where
  stray : Stray
  code : ShaderBo
  info : ValidatedShaderInfo
  accepted : validateShader stray code = some info

/-- A buffer object. It is allocated in pages, in the 32-bit address space of the V3D. -/
structure Bo where
  paddr : U32
  size : ℕ
  writeSeqno : BitVec 64
  validatedShader : Option ValidatedShader
  paddr_mod : paddr.toNat % 4096 = 0
  size_mod : size % 4096 = 0
  size_pos : 0 < size
  fits : paddr.toNat + size ≤ 2 ^ 32

/-- What the address of an object that is written into the job is for, with the words of the
packet or record that say how much is accessed through it. -/
inductive Use
  /-- Indices of the given size. -/
  | indexBuffer (length indexSize : U32)
  /-- The code of a shader. -/
  | shader
  /-- An attribute of the vertices of the given shader state. -/
  | attribute (state : ℕ) (attrSize stride : U32)
  /-- The sample `i` of a shader. -/
  | sample (shader : ValidatedShader) (i : ℕ) (words : TexWords)

/-- An address that was written for an object. -/
structure Reloc where
  word : U32
  bo : Bo
  use : Use

/-- The areas that the validation walks through: shader records and uniforms, in the copy of the
user's data (`_u`) and in the validated one (`_v`). -/
inductive Area
  | shaderRecU
  | shaderRecV
  | uniformsU
  | uniformsV
  deriving DecidableEq, Repr

structure Access where
  area : Area
  start : ℕ
  length : ℕ
  deriving DecidableEq, Repr

/-! ## Jobs -/

/-- The arguments of `drm_vc4_submit_cl` that the validation uses. -/
structure SubmitCl where
  binClSize : U32
  shaderRecSize : U32
  uniformsSize : U32
  shaderRecCount : U32

/-- What a job consists of. -/
structure Job where
  args : SubmitCl
  /-- The buffer with the copied data, and what lies behind it. -/
  temp : Mem
  /-- `exec->bo`. -/
  bo : List Bo
  /-- What is found at `exec->bo[exec->bo_count]`. -/
  boStray : Option Bo
  /-- The object for the validated data. -/
  execBo : Bo
  /-- What the object holds before, as it is not cleared. -/
  execMem : Mem
  /-- The memory for the binner. -/
  binBo : Bo
  /-- What `vc4_v3d_get_bin_slot` returns. -/
  binSlot : Except ℤ (Fin 32)

/-- `struct vc4_shader_state`. -/
structure ShaderState where
  addr : U32
  maxIndex : U32

/-- `struct vc4_exec_info`, with the fields that the validation changes. -/
structure Exec where
  boIndex : Fin 2 → U32
  shaderState : List ShaderState
  foundTileBinningModeConfigPacket : Bool
  foundStartTileBinningPacket : Bool
  foundIncrementSemaphorePacket : Bool
  foundFlush : Bool
  binTilesX : Byte
  binTilesY : Byte
  tileAllocOffset : U32
  binSlots : U32
  binDepSeqno : BitVec 64
  ct0ca : U32
  ct0ea : U32
  shaderRecU : ℕ
  shaderRecV : ℕ
  shaderRecP : U32
  shaderRecSize : U32
  uniformsU : ℕ
  uniformsV : ℕ
  uniformsP : U32
  uniformsSize : U32
  /-- The memory of `exec_bo`. -/
  vm : Mem
  relocs : List Reloc
  accesses : List Access

/-- How a validation fails. -/
inductive Fault
  /-- The job is rejected with an error number. -/
  | errno (e : ℤ)
  /-- A `BUG_ON`. -/
  | bug
  /-- A null pointer is followed. -/
  | oops
  deriving DecidableEq, Repr

/-- `-EINVAL`. -/
def einval : Fault := .errno (-22)

/-- The result of a validation step. -/
abbrev Result := Except (Fault × Exec) Exec

namespace Exec

variable (exec : Exec)

/-- Fail in this state. -/
def fail (fault : Fault) : Result := .error (fault, exec)

@[simp] lemma fail_ne_ok (fault : Fault) (exec' : Exec) : exec.fail fault ≠ .ok exec' := by
  simp [fail]

lemma ite_fail_eq_ok {c : Prop} [Decidable c] {fault : Fault} {r : Result} {exec' : Exec} :
    (if c then exec.fail fault else r) = .ok exec' ↔ ¬ c ∧ r = .ok exec' := by
  split_ifs with h <;> simp [h]

/-- Record an access. -/
def access (area : Area) (start length : ℕ) : Exec :=
  { exec with accesses := exec.accesses ++ [⟨area, start, length⟩] }

/-- Write the address of an object plus an offset. -/
def relocate (a : ℕ) (bo : Bo) (offset : U32) (use : Use) : Exec :=
  { exec with
    vm := exec.vm.write32 a (bo.paddr + offset)
    relocs := exec.relocs ++ [⟨bo.paddr + offset, bo, use⟩] }

/-- Wait for the last write to an object. -/
def depend (bo : Bo) : Exec :=
  { exec with binDepSeqno := if exec.binDepSeqno < bo.writeSeqno then bo.writeSeqno
      else exec.binDepSeqno }

end Exec

/-- The positions in the areas, and how much of them is left. -/
structure Cursors where
  shaderRecU : ℕ
  shaderRecV : ℕ
  shaderRecSize : U32
  uniformsU : ℕ
  uniformsV : ℕ
  uniformsSize : U32

/-- The positions of a state. -/
def Exec.cursors (exec : Exec) : Cursors :=
  ⟨exec.shaderRecU, exec.shaderRecV, exec.shaderRecSize, exec.uniformsU, exec.uniformsV,
    exec.uniformsSize⟩

section Fields

variable (exec : Exec) (area : Area) (a start length : ℕ) (bo : Bo) (offset : U32) (use : Use)

@[simp] lemma Exec.access_fields :
    (exec.access area start length).cursors = exec.cursors ∧
    (exec.access area start length).relocs = exec.relocs ∧
    (exec.access area start length).accesses = exec.accesses ++ [⟨area, start, length⟩] :=
  ⟨rfl, rfl, rfl⟩

@[simp] lemma Exec.relocate_fields :
    (exec.relocate a bo offset use).cursors = exec.cursors ∧
    (exec.relocate a bo offset use).relocs = exec.relocs ++ [⟨bo.paddr + offset, bo, use⟩] ∧
    (exec.relocate a bo offset use).accesses = exec.accesses :=
  ⟨rfl, rfl, rfl⟩

@[simp] lemma Exec.depend_fields :
    (exec.depend bo).cursors = exec.cursors ∧
    (exec.depend bo).relocs = exec.relocs ∧
    (exec.depend bo).accesses = exec.accesses :=
  ⟨rfl, rfl, rfl⟩

end Fields

/-! ## Lookup -/

/-- `exec->bo[hindex]`, also for the index behind the last. -/
def Job.boAt (job : Job) (hindex : ℕ) : Option Bo :=
  if hindex < job.bo.length then job.bo[hindex]? else job.boStray

/-- `vc4_use_bo`. -/
def useBo (job : Job) (hindex : U32) : Option Bo :=
  if job.bo.length ≤ hindex.toNat then none
  else (job.bo[hindex.toNat]?).filter fun bo => bo.validatedShader.isNone

/-- `vc4_use_handle`. -/
def useHandle (job : Job) (exec : Exec) (i : Fin 2) : Option Bo := useBo job (exec.boIndex i)

/-- `nr_attributes` of a shader state. -/
def nrAttributes (addr : U32) : ℕ := if addr &&& 7 = 0 then 8 else (addr &&& 7).toNat

/-- `gl_shader_rec_size`. -/
def glShaderRecSize (pointerBits : U32) : ℕ :=
  if pointerBits &&& 8 ≠ 0 then 100 + nrAttributes pointerBits * 4
  else 36 + nrAttributes pointerBits * 8

/-- `nr_relocs` of a shader state: the three shaders and the attributes. -/
def nrRelocs (addr : U32) : ℕ := 3 + nrAttributes addr

/-! ## Packets of the command list -/

/-- The packets that a command list may have. -/
inductive Packet
  | halt | nop | flush | flushAll | startTileBinning | incrementSemaphore
  | glIndexedPrimitive | glArrayPrimitive | primitiveListFormat | glShaderState
  | configurationBits | flatShadeFlags | pointSize | lineWidth | rhtXBoundary | depthOffset
  | clipWindow | viewportOffset | clipperXyScaling | clipperZScaling
  | tileBinningModeConfig | gemHandles
  deriving DecidableEq, Repr

/-- The index into `cmd_info`, where it has an entry. -/
def Packet.ofByte (cmd : Byte) : Option Packet :=
  match cmd.toNat with
  | 0 => some .halt
  | 1 => some .nop
  | 4 => some .flush
  | 5 => some .flushAll
  | 6 => some .startTileBinning
  | 7 => some .incrementSemaphore
  | 32 => some .glIndexedPrimitive
  | 33 => some .glArrayPrimitive
  | 56 => some .primitiveListFormat
  | 64 => some .glShaderState
  | 96 => some .configurationBits
  | 97 => some .flatShadeFlags
  | 98 => some .pointSize
  | 99 => some .lineWidth
  | 100 => some .rhtXBoundary
  | 101 => some .depthOffset
  | 102 => some .clipWindow
  | 103 => some .viewportOffset
  | 105 => some .clipperXyScaling
  | 106 => some .clipperZScaling
  | 112 => some .tileBinningModeConfig
  | 254 => some .gemHandles
  | _ => none

/-- The length of a packet, with the byte that names it. -/
def Packet.len : Packet → ℕ
  | .halt | .nop | .flush | .flushAll | .startTileBinning | .incrementSemaphore => 1
  | .glIndexedPrimitive => 14
  | .glArrayPrimitive => 10
  | .primitiveListFormat => 2
  | .glShaderState => 5
  | .configurationBits => 4
  | .flatShadeFlags | .pointSize | .lineWidth | .depthOffset | .viewportOffset => 5
  | .rhtXBoundary => 3
  | .clipWindow | .clipperXyScaling | .clipperZScaling => 9
  | .tileBinningModeConfig => 16
  | .gemHandles => 9

/-- `vc4->bin_alloc_size`. -/
def binAllocSize : U32 := 512 * 1024

section Packets

variable (job : Job) (untrusted validated : ℕ) (exec : Exec)

/-- `validate_bin_pos`. -/
def validateBinPos (pos : U32) : Bool := untrusted - 1 = pos.toNat

/-- `validate_flush`. -/
def validateFlush : Result :=
  if !validateBinPos untrusted (job.args.binClSize - 1) then exec.fail einval
  else .ok { exec with foundFlush := true }

/-- `validate_start_tile_binning`. -/
def validateStartTileBinning : Result :=
  if exec.foundStartTileBinningPacket then exec.fail einval
  else
    let exec := { exec with foundStartTileBinningPacket := true }
    if !exec.foundTileBinningModeConfigPacket then exec.fail einval else .ok exec

/-- `validate_increment_semaphore`. -/
def validateIncrementSemaphore : Result :=
  if !validateBinPos untrusted (job.args.binClSize - 2) then exec.fail einval
  else .ok { exec with foundIncrementSemaphorePacket := true }

/-- Raise the `max_index` of the last shader state; `none` where there is none. -/
def Exec.raiseMaxIndex (exec : Exec) (maxIndex : U32) : Option Exec :=
  exec.shaderState.getLast?.map fun state =>
    if state.maxIndex < maxIndex then
      { exec with
        shaderState := exec.shaderState.dropLast ++ [{ state with maxIndex := maxIndex }] }
    else exec

/-- `index_size` of the primitives at an address. -/
def indexSizeAt (temp : Mem) (untrusted : ℕ) : U32 := if temp untrusted >>> 4 ≠ 0 then 2 else 1

/-- `validate_indexed_prim_list`. -/
def validateIndexedPrimList : Result :=
  let length := job.temp.read32 (untrusted + 1)
  let offset := job.temp.read32 (untrusted + 5)
  let maxIndex := job.temp.read32 (untrusted + 9)
  let indexSize := indexSizeAt job.temp untrusted
  match exec.raiseMaxIndex maxIndex with
  | none => exec.fail einval
  | some exec =>
    match useHandle job exec 0 with
    | none => exec.fail einval
    | some ib =>
      let exec := exec.depend ib
      if ib.size < offset.toNat ∨ (ib.size - offset.toNat) / indexSize.toNat < length.toNat then
        exec.fail einval
      else .ok (exec.relocate (validated + 5) ib offset (.indexBuffer length indexSize))

/-- `validate_gl_array_primitive`. -/
def validateGlArrayPrimitive : Result :=
  let length := job.temp.read32 (untrusted + 1)
  let baseIndex := job.temp.read32 (untrusted + 5)
  if exec.shaderState = [] then exec.fail einval
  else if length + baseIndex < length then exec.fail einval
  else
    match exec.raiseMaxIndex (length + baseIndex - 1) with
    | none => exec.fail einval
    | some exec => .ok exec

/-- `validate_gl_shader_state`. -/
def validateGlShaderState : Result :=
  if job.args.shaderRecCount.toNat ≤ exec.shaderState.length then exec.fail einval
  else
    let addr := job.temp.read32 untrusted
    let exec := { exec with shaderState := exec.shaderState ++ [(⟨addr, 0⟩ : ShaderState)] }
    if addr &&& ~~~0xf ≠ 0 then exec.fail einval
    else
      .ok { exec with
        vm := exec.vm.write32 validated (exec.shaderRecP + addr)
        shaderRecP := exec.shaderRecP + BitVec.ofNat 32 (roundUp (glShaderRecSize addr) 16) }

/-- `validate_tile_binning_config`. -/
def validateTileBinningConfig : Result :=
  if exec.foundTileBinningModeConfigPacket then exec.fail einval
  else
    let exec : Exec := { exec with
      foundTileBinningModeConfigPacket := true
      binTilesX := job.temp (untrusted + 12)
      binTilesY := job.temp (untrusted + 13) }
    let tileCount : U32 := exec.binTilesX.setWidth 32 * exec.binTilesY.setWidth 32
    let flags := job.temp (untrusted + 14)
    if exec.binTilesX = 0 ∨ exec.binTilesY = 0 then exec.fail einval
    else if flags &&& 0x82 ≠ 0 then exec.fail einval
    else
      match job.binSlot with
      | .error e => exec.fail (.errno e)
      | .ok slot =>
        let binAddr := job.binBo.paddr + BitVec.ofNat 32 slot * binAllocSize
        let tileStateSize := 48 * tileCount
        let tileAllocOffset := binAddr + BitVec.ofNat 32 (roundUp tileStateSize.toNat 4096)
        -- the block sizes become 32 for the first and 128 for the others
        let vm := exec.vm.write8 (validated + 14) ((flags &&& ~~~0x78) ||| 0x04 ||| 0x40)
        let vm := vm.write32 validated tileAllocOffset
        let vm := vm.write32 (validated + 4) (binAddr + binAllocSize - tileAllocOffset)
        let vm := vm.write32 (validated + 8) binAddr
        .ok { exec with
          binSlots := exec.binSlots ||| (1 <<< slot.val)
          tileAllocOffset := tileAllocOffset
          vm := vm }

/-- `validate_gem_handles`. -/
def validateGemHandles : Result :=
  .ok { exec with boIndex := fun i => job.temp.read32 (untrusted + 4 * i) }

/-- The function of a packet in `cmd_info`. -/
def validatePacket (packet : Packet) : Result :=
  match packet with
  | .flush => validateFlush job untrusted exec
  | .startTileBinning => validateStartTileBinning exec
  | .incrementSemaphore => validateIncrementSemaphore job untrusted exec
  | .glIndexedPrimitive => validateIndexedPrimList job untrusted validated exec
  | .glArrayPrimitive => validateGlArrayPrimitive job untrusted exec
  | .glShaderState => validateGlShaderState job untrusted validated exec
  | .tileBinningModeConfig => validateTileBinningConfig job untrusted validated exec
  | .gemHandles => validateGemHandles job untrusted exec
  | _ => .ok exec

end Packets

/-- The packet at `src` is copied to `dst`, unless it has no meaning for the hardware. -/
def copyPacket (job : Job) (packet : Packet) (src dst : ℕ) (exec : Exec) : Exec :=
  if packet ≠ .gemHandles then { exec with vm := exec.vm.copy dst job.temp src packet.len }
  else exec

/-- `dst_offset` behind a packet. -/
def nextDst (packet : Packet) (dst : ℕ) : ℕ :=
  if packet ≠ .gemHandles then dst + packet.len else dst

/-- The loop of `vc4_validate_bin_cl`; it returns how much of the validated list is written. There
are never more turns than bytes, as a packet has at least one. -/
def binClLoop (job : Job) : ℕ → ℕ → ℕ → Exec → Except (Fault × Exec) (ℕ × Exec)
  | 0, _, _, exec => .error (einval, exec)
  | fuel + 1, src, dst, exec =>
    if src < job.args.binClSize.toNat then
      match Packet.ofByte (job.temp src) with
      | none => .error (einval, exec)
      | some packet =>
        if job.args.binClSize.toNat < src + packet.len then .error (einval, exec)
        else
          match validatePacket job (src + 1) (dst + 1) (copyPacket job packet src dst exec)
              packet with
          | .error (_, exec) => .error (einval, exec)
          | .ok exec =>
            if packet = .halt then .ok (nextDst packet dst, exec)
            else binClLoop job fuel (src + packet.len) (nextDst packet dst) exec
    else .ok (dst, exec)

/-- `vc4_validate_bin_cl`. -/
def validateBinCl (job : Job) (exec : Exec) : Result :=
  match binClLoop job (job.args.binClSize.toNat + 1) 0 0 exec with
  | .error e => .error e
  | .ok (dst, exec) =>
    let exec := { exec with ct0ea := exec.ct0ca + BitVec.ofNat 32 dst }
    if !exec.foundStartTileBinningPacket then exec.fail einval
    else if !exec.foundIncrementSemaphorePacket ∨ !exec.foundFlush then exec.fail einval
    else .ok exec

/-! ## Uniforms -/

/-- The texture parameters of a sample, in the uniforms at `data`. -/
def texWordsAt (temp : Mem) (data : ℕ) (sample : TextureSampleInfo) : TexWords where
  p0 := temp.read32 (data + (sample.pOffset 0).toNat)
  p1 := temp.read32 (data + (sample.pOffset 1).toNat)
  p2 := if sample.pOffset 2 ≠ unused then temp.read32 (data + (sample.pOffset 2).toNat) else 0
  p3 := if sample.pOffset 3 ≠ unused then temp.read32 (data + (sample.pOffset 3).toNat) else 0

/-- The accesses to the parameters of a sample. -/
def texAccesses (data : ℕ) (sample : TextureSampleInfo) : List Access :=
  ([0, 1, 2, 3].filter fun i : Fin 4 => i.val < 2 ∨ sample.pOffset i ≠ unused).map fun i =>
    ⟨.uniformsU, data + (sample.pOffset i).toNat, 4⟩

/-- Record that the parameters of a sample are read. -/
def Exec.readTexWords (exec : Exec) (data : ℕ) (sample : TextureSampleInfo) : Exec :=
  { exec with accesses := exec.accesses ++ texAccesses data sample }

section

variable (exec : Exec) (data : ℕ) (sample : TextureSampleInfo)

@[simp] lemma Exec.readTexWords_fields :
    (exec.readTexWords data sample).cursors = exec.cursors ∧
    (exec.readTexWords data sample).relocs = exec.relocs ∧
    (exec.readTexWords data sample).accesses = exec.accesses ++ texAccesses data sample :=
  ⟨rfl, rfl, rfl⟩

end

/-- `reloc_tex`, for the sample `i` of a shader. -/
def relocTex (job : Job) (data : ℕ) (v : ValidatedShader) (i : ℕ) (sample : TextureSampleInfo)
    (textureHandle : U32) (isCs : Bool) (exec : Exec) : Result :=
  let w := texWordsAt job.temp data sample
  let exec := exec.readTexWords data sample
  let validatedP0 := exec.uniformsV + (sample.pOffset 0).toNat
  match useBo job textureHandle with
  | none => exec.fail einval
  | some tex =>
    if sample.isDirect then
      let remainingSize : U32 := BitVec.ofNat 32 tex.size - w.p0
      if tex.size - 4 < w.p0.toNat then exec.fail einval
      else if remainingSize - 4 < w.p1 then exec.fail einval
      else
        .ok ((exec.relocate validatedP0 tex w.p0 (.sample v i w)).access .uniformsV validatedP0 4)
    else if !checkTexture tex.size w then exec.fail einval
    else
      let exec := (exec.relocate validatedP0 tex w.p0 (.sample v i w)).access .uniformsV
        validatedP0 4
      .ok (if isCs then exec.depend tex else exec)

/-- The loop over the samples of a shader, from the sample `i` on. -/
def relocTexs (job : Job) (handles data : ℕ) (v : ValidatedShader) (isCs : Bool) :
    ℕ → List TextureSampleInfo → Exec → Result
  | _, [], exec => .ok exec
  | i, sample :: samples, exec =>
    (relocTex job data v i sample (job.temp.read32 (handles + 4 * i)) isCs
      (exec.access .uniformsU (handles + 4 * i) 4)).bind
        (relocTexs job handles data v isCs (i + 1) samples)

/-- Copy the uniforms of a shader, which are behind the handles of its textures. -/
def Exec.copyUniforms (exec : Exec) (temp : Mem) (shader : ValidatedShaderInfo) : Exec :=
  let data := exec.uniformsU + 4 * shader.textureSamples.length
  let size := shader.uniformsSize.toNat
  ({ exec with vm := exec.vm.copy exec.uniformsV temp data size }.access .uniformsU data
    size).access
    .uniformsV exec.uniformsV size

/-- Fill in the address of the uniforms of the shader where it asks for it. -/
def Exec.fillUniformAddr (exec : Exec) (o : U32) : Exec :=
  { exec with vm := exec.vm.write32 (exec.uniformsV + 4 * o.toNat) exec.uniformsP }.access
    .uniformsV (exec.uniformsV + 4 * o.toNat) 4

/-- Go on to the uniforms of the next shader. -/
def Exec.advanceUniforms (exec : Exec) (shader : ValidatedShaderInfo) : Exec :=
  { exec with
    uniformsU := exec.uniformsU + shader.uniformsSrcSize.toNat
    uniformsV := exec.uniformsV + shader.uniformsSize.toNat
    uniformsP := exec.uniformsP + shader.uniformsSize }

/-! ## Shader records -/

/-- Write the address of a shader to the offset `o` of its record. -/
def Exec.putShader (exec : Exec) (temp : Mem) (pktU pktV o : ℕ) (bo : Bo) : Exec :=
  ((exec.access .shaderRecU (pktU + o) 4).relocate (pktV + o) bo (temp.read32 (pktU + o))
    .shader).access .shaderRecV (pktV + o) 4

/-- Write the address of the uniforms of a shader behind its own address. -/
def Exec.putUniforms (exec : Exec) (pktV o : ℕ) : Exec :=
  { exec with vm := exec.vm.write32 (pktV + o + 4) exec.uniformsP }.access
    .shaderRecV (pktV + o + 4) 4

section Fields

variable (exec : Exec) (temp : Mem) (shader : ValidatedShaderInfo) (pktU pktV o : ℕ) (a : U32)
  (bo : Bo)

@[simp] lemma Exec.copyUniforms_fields :
    (exec.copyUniforms temp shader).cursors = exec.cursors ∧
    (exec.copyUniforms temp shader).relocs = exec.relocs ∧
    (exec.copyUniforms temp shader).accesses = exec.accesses ++
      [⟨.uniformsU, exec.cursors.uniformsU + 4 * shader.textureSamples.length,
          shader.uniformsSize.toNat⟩,
        ⟨.uniformsV, exec.cursors.uniformsV, shader.uniformsSize.toNat⟩] :=
  ⟨rfl, rfl, by simp [copyUniforms, cursors, access]⟩

@[simp] lemma Exec.fillUniformAddr_fields :
    (exec.fillUniformAddr a).cursors = exec.cursors ∧
    (exec.fillUniformAddr a).relocs = exec.relocs :=
  ⟨rfl, rfl⟩

@[simp] lemma Exec.putShader_fields :
    (exec.putShader temp pktU pktV o bo).cursors = exec.cursors ∧
    (exec.putShader temp pktU pktV o bo).relocs =
      exec.relocs ++ [⟨bo.paddr + temp.read32 (pktU + o), bo, .shader⟩] :=
  ⟨rfl, rfl⟩

@[simp] lemma Exec.putUniforms_fields :
    (exec.putUniforms pktV o).cursors = exec.cursors ∧
    (exec.putUniforms pktV o).relocs = exec.relocs :=
  ⟨rfl, rfl⟩

@[simp] lemma Exec.advanceUniforms_fields :
    (exec.advanceUniforms shader).cursors = { exec.cursors with
      uniformsU := exec.cursors.uniformsU + shader.uniformsSrcSize.toNat
      uniformsV := exec.cursors.uniformsV + shader.uniformsSize.toNat } ∧
    (exec.advanceUniforms shader).relocs = exec.relocs :=
  ⟨rfl, rfl⟩

end Fields

/-- What is done for the shader at the offset `o` of a shader record. -/
def relocShader (job : Job) (pktU pktV o : ℕ) (bo : Bo) (isCs : Bool) (exec : Exec) : Result :=
  let exec := exec.putShader job.temp pktU pktV o bo
  if job.temp.read32 (pktU + o) ≠ 0 then exec.fail einval
  else
    match bo.validatedShader with
    | none => exec.fail einval
    | some v =>
      let shader := v.info
      if exec.uniformsSize < shader.uniformsSrcSize then exec.fail einval
      else
        (relocTexs job exec.uniformsU (exec.uniformsU + 4 * shader.textureSamples.length) v isCs 0
          shader.textureSamples (exec.copyUniforms job.temp shader)).bind fun exec =>
            .ok (((shader.uniformAddrOffsets.foldl Exec.fillUniformAddr exec).putUniforms pktV
              o).advanceUniforms shader)

/-- `stride` of the attribute `i`. -/
def attributeStride (temp : Mem) (addr : U32) (pktU i : ℕ) : U32 :=
  let stride : U32 := (temp (pktU + 36 + i * 8 + 5)).setWidth 32
  if addr &&& 8 ≠ 0 then stride ||| (temp.read32 (pktU + 100 + i * 4) &&& ~~~0xff) else stride

/-- `attr_size` of the attribute `i`. -/
def attributeSize (temp : Mem) (pktU i : ℕ) : U32 := (temp (pktU + 36 + i * 8 + 4)).setWidth 32 + 1

/-- What is done for the attribute `i` of the shader record of the shader state `k`. -/
def relocAttribute (job : Job) (k : ℕ) (state : ShaderState) (pktU pktV i : ℕ) (vbo : Bo)
    (exec : Exec) : Result :=
  let o := 36 + i * 8
  let offset := job.temp.read32 (pktU + o)
  let attrSize := attributeSize job.temp pktU i
  let stride := attributeStride job.temp state.addr pktU i
  let exec := (exec.access .shaderRecU (pktU + o) 6).depend vbo
  let exec := if state.addr &&& 8 ≠ 0 then exec.access .shaderRecU (pktU + 100 + i * 4) 4 else exec
  if vbo.size < offset.toNat ∨ vbo.size - offset.toNat < attrSize.toNat then exec.fail einval
  else if stride ≠ 0 ∧
      (vbo.size - offset.toNat - attrSize.toNat) / stride.toNat < state.maxIndex.toNat then
    exec.fail einval
  else
    .ok ((exec.relocate (pktV + o) vbo offset (.attribute k attrSize stride)).access
      .shaderRecV (pktV + o) 4)

/-- The loop over the attributes, from the attribute `i` on. -/
def relocAttributes (job : Job) (k : ℕ) (state : ShaderState) (pktU pktV : ℕ) :
    ℕ → List Bo → Exec → Result
  | _, [], exec => .ok exec
  | i, vbo :: vbos, exec =>
    (relocAttribute job k state pktU pktV i vbo exec).bind
      (relocAttributes job k state pktU pktV (i + 1) vbos)

/-- The lookup of the object of a shader. -/
def lookupShader (job : Job) (handle : U32) : Option Bo :=
  if job.bo.length < handle.toNat then none else job.boAt handle.toNat

/-- The lookup of the objects of `n` attributes, whose handles are at `handles`. -/
def lookupAttributes (job : Job) : ℕ → ℕ → Option (List Bo)
  | _, 0 => some []
  | handles, n + 1 =>
    (useBo job (job.temp.read32 handles)).bind fun vbo =>
      (lookupAttributes job (handles + 4) n).map (vbo :: ·)

/-- `validated_shader->is_threaded`; `none` where there is no validated shader. -/
def Bo.isThreaded (bo : Bo) : Option Bool := bo.validatedShader.map (·.info.isThreaded)

/-- The check of the thread modes of the three shaders of the record at `pktU`. -/
def checkThreads (job : Job) (pktU : ℕ) (fs vs cs : Bo) : Option Fault :=
  match fs.isThreaded with
  | none => some .oops
  | some fsThreaded =>
    if (job.temp.read16 pktU &&& 1 == 0) != fsThreaded then some einval
    else
      match vs.isThreaded with
      | none => some .oops
      | some true => some einval
      | some false =>
        match cs.isThreaded with
        | none => some .oops
        | some true => some einval
        | some false => none

/-- The part of `validate_gl_shader_rec` that looks up the objects and fills in their addresses. -/
def relocRecord (job : Job) (k : ℕ) (state : ShaderState) (srcHandles pktU pktV : ℕ) (exec : Exec) :
    Result :=
  let exec := exec.access .shaderRecU srcHandles (nrRelocs state.addr * 4)
  match lookupShader job (job.temp.read32 srcHandles),
    lookupShader job (job.temp.read32 (srcHandles + 4)),
    lookupShader job (job.temp.read32 (srcHandles + 8)),
    lookupAttributes job (srcHandles + 12) (nrAttributes state.addr) with
  | some fs, some vs, some cs, some vbos =>
    let exec := exec.access .shaderRecU pktU 2
    match checkThreads job pktU fs vs cs with
    | some fault => exec.fail fault
    | none =>
      (relocShader job pktU pktV 4 fs false exec).bind fun exec =>
        (relocShader job pktU pktV 16 vs false exec).bind fun exec =>
          (relocShader job pktU pktV 28 cs true exec).bind
            (relocAttributes job k state pktU pktV 0 vbos)
  | _, _, _, _ => exec.fail einval

/-- Go past the `n` bytes of handles of a record. -/
def Exec.takeHandles (exec : Exec) (n : ℕ) : Exec :=
  { exec with
    shaderRecU := exec.shaderRecU + n
    shaderRecSize := exec.shaderRecSize - BitVec.ofNat 32 n }

/-- Copy the `n` bytes of a record and go past them. -/
def Exec.copyRecord (exec : Exec) (temp : Mem) (n : ℕ) : Exec :=
  ({ exec with
    vm := exec.vm.copy exec.shaderRecV temp exec.shaderRecU n
    shaderRecU := exec.shaderRecU + n }.access .shaderRecU exec.shaderRecU n).access
    .shaderRecV exec.shaderRecV n

/-- Go past the `n` bytes of a validated record, to a multiple of 16. -/
def Exec.finishRecord (exec : Exec) (n : ℕ) : Exec :=
  { exec with
    shaderRecV := exec.shaderRecV + roundUp n 16
    shaderRecSize := exec.shaderRecSize - BitVec.ofNat 32 n }

/-- `validate_gl_shader_rec`, for the shader state `k`. -/
def validateGlShaderRec (job : Job) (k : ℕ) (state : ShaderState) (exec : Exec) : Result :=
  let handlesSize := nrRelocs state.addr * 4
  let packetSize := glShaderRecSize state.addr
  if exec.shaderRecSize.toNat < handlesSize then exec.fail einval
  else
    let taken := exec.takeHandles handlesSize
    if taken.shaderRecSize.toNat < packetSize then taken.fail einval
    else
      let copied := taken.copyRecord job.temp packetSize
      if handlesSize < roundUp packetSize 16 - packetSize then copied.fail .bug
      else
        relocRecord job k state exec.shaderRecU taken.shaderRecU taken.shaderRecV
          (copied.finishRecord packetSize)

section Fields

variable (exec : Exec) (temp : Mem) (n : ℕ)

@[simp] lemma Exec.takeHandles_fields :
    (exec.takeHandles n).cursors = { exec.cursors with
      shaderRecU := exec.cursors.shaderRecU + n
      shaderRecSize := exec.cursors.shaderRecSize - BitVec.ofNat 32 n } ∧
    (exec.takeHandles n).relocs = exec.relocs :=
  ⟨rfl, rfl⟩

@[simp] lemma Exec.copyRecord_fields :
    (exec.copyRecord temp n).cursors = { exec.cursors with
      shaderRecU := exec.cursors.shaderRecU + n } ∧
    (exec.copyRecord temp n).relocs = exec.relocs ∧
    (exec.copyRecord temp n).accesses = exec.accesses ++
      [⟨.shaderRecU, exec.shaderRecU, n⟩, ⟨.shaderRecV, exec.shaderRecV, n⟩] :=
  ⟨rfl, rfl, by simp [copyRecord, access]⟩

@[simp] lemma Exec.finishRecord_fields :
    (exec.finishRecord n).cursors = { exec.cursors with
      shaderRecV := exec.cursors.shaderRecV + roundUp n 16
      shaderRecSize := exec.cursors.shaderRecSize - BitVec.ofNat 32 n } ∧
    (exec.finishRecord n).relocs = exec.relocs :=
  ⟨rfl, rfl⟩

end Fields

/-- The loop of `vc4_validate_shader_recs`, from the shader state `k` on. -/
def shaderRecsLoop (job : Job) : ℕ → List ShaderState → Exec → Result
  | _, [], exec => .ok exec
  | k, state :: states, exec =>
    (validateGlShaderRec job k state exec).bind (shaderRecsLoop job (k + 1) states)

/-- `vc4_validate_shader_recs`. -/
def validateShaderRecs (job : Job) (exec : Exec) : Result :=
  shaderRecsLoop job 0 exec.shaderState exec

/-! ## The job -/

namespace SubmitCl

variable (args : SubmitCl)

/-- `shader_rec_offset`. -/
def shaderRecOffset : U32 := (args.binClSize + 15) / 16 * 16

/-- `uniforms_offset`. -/
def uniformsOffset : U32 := args.shaderRecOffset + args.shaderRecSize

/-- `exec_size`. -/
def execSize : U32 := args.uniformsOffset + args.uniformsSize

/-- `temp_size`. -/
def tempSize : U32 := args.execSize + 8 * args.shaderRecCount

/-- The overflow checks of `vc4_get_bcl`. -/
def overflows : Bool :=
  args.shaderRecOffset < args.binClSize ∨ args.uniformsOffset < args.shaderRecOffset ∨
    args.execSize < args.uniformsOffset ∨ 0xffffffff / 8 ≤ args.shaderRecCount ∨
    args.tempSize < args.execSize

end SubmitCl

/-- `exec`, as `vc4_get_bcl` hands it to the validation. -/
def initExec (job : Job) : Exec where
  boIndex _ := 0
  shaderState := []
  foundTileBinningModeConfigPacket := false
  foundStartTileBinningPacket := false
  foundIncrementSemaphorePacket := false
  foundFlush := false
  binTilesX := 0
  binTilesY := 0
  tileAllocOffset := 0
  binSlots := 0
  binDepSeqno := 0
  ct0ca := job.execBo.paddr
  ct0ea := 0
  shaderRecU := job.args.shaderRecOffset.toNat
  shaderRecV := job.args.shaderRecOffset.toNat
  shaderRecP := job.execBo.paddr + job.args.shaderRecOffset
  shaderRecSize := job.args.shaderRecSize
  uniformsU := job.args.uniformsOffset.toNat
  uniformsV := job.args.uniformsOffset.toNat
  uniformsP := job.execBo.paddr + job.args.uniformsOffset
  uniformsSize := job.args.uniformsSize
  vm := job.execMem
  relocs := []
  accesses := []

/-- `vc4_get_bcl`. -/
def getBcl (job : Job) : Result :=
  if job.args.overflows then (initExec job).fail einval
  else (validateBinCl job (initExec job)).bind (validateShaderRecs job)

end KmsDrm.Vc4
