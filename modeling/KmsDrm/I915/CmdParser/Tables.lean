import Mathlib

/-!
# The tables of the batch buffer command parser

The command descriptors and the register whitelists of `i915_cmd_parser.c`, as the source lists
them, with the instruction encodings of `i915_reg.h` they are built from.

## Main definitions

* `I915.CmdDescriptor`, `I915.RegDescriptor` — the entries of the tables.

## Implementation notes

The `length` union of a descriptor is one word, read as a length or as a mask by the flag
`cmdDescFixed`. The array `bits` is the list of its initialised entries: an entry that is left
out has mask zero, and the loop over the array ends at the first of those.
-/

namespace KmsDrm.I915

/-! ## Descriptors -/

/-- An entry of the array `bits`: the dword at `offset`, masked, has the expected value; with a
non-zero `conditionMask` only when one of these bits is set in the dword at `conditionOffset`. -/
structure BitCheck where
  offset : ℕ
  mask : BitVec 32
  expected : BitVec 32
  conditionOffset : ℕ := 0
  conditionMask : BitVec 32 := 0
  deriving DecidableEq, Repr

/-- Where a command holds register addresses: the first at dword `offset`, and further ones
every `step` dwords if `step` is not zero. -/
structure RegField where
  offset : ℕ := 0
  mask : BitVec 32 := 0
  step : ℕ := 0
  deriving DecidableEq, Repr

/-- A command that requires special handling by the parser. -/
structure CmdDescriptor where
  flags : BitVec 32
  /-- The identification bits of the command. -/
  value : BitVec 32
  /-- The mask that selects the identification bits. -/
  mask : BitVec 32
  /-- The length, or the mask of the length field. -/
  length : BitVec 32
  reg : RegField := {}
  bits : List BitCheck := []
  deriving DecidableEq, Repr

def cmdDescFixed : BitVec 32 := 1 <<< 0
/-- The command is allowed but has a length encoding of its own. -/
def cmdDescSkip : BitVec 32 := 1 <<< 1
/-- The command is never allowed. -/
def cmdDescReject : BitVec 32 := 1 <<< 2
/-- The command names registers, which are looked up in the whitelist. -/
def cmdDescRegister : BitVec 32 := 1 <<< 3
/-- The command has dwords with an expected value. -/
def cmdDescBitmask : BitVec 32 := 1 <<< 4

def CmdDescriptor.has (d : CmdDescriptor) (flag : BitVec 32) : Bool := d.flags &&& flag != 0

/-- The descriptor is the one of a command with this header. -/
def CmdDescriptor.fits (d : CmdDescriptor) (cmdHeader : BitVec 32) : Bool :=
  (cmdHeader ^^^ d.value) &&& d.mask == 0

def stdMiOpcodeShift : ℕ := 32 - 9
/-- The shift of the opcode of a 3D command. -/
def std3dOpcodeShift : ℕ := 32 - 16
def std2dOpcodeShift : ℕ := 32 - 10
/-- The shift of the opcode of an MFX command. -/
def stdMfxOpcodeShift : ℕ := 32 - 16
def minOpcodeShift : ℕ := 16

/-- All bits from `shift` on, `~0u << shift`. -/
def opcodeMask (shift : ℕ) : BitVec 32 := BitVec.allOnes 32 <<< shift

/-- The `CMD` macro: of `op` only the bits from `opm` on are kept. -/
def cmd (op : BitVec 32) (opm : ℕ) (f : Bool) (lm fl : BitVec 32) (reg : RegField := {})
    (bits : List BitCheck := []) : CmdDescriptor where
  flags := fl ||| if f then cmdDescFixed else 0
  value := op &&& opcodeMask opm
  mask := opcodeMask opm
  length := lm
  reg := reg
  bits := bits

/-! ## Instruction encodings

The macros of `i915_reg.h`, under their names. -/

def miInstr (opcode flags : BitVec 32) : BitVec 32 := opcode <<< 23 ||| flags
def miNoop : BitVec 32 := miInstr 0 0
def miUserInterrupt : BitVec 32 := miInstr 0x02 0
def miWaitForEvent : BitVec 32 := miInstr 0x03 0
def miArbCheck : BitVec 32 := miInstr 0x05 0
def miReportHead : BitVec 32 := miInstr 0x07 0
def miSuspendFlush : BitVec 32 := miInstr 0x0b 0
def miSemaphoreMbox : BitVec 32 := miInstr 0x16 1
def miStoreDwordIndex : BitVec 32 := miInstr 0x21 1
def miLoadRegisterImm (x : BitVec 32) : BitVec 32 := miInstr 0x22 (2 * x - 1)
def miStoreRegisterMem : BitVec 32 := miInstr 0x24 1
def miLoadRegisterMem : BitVec 32 := miInstr 0x29 1
def miBatchBufferStart : BitVec 32 := miInstr 0x31 0
def miFlush : BitVec 32 := miInstr 0x04 0
def miArbOnOff : BitVec 32 := miInstr 0x08 0
def miPredicate : BitVec 32 := miInstr 0x0C 0
def miTopologyFilter : BitVec 32 := miInstr 0x0D 0
def miSetAppid : BitVec 32 := miInstr 0x0e 0
def miDisplayFlip : BitVec 32 := miInstr 0x14 2
def miSetContext : BitVec 32 := miInstr 0x18 0
def miUrbClear : BitVec 32 := miInstr 0x19 0
def miStoreDwordImm : BitVec 32 := miInstr 0x20 1
def miUpdateGtt : BitVec 32 := miInstr 0x23 0
def miClflush : BitVec 32 := miInstr 0x27 0
def miReportPerfCount : BitVec 32 := miInstr 0x28 0
def miReportPerfCountGgtt : BitVec 32 := 1 <<< 0
def miConditionalBatchBufferEnd : BitVec 32 := miInstr 0x36 0
def gfxOp3dstateVfStatistics : BitVec 32 := 0x3 <<< 29 ||| 0x1 <<< 27 ||| 0x0 <<< 24 ||| 0xB <<< 16
def pipelineSelect : BitVec 32 := 0x3 <<< 29 ||| 0x1 <<< 27 ||| 0x1 <<< 24 ||| 0x4 <<< 16
def mediaVfeState : BitVec 32 := 0x3 <<< 29 ||| 0x2 <<< 27 ||| 0x0 <<< 24 ||| 0x0 <<< 16
def mediaVfeStateMmioAccessMask : BitVec 32 := 0x18
def gpgpuObject : BitVec 32 := 0x3 <<< 29 ||| 0x2 <<< 27 ||| 0x1 <<< 24 ||| 0x4 <<< 16
def gpgpuWalker : BitVec 32 := 0x3 <<< 29 ||| 0x2 <<< 27 ||| 0x1 <<< 24 ||| 0x5 <<< 16
def gfxOp3dstateSoDeclList : BitVec 32 := 0x3 <<< 29 ||| 0x3 <<< 27 ||| 0x1 <<< 24 ||| 0x17 <<< 16
def gfxOpPipeControl (len : BitVec 32) : BitVec 32 :=
  0x3 <<< 29 ||| 0x3 <<< 27 ||| 0x2 <<< 24 ||| (len - 2)
def pipeControlMmioWrite : BitVec 32 := 1 <<< 23
def pipeControlNotify : BitVec 32 := 1 <<< 8
def pipeControlGlobalGttIvb : BitVec 32 := 1 <<< 24
def pipeControlStoreDataIndex : BitVec 32 := 1 <<< 21
def pipeControlPostSyncOpMask : BitVec 32 := 3 <<< 14
def miSetPredicate : BitVec 32 := miInstr 0x01 0
def miRsControl : BitVec 32 := miInstr 0x06 0
def miUrbAtomicAlloc : BitVec 32 := miInstr 0x09 0
def miRsContext : BitVec 32 := miInstr 0x0F 0
def miLoadScanLinesIncl : BitVec 32 := miInstr 0x12 0
def miLoadScanLinesExcl : BitVec 32 := miInstr 0x13 0
def miLoadRegisterReg : BitVec 32 := miInstr 0x2A 0
def miRsStoreDataImm : BitVec 32 := miInstr 0x2B 0
def miLoadUrbMem : BitVec 32 := miInstr 0x2C 0
def miStoreUrbMem : BitVec 32 := miInstr 0x2D 0
def gfxOp3dstateDx9ConstantfVs : BitVec 32 :=
  0x3 <<< 29 ||| 0x3 <<< 27 ||| 0x0 <<< 24 ||| 0x39 <<< 16
def gfxOp3dstateDx9ConstantfPs : BitVec 32 :=
  0x3 <<< 29 ||| 0x3 <<< 27 ||| 0x0 <<< 24 ||| 0x3A <<< 16
def gfxOp3dstateBindingTableEditVs : BitVec 32 :=
  0x3 <<< 29 ||| 0x3 <<< 27 ||| 0x0 <<< 24 ||| 0x43 <<< 16
def gfxOp3dstateBindingTableEditGs : BitVec 32 :=
  0x3 <<< 29 ||| 0x3 <<< 27 ||| 0x0 <<< 24 ||| 0x44 <<< 16
def gfxOp3dstateBindingTableEditHs : BitVec 32 :=
  0x3 <<< 29 ||| 0x3 <<< 27 ||| 0x0 <<< 24 ||| 0x45 <<< 16
def gfxOp3dstateBindingTableEditDs : BitVec 32 :=
  0x3 <<< 29 ||| 0x3 <<< 27 ||| 0x0 <<< 24 ||| 0x46 <<< 16
def gfxOp3dstateBindingTableEditPs : BitVec 32 :=
  0x3 <<< 29 ||| 0x3 <<< 27 ||| 0x0 <<< 24 ||| 0x47 <<< 16
def miFlushDw : BitVec 32 := miInstr 0x26 1
def mfxWait : BitVec 32 := 0x3 <<< 29 ||| 0x1 <<< 27 ||| 0x0 <<< 16
def colorBlt : BitVec 32 := 0x2 <<< 29 ||| 0x40 <<< 22
def srcCopyBlt : BitVec 32 := 0x2 <<< 29 ||| 0x43 <<< 22
def miStoreRegisterMemGen8 : BitVec 32 := miInstr 0x24 2
def miLoadRegisterMemGen8 : BitVec 32 := miInstr 0x29 2
def miBatchBufferStartGen8 : BitVec 32 := miInstr 0x31 1
def miBatchBufferEnd : BitVec 32 := miInstr 0x0a 0
def miGlobalGtt : BitVec 32 := 1 <<< 22
def miFlushDwNotify : BitVec 32 := 1 <<< 8
def miFlushDwUseGtt : BitVec 32 := 1 <<< 2
def miFlushDwStoreIndex : BitVec 32 := 1 <<< 21
def miFlushDwOpMask : BitVec 32 := 3 <<< 14
def miBatchPpgttHsw : BitVec 32 := 1 <<< 8
/-- The bits of `MI_BATCH_BUFFER_START` below the opcode. -/
def miBbStartOperandMask : BitVec 32 := 0x7FFFFF
/-- What these bits have to be. -/
def miBbStartOperandExpect : BitVec 32 := miBatchPpgttHsw ||| 1

/-! ## Command tables -/

def smi : ℕ := stdMiOpcodeShift
def s3d : ℕ := std3dOpcodeShift
def s2d : ℕ := std2dOpcodeShift
def smfx : ℕ := stdMfxOpcodeShift

/-- The check that an MI command does not address the global GTT. -/
def ppgttOnly : BitCheck := { offset := 0, mask := miGlobalGtt, expected := 0 }

/-- The checks of `MI_FLUSH_DW`, the same on every gen7 engine that has it. -/
def miFlushDwBits : List BitCheck :=
  [{ offset := 0, mask := miFlushDwNotify, expected := 0 },
   { offset := 1, mask := miFlushDwUseGtt, expected := 0, conditionOffset := 0,
     conditionMask := miFlushDwOpMask },
   { offset := 0, mask := miFlushDwStoreIndex, expected := 0, conditionOffset := 0,
     conditionMask := miFlushDwOpMask }]

def gen7CommonCmds : List CmdDescriptor :=
  [ cmd miNoop smi true 1 cmdDescSkip,
    cmd miUserInterrupt smi true 1 cmdDescReject,
    cmd miWaitForEvent smi true 1 cmdDescReject,
    cmd miArbCheck smi true 1 cmdDescSkip,
    cmd miReportHead smi true 1 cmdDescSkip,
    cmd miSuspendFlush smi true 1 cmdDescSkip,
    cmd miSemaphoreMbox smi false 0xFF cmdDescReject,
    cmd miStoreDwordIndex smi false 0xFF cmdDescReject,
    cmd (miLoadRegisterImm 1) smi false 0xFF cmdDescRegister
      { offset := 1, mask := 0x007FFFFC, step := 2 },
    cmd miStoreRegisterMem smi true 3 (cmdDescRegister ||| cmdDescBitmask)
      { offset := 1, mask := 0x007FFFFC } [ppgttOnly],
    cmd miLoadRegisterMem smi true 3 (cmdDescRegister ||| cmdDescBitmask)
      { offset := 1, mask := 0x007FFFFC } [ppgttOnly],
    cmd miBatchBufferStart smi false 0xFF cmdDescSkip ]

/-- The commands of the gen7 render engine. -/
def gen7RenderCmds : List CmdDescriptor :=
  [ cmd miFlush smi true 1 cmdDescSkip,
    cmd miArbOnOff smi true 1 cmdDescReject,
    cmd miPredicate smi true 1 cmdDescSkip,
    cmd miTopologyFilter smi true 1 cmdDescSkip,
    cmd miSetAppid smi true 1 cmdDescSkip,
    cmd miDisplayFlip smi false 0xFF cmdDescReject,
    cmd miSetContext smi false 0xFF cmdDescReject,
    cmd miUrbClear smi false 0xFF cmdDescSkip,
    cmd miStoreDwordImm smi false 0x3F cmdDescBitmask {} [ppgttOnly],
    cmd miUpdateGtt smi false 0xFF cmdDescReject,
    cmd miClflush smi false 0x3FF cmdDescBitmask {} [ppgttOnly],
    cmd miReportPerfCount smi false 0x3F cmdDescBitmask {}
      [{ offset := 1, mask := miReportPerfCountGgtt, expected := 0 }],
    cmd miConditionalBatchBufferEnd smi false 0xFF cmdDescBitmask {} [ppgttOnly],
    cmd gfxOp3dstateVfStatistics s3d true 1 cmdDescSkip,
    cmd pipelineSelect s3d true 1 cmdDescSkip,
    cmd mediaVfeState s3d false 0xFFFF cmdDescBitmask {}
      [{ offset := 2, mask := mediaVfeStateMmioAccessMask, expected := 0 }],
    cmd gpgpuObject s3d false 0xFF cmdDescSkip,
    cmd gpgpuWalker s3d false 0xFF cmdDescSkip,
    cmd gfxOp3dstateSoDeclList s3d false 0x1FF cmdDescSkip,
    cmd (gfxOpPipeControl 5) s3d false 0xFF cmdDescBitmask {}
      [{ offset := 1, mask := pipeControlMmioWrite ||| pipeControlNotify, expected := 0 },
        { offset := 1, mask := pipeControlGlobalGttIvb ||| pipeControlStoreDataIndex,
          expected := 0, conditionOffset := 1, conditionMask := pipeControlPostSyncOpMask }] ]

/-- The further commands of the Haswell render engine. -/
def hswRenderCmds : List CmdDescriptor :=
  [ cmd miSetPredicate smi true 1 cmdDescSkip,
    cmd miRsControl smi true 1 cmdDescSkip,
    cmd miUrbAtomicAlloc smi true 1 cmdDescSkip,
    cmd miSetAppid smi true 1 cmdDescSkip,
    cmd miRsContext smi true 1 cmdDescSkip,
    cmd miLoadScanLinesIncl smi false 0x3F cmdDescReject,
    cmd miLoadScanLinesExcl smi false 0x3F cmdDescReject,
    cmd miLoadRegisterReg smi false 0xFF cmdDescRegister
      { offset := 1, mask := 0x007FFFFC, step := 1 },
    cmd miRsStoreDataImm smi false 0xFF cmdDescSkip,
    cmd miLoadUrbMem smi false 0xFF cmdDescSkip,
    cmd miStoreUrbMem smi false 0xFF cmdDescSkip,
    cmd gfxOp3dstateDx9ConstantfVs s3d false 0x7FF cmdDescSkip,
    cmd gfxOp3dstateDx9ConstantfPs s3d false 0x7FF cmdDescSkip,
    cmd gfxOp3dstateBindingTableEditVs s3d false 0x1FF cmdDescSkip,
    cmd gfxOp3dstateBindingTableEditGs s3d false 0x1FF cmdDescSkip,
    cmd gfxOp3dstateBindingTableEditHs s3d false 0x1FF cmdDescSkip,
    cmd gfxOp3dstateBindingTableEditDs s3d false 0x1FF cmdDescSkip,
    cmd gfxOp3dstateBindingTableEditPs s3d false 0x1FF cmdDescSkip ]

/-- The commands of the gen7 video engine. -/
def gen7VideoCmds : List CmdDescriptor :=
  [ cmd miArbOnOff smi true 1 cmdDescReject,
    cmd miSetAppid smi true 1 cmdDescSkip,
    cmd miStoreDwordImm smi false 0xFF cmdDescBitmask {} [ppgttOnly],
    cmd miUpdateGtt smi false 0x3F cmdDescReject,
    cmd miFlushDw smi false 0x3F cmdDescBitmask {} miFlushDwBits,
    cmd miConditionalBatchBufferEnd smi false 0xFF cmdDescBitmask {} [ppgttOnly],
    cmd mfxWait smfx true 1 cmdDescSkip ]

/-- The commands of the gen7 video enhancement engine. -/
def gen7VecsCmds : List CmdDescriptor :=
  [ cmd miArbOnOff smi true 1 cmdDescReject,
    cmd miSetAppid smi true 1 cmdDescSkip,
    cmd miStoreDwordImm smi false 0xFF cmdDescBitmask {} [ppgttOnly],
    cmd miUpdateGtt smi false 0x3F cmdDescReject,
    cmd miFlushDw smi false 0x3F cmdDescBitmask {} miFlushDwBits,
    cmd miConditionalBatchBufferEnd smi false 0xFF cmdDescBitmask {} [ppgttOnly] ]

/-- The commands of the gen7 blitter. -/
def gen7BltCmds : List CmdDescriptor :=
  [ cmd miDisplayFlip smi false 0xFF cmdDescReject,
    cmd miStoreDwordImm smi false 0x3FF cmdDescBitmask {} [ppgttOnly],
    cmd miUpdateGtt smi false 0x3F cmdDescReject,
    cmd miFlushDw smi false 0x3F cmdDescBitmask {} miFlushDwBits,
    cmd colorBlt s2d false 0x3F cmdDescSkip,
    cmd srcCopyBlt s2d false 0x3F cmdDescSkip ]

/-- The further commands of the Haswell blitter. -/
def hswBltCmds : List CmdDescriptor :=
  [ cmd miLoadScanLinesIncl smi false 0x3F cmdDescReject,
    cmd miLoadScanLinesExcl smi false 0x3F cmdDescReject ]

/-- The commands of the gen9 blitter: those that name registers or have a length of their own. -/
def gen9BltCmds : List CmdDescriptor :=
  [ cmd miNoop smi true 1 cmdDescSkip,
    cmd miUserInterrupt smi true 1 cmdDescSkip,
    cmd miWaitForEvent smi true 1 cmdDescSkip,
    cmd miFlush smi true 1 cmdDescSkip,
    cmd miArbCheck smi true 1 cmdDescSkip,
    cmd miReportHead smi true 1 cmdDescSkip,
    cmd miArbOnOff smi true 1 cmdDescSkip,
    cmd miSuspendFlush smi true 1 cmdDescSkip,
    cmd miLoadScanLinesIncl smi false 0x3F cmdDescSkip,
    cmd miLoadScanLinesExcl smi false 0x3F cmdDescSkip,
    cmd miStoreDwordImm smi false 0x3FF cmdDescSkip,
    cmd (miLoadRegisterImm 1) smi false 0xFF cmdDescRegister
      { offset := 1, mask := 0x007FFFFC, step := 2 },
    cmd miUpdateGtt smi false 0x3FF cmdDescSkip,
    cmd miStoreRegisterMemGen8 smi true 4 cmdDescRegister
      { offset := 1, mask := 0x007FFFFC },
    cmd miFlushDw smi false 0x3F cmdDescSkip,
    cmd miLoadRegisterMemGen8 smi true 4 cmdDescRegister
      { offset := 1, mask := 0x007FFFFC },
    cmd miLoadRegisterReg smi false 0xFF cmdDescRegister
      { offset := 1, mask := 0x007FFFFC, step := 1 },
    cmd miBatchBufferStartGen8 smi false 0xFF cmdDescBitmask {}
      [{ offset := 0, mask := miBbStartOperandMask, expected := miBbStartOperandExpect }] ]

/-- The descriptor the parse starts with. -/
def noopDesc : CmdDescriptor := cmd miNoop smi true 1 cmdDescSkip

def gen7RenderCmdTable : List (List CmdDescriptor) := [gen7CommonCmds, gen7RenderCmds]
/-- The tables of the Haswell render engine. -/
def hswRenderRingCmdTable : List (List CmdDescriptor) :=
  [gen7CommonCmds, gen7RenderCmds, hswRenderCmds]
def gen7VideoCmdTable : List (List CmdDescriptor) := [gen7CommonCmds, gen7VideoCmds]
/-- The tables of the video enhancement engine. -/
def hswVeboxCmdTable : List (List CmdDescriptor) := [gen7CommonCmds, gen7VecsCmds]
def gen7BltCmdTable : List (List CmdDescriptor) := [gen7CommonCmds, gen7BltCmds]
/-- The tables of the Haswell blitter. -/
def hswBltRingCmdTable : List (List CmdDescriptor) := [gen7CommonCmds, gen7BltCmds, hswBltCmds]
def gen9BltCmdTable : List (List CmdDescriptor) := [gen9BltCmds]

/-! ## Register whitelists -/

/-- A whitelist entry. With a non-zero `mask` the value an immediate write gives to the register,
masked, has to be `value`, and other writes are not allowed. -/
structure RegDescriptor where
  addr : BitVec 32
  mask : BitVec 32 := 0
  value : BitVec 32 := 0
  deriving DecidableEq, Repr

/-- The `REG32` macro without a mask. -/
def reg32 (reg : BitVec 32) : List RegDescriptor := [{ addr := reg }]

/-- The `REG64` macro: both halves of a 64-bit register. -/
def reg64 (reg : BitVec 32) : List RegDescriptor := [{ addr := reg }, { addr := reg + 4 }]

def renderRingBase : BitVec 32 := 0x02000
def bsdRingBase : BitVec 32 := 0x04000
def bltRingBase : BitVec 32 := 0x22000
def ringTimestamp (base : BitVec 32) : BitVec 32 := base + 0x358
def gen7SoNumPrimsWritten (n : BitVec 32) : BitVec 32 := 0x5200 + n * 8
def gen7SoPrimStorageNeeded (n : BitVec 32) : BitVec 32 := 0x5240 + n * 8
def gen7SoWriteOffset (n : BitVec 32) : BitVec 32 := 0x5280 + n * 4
def hswCsGpr (n : BitVec 32) : BitVec 32 := 0x2600 + n * 8
def bcsSwctrl : BitVec 32 := 0x22200
def bcsGpr (n : BitVec 32) : BitVec 32 := 0x22600 + n * 8
def hswScratch1 : BitVec 32 := 0xb038
def hswScratch1L3DataAtomicsDisable : BitVec 32 := 1 <<< 27
def hswRowChicken3 : BitVec 32 := 0xe49c
def hswRowChicken3L3GlobalAtomicsDisable : BitVec 32 := 1 <<< 6

/-- The registers of the gen7 render engine. -/
def gen7RenderRegs : List RegDescriptor :=
  -- GPGPU_THREADS_DISPATCHED, then HS, DS, IA, VS, GS, CL and PS counters
  reg64 0x2290 ++ reg64 0x2300 ++ reg64 0x2308 ++ reg64 0x2310 ++ reg64 0x2318 ++
  reg64 0x2320 ++ reg64 0x2328 ++ reg64 0x2330 ++ reg64 0x2338 ++ reg64 0x2340 ++
  reg64 0x2348 ++ reg64 0x2350 ++ reg64 (ringTimestamp renderRingBase) ++
  -- MI_PREDICATE_SRC0, MI_PREDICATE_SRC1
  reg64 0x2400 ++ reg64 0x2408 ++
  -- GEN7_3DPRIM_END_OFFSET to GEN7_3DPRIM_BASE_VERTEX
  reg32 0x2420 ++ reg32 0x2430 ++ reg32 0x2434 ++ reg32 0x2438 ++ reg32 0x243C ++
  reg32 0x2440 ++
  -- GEN7_GPGPU_DISPATCHDIMX, Y and Z
  reg32 0x2500 ++ reg32 0x2504 ++ reg32 0x2508 ++
  reg64 (ringTimestamp bsdRingBase) ++
  reg64 (gen7SoNumPrimsWritten 0) ++ reg64 (gen7SoNumPrimsWritten 1) ++
  reg64 (gen7SoNumPrimsWritten 2) ++ reg64 (gen7SoNumPrimsWritten 3) ++
  reg64 (gen7SoPrimStorageNeeded 0) ++ reg64 (gen7SoPrimStorageNeeded 1) ++
  reg64 (gen7SoPrimStorageNeeded 2) ++ reg64 (gen7SoPrimStorageNeeded 3) ++
  reg32 (gen7SoWriteOffset 0) ++ reg32 (gen7SoWriteOffset 1) ++
  reg32 (gen7SoWriteOffset 2) ++ reg32 (gen7SoWriteOffset 3) ++
  -- GEN7_L3SQCREG1, GEN7_L3CNTLREG2, GEN7_L3CNTLREG3
  reg32 0xB010 ++ reg32 0xB020 ++ reg32 0xB024 ++
  reg64 (ringTimestamp bltRingBase)

/-- The further registers of the Haswell render engine; the last two have a mask. -/
def hswRenderRegs : List RegDescriptor :=
  reg64 (hswCsGpr 0) ++ reg64 (hswCsGpr 1) ++ reg64 (hswCsGpr 2) ++ reg64 (hswCsGpr 3) ++
  reg64 (hswCsGpr 4) ++ reg64 (hswCsGpr 5) ++ reg64 (hswCsGpr 6) ++ reg64 (hswCsGpr 7) ++
  reg64 (hswCsGpr 8) ++ reg64 (hswCsGpr 9) ++ reg64 (hswCsGpr 10) ++ reg64 (hswCsGpr 11) ++
  reg64 (hswCsGpr 12) ++ reg64 (hswCsGpr 13) ++ reg64 (hswCsGpr 14) ++ reg64 (hswCsGpr 15) ++
  [{ addr := hswScratch1, mask := ~~~hswScratch1L3DataAtomicsDisable, value := 0 },
   { addr := hswRowChicken3,
     mask := ~~~(hswRowChicken3L3GlobalAtomicsDisable <<< 16 |||
       hswRowChicken3L3GlobalAtomicsDisable),
     value := 0 }]

/-- The registers of the gen7 blitter. -/
def gen7BltRegs : List RegDescriptor :=
  reg64 (ringTimestamp renderRingBase) ++ reg64 (ringTimestamp bsdRingBase) ++
  reg32 bcsSwctrl ++ reg64 (ringTimestamp bltRingBase)

/-- The registers of the gen9 blitter. -/
def gen9BltRegs : List RegDescriptor :=
  reg64 (ringTimestamp renderRingBase) ++ reg64 (ringTimestamp bsdRingBase) ++
  reg32 bcsSwctrl ++ reg64 (ringTimestamp bltRingBase) ++
  reg64 (bcsGpr 0) ++ reg64 (bcsGpr 1) ++ reg64 (bcsGpr 2) ++ reg64 (bcsGpr 3) ++
  reg64 (bcsGpr 4) ++ reg64 (bcsGpr 5) ++ reg64 (bcsGpr 6) ++ reg64 (bcsGpr 7) ++
  reg64 (bcsGpr 8) ++ reg64 (bcsGpr 9) ++ reg64 (bcsGpr 10) ++ reg64 (bcsGpr 11) ++
  reg64 (bcsGpr 12) ++ reg64 (bcsGpr 13) ++ reg64 (bcsGpr 14) ++ reg64 (bcsGpr 15)

def ivbRenderRegTables : List (List RegDescriptor) := [gen7RenderRegs]
/-- The whitelists of the Ivybridge blitter. -/
def ivbBltRegTables : List (List RegDescriptor) := [gen7BltRegs]
def hswRenderRegTables : List (List RegDescriptor) := [gen7RenderRegs, hswRenderRegs]
/-- The whitelists of the Haswell blitter. -/
def hswBltRegTables : List (List RegDescriptor) := [gen7BltRegs]
/-- The whitelists of the gen9 blitter. -/
def gen9BltRegTables : List (List RegDescriptor) := [gen9BltRegs]

end KmsDrm.I915
