import Mathlib

/-!
# QPU instruction words

The fields of a 64-bit QPU instruction, as `vc4_qpu_defines.h` lays them out. Fields that the
validation compares with enumerators only are decoded into enumerations (`Sig`, `OpAdd`, `Cond`,
`Mux`); read and write addresses stay numbers, because the validation does arithmetic on them.

## Main definitions

* `Vc4.Inst` — an instruction word, with its fields.
-/

namespace KmsDrm.Vc4

/-- `uint32_t`. -/
abbrev U32 := BitVec 32

/-- An instruction word. -/
abbrev Inst := BitVec 64

/-- `enum qpu_sig_bits`. -/
inductive Sig where
  | swBreakpoint
  | none
  | threadSwitch
  | progEnd
  | waitForScoreboard
  | scoreboardUnlock
  | lastThreadSwitch
  | coverageLoad
  | colorLoad
  | colorLoadEnd
  | loadTmu0
  | loadTmu1
  | alphaMaskLoad
  | smallImm
  | loadImm
  | branch
  deriving DecidableEq, Repr

/-- The signal encoded by a field. -/
def Sig.ofField : ℕ → Sig
  | 0 => .swBreakpoint
  | 1 => .none
  | 2 => .threadSwitch
  | 3 => .progEnd
  | 4 => .waitForScoreboard
  | 5 => .scoreboardUnlock
  | 6 => .lastThreadSwitch
  | 7 => .coverageLoad
  | 8 => .colorLoad
  | 9 => .colorLoadEnd
  | 10 => .loadTmu0
  | 11 => .loadTmu1
  | 12 => .alphaMaskLoad
  | 13 => .smallImm
  | 14 => .loadImm
  | _ => .branch

/-- `enum qpu_op_add`; the encodings without a name are `reserved`. -/
inductive OpAdd where
  | nop
  | fadd
  | fsub
  | fmin
  | fmax
  | fminabs
  | fmaxabs
  | ftoi
  | itof
  | add
  | sub
  | shr
  | asr
  | ror
  | shl
  | min
  | max
  | and
  | or
  | xor
  | not
  | clz
  | v8adds
  | v8subs
  | reserved
  deriving DecidableEq, Repr

/-- The operation encoded by a field. -/
def OpAdd.ofField : ℕ → OpAdd
  | 0 => .nop
  | 1 => .fadd
  | 2 => .fsub
  | 3 => .fmin
  | 4 => .fmax
  | 5 => .fminabs
  | 6 => .fmaxabs
  | 7 => .ftoi
  | 8 => .itof
  | 12 => .add
  | 13 => .sub
  | 14 => .shr
  | 15 => .asr
  | 16 => .ror
  | 17 => .shl
  | 18 => .min
  | 19 => .max
  | 20 => .and
  | 21 => .or
  | 22 => .xor
  | 23 => .not
  | 24 => .clz
  | 30 => .v8adds
  | 31 => .v8subs
  | _ => .reserved

/-- `enum qpu_cond`. -/
inductive Cond where
  | never
  | always
  | zs
  | zc
  | ns
  | nc
  | cs
  | cc
  deriving DecidableEq, Repr

def Cond.ofField : ℕ → Cond
  | 0 => .never
  | 1 => .always
  | 2 => .zs
  | 3 => .zc
  | 4 => .ns
  | 5 => .nc
  | 6 => .cs
  | _ => .cc

/-- `enum qpu_mux`, the hardware values. -/
inductive Mux where
  | r0
  | r1
  | r2
  | r3
  | r4
  | r5
  | a
  | b
  deriving DecidableEq, Repr

/-- The multiplexer encoded by a field. -/
def Mux.ofField : ℕ → Mux
  | 0 => .r0
  | 1 => .r1
  | 2 => .r2
  | 3 => .r3
  | 4 => .r4
  | 5 => .r5
  | 6 => .a
  | _ => .b

/-! ## Addresses -/

/-- `QPU_R_UNIF`. -/
def rUnif : ℕ := 32

/-- `QPU_W_ACC0`. -/
def wAcc0 : ℕ := 32

/-- `QPU_W_ACC3`. -/
def wAcc3 : ℕ := 35

/-- `QPU_W_TMU_NOSWAP`. -/
def wTmuNoswap : ℕ := 36

/-- `QPU_W_HOST_INT`. -/
def wHostInt : ℕ := 38

/-- `QPU_W_NOP`. -/
def wNop : ℕ := 39

/-- `QPU_W_UNIFORMS_ADDRESS`. -/
def wUniformsAddress : ℕ := 40

/-- `QPU_W_TLB_ALPHA_MASK`. -/
def wTlbAlphaMask : ℕ := 47

/-- `QPU_W_VPM_ADDR`. -/
def wVpmAddr : ℕ := 50

/-- `QPU_W_MUTEX_RELEASE`. -/
def wMutexRelease : ℕ := 51

/-- `QPU_W_TMU0_S`. -/
def wTmu0S : ℕ := 56

/-- `QPU_W_TMU0_B`. -/
def wTmu0B : ℕ := 59

/-- `QPU_W_TMU1_S`. -/
def wTmu1S : ℕ := 60

/-- `QPU_W_TMU1_B`. -/
def wTmu1B : ℕ := 63

/-! ## Fields -/

namespace Inst

variable (inst : Inst)

/-- `QPU_GET_FIELD`, for the field of `len` bits from bit `low` on. -/
def field (low len : ℕ) : ℕ := (inst.extractLsb' low len).toNat

lemma field_lt (low len : ℕ) : field inst low len < 2 ^ len := BitVec.isLt _

/-- `QPU_SIG`. -/
def sig : Sig := .ofField (field inst 60 4)

/-- `QPU_UNPACK`. -/
def unpack : ℕ := field inst 57 3

/-- `QPU_PM`. -/
def pm : Bool := inst.getLsbD 56

/-- `QPU_PACK`; `QPU_PACK_A_NOP` is `0`. -/
def pack : ℕ := field inst 52 4

/-- `QPU_COND_ADD`. -/
def condAdd : Cond := .ofField (field inst 49 3)

/-- `QPU_COND_MUL`. -/
def condMul : Cond := .ofField (field inst 46 3)

/-- `QPU_BRANCH_REL`. -/
def branchRel : Bool := inst.getLsbD 51

/-- `QPU_BRANCH_REG`. -/
def branchReg : Bool := inst.getLsbD 50

/-- `QPU_WS`. -/
def ws : Bool := inst.getLsbD 44

/-- `QPU_WADDR_ADD`. -/
def waddrAdd : ℕ := field inst 38 6

/-- `QPU_WADDR_MUL`. -/
def waddrMul : ℕ := field inst 32 6

/-- `QPU_OP_ADD`. -/
def opAdd : OpAdd := .ofField (field inst 24 5)

/-- `QPU_RADDR_A`. -/
def raddrA : ℕ := field inst 18 6

/-- `QPU_RADDR_B`. -/
def raddrB : ℕ := field inst 12 6

/-- `QPU_ADD_A`. -/
def addA : Mux := .ofField (field inst 9 3)

/-- `QPU_ADD_B`. -/
def addB : Mux := .ofField (field inst 6 3)

/-- `QPU_LOAD_IMM`. -/
def loadImm : U32 := inst.extractLsb' 0 32

/-- `QPU_BRANCH_TARGET`, as the `int32_t` it is read into. -/
def branchTarget : ℤ := (inst.extractLsb' 0 32).toInt

end Inst

/-- An instruction that does nothing but signal. -/
def signal (sig : Inst) : Inst := sig <<< 60 ||| 39 <<< 38 ||| 39 <<< 32 ||| 39 <<< 18 ||| 39 <<< 12

/-- An instruction with an unconditional ADD half. -/
def addInst (sig waddrAdd op raddrA raddrB addA addB : Inst) : Inst :=
  sig <<< 60 ||| 1 <<< 49 ||| waddrAdd <<< 38 ||| 39 <<< 32 ||| op <<< 24 ||| raddrA <<< 18 |||
    raddrB <<< 12 ||| addA <<< 9 ||| addB <<< 6

end KmsDrm.Vc4
