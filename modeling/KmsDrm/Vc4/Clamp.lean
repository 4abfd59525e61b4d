import KmsDrm.Vc4.ControlFlow

/-!
# The clamps of direct memory reads

A shader may read memory through a texture unit at an address of its own making, if it adds a
uniform, the base address that the kernel relocates, to a register that it has clamped first: to
`0` by a maximum, then to another uniform by a minimum. The validation tracks which registers
hold such a value. This file runs the instructions between two branch targets next to the
tracking, on a QPU that leaves open whatever the tracking does not depend on: the other
operations, packing, flags, the contents of the registers at the start.

## Main definitions

* `Vc4.Run` — a run next to the tracking.
* `Vc4.ClampSound` — what the tracking takes for granted.

## Main results

* `Vc4.direct_read_clamped` — the address of a direct read.
-/

namespace KmsDrm.Vc4

open List Option

variable {c c' : Checked} {inst : Inst} {reg : RegFile} {ptr v : U32} {u : Uniforms} {r : ℕ}

/-! ## The uniform stream -/

/-- The position in the uniform stream, in bytes, and the number of parameters given to each
texture unit since its last submission. -/
structure Stream where
  ptr : U32
  count : Bool → ℕ

/-- A write to a texture unit takes a uniform as its parameter, unless it is a direct read: a
submission without other parameters. -/
def Stream.tmuWrite (waddr : ℕ) (s : Stream) : Stream :=
  if isTmuWrite waddr then
    let tmu : Bool := wTmu0B < waddr
    { ptr := if isTmuSubmit waddr && s.count tmu == 0 then s.ptr else s.ptr + 4
      count := Function.update s.count tmu (if isTmuSubmit waddr then 0 else s.count tmu + 1) }
  else s

/-- The stream that a half of an instruction finds: the ADD half comes first. -/
def Stream.before (inst : Inst) (s : Stream) : Bool → Stream
  | false => s
  | true => s.tmuWrite inst.waddrAdd

/-- The instruction is one with an ALU operation. -/
def isAlu (inst : Inst) : Bool := inst.sig ≠ .loadImm ∧ inst.sig ≠ .branch

def Stream.next (inst : Inst) (s : Stream) : Stream :=
  let s := (s.tmuWrite inst.waddrAdd).tmuWrite inst.waddrMul
  if isAlu inst ∧ readsUniform inst then { s with ptr := s.ptr + 4 } else s

/-! ## The QPU -/

/-- The uniforms, by their offset. -/
abbrev Uniforms := U32 → U32

/-- The registers that the tracking knows, by their index: the files A and B and the
accumulators `r0` to `r3`. -/
abbrev RegFile := ℕ → U32

/-- The value of an operand, where the address names a register, a uniform or a small immediate
that is an integer. What unpacking does to operands of the file A is left open. -/
def Operand (u : Uniforms) (inst : Inst) (reg : RegFile) (ptr : U32) (mux : Mux) (v : U32) : Prop :=
  match mux with
  | .r0 => v = reg 64
  | .r1 => v = reg 65
  | .r2 => v = reg 66
  | .r3 => v = reg 67
  | .r4 => True
  | .r5 => True
  | .a =>
    inst.unpack = 0 →
      (inst.raddrA < 32 → v = reg inst.raddrA) ∧ (inst.raddrA = rUnif → v = u ptr)
  | .b =>
    if inst.sig = .smallImm then inst.raddrB < 16 → v = BitVec.ofNat 32 inst.raddrB
    else (inst.raddrB < 32 → v = reg (32 + inst.raddrB)) ∧ (inst.raddrB = rUnif → v = u ptr)

/-- The operations of the ADD unit that matter here, on 32-bit signed integers. -/
def OpAdd.Result : OpAdd → U32 → U32 → U32 → Prop
  | .add, a, b, v => v = a + b
  | .min, a, b, v => v.toInt = Min.min a.toInt b.toInt
  | .max, a, b, v => v.toInt = Max.max a.toInt b.toInt
  | _, _, _, _ => True

/-- What the ADD half of an instruction writes. What packing does to it is left open. -/
def AddOut (u : Uniforms) (inst : Inst) (reg : RegFile) (ptr v : U32) : Prop :=
  inst.pack = 0 →
    if inst.sig = .loadImm then v = inst.loadImm
    else ∃ a b, Operand u inst reg ptr inst.addA a ∧ Operand u inst reg ptr inst.addB b ∧
      inst.opAdd.Result a b v

/-- The register that the ADD half of an instruction writes. -/
def dstAdd (inst : Inst) : Option ℕ := waddrToLiveRegIndex inst.waddrAdd inst.ws

/-- The register that the MUL half of an instruction writes. -/
def dstMul (inst : Inst) : Option ℕ := waddrToLiveRegIndex inst.waddrMul (!inst.ws)

/-- The registers behind an instruction: a register that neither half writes is unchanged, one
that the ADD half alone writes unconditionally gets its result, and one that a load of an
immediate writes unconditionally through the MUL half gets the immediate. -/
structure Writes (u : Uniforms) (inst : Inst) (reg : RegFile) (ptr : U32) (reg' : RegFile) :
    Prop where
  frame : ∀ r, dstAdd inst ≠ some r → dstMul inst ≠ some r → reg' r = reg r
  add : ∀ r, dstAdd inst = some r → dstMul inst ≠ some r → inst.condAdd = .always →
    AddOut u inst reg ptr (reg' r)
  imm : ∀ r, dstMul inst = some r → dstAdd inst ≠ some r → inst.condMul = .always →
    inst.sig = .loadImm → inst.pack = 0 → reg' r = inst.loadImm

def Sig.IsSwitch (sig : Sig) : Prop := sig = .threadSwitch ∨ sig = .lastThreadSwitch

/-- The thread was switched three instructions before. -/
def IsSwitched (mem : ℕ → Inst) (ip : ℕ) : Prop := 3 ≤ ip ∧ (mem (ip - 3)).sig.IsSwitch

/-- The registers that the instruction at `ip` finds: the accumulators are lost in a thread
switch. -/
def Finds (mem : ℕ → Inst) (ip : ℕ) (reg reg' : RegFile) : Prop :=
  ∀ r, r < 64 ∨ ¬ IsSwitched mem ip → reg' r = reg r

/-- The state of the QPU, as far as the tracking knows it. -/
structure Qpu where
  reg : RegFile
  stream : Stream

/-- The QPU executes the instruction at `ip`. -/
def QpuStep (u : Uniforms) (mem : ℕ → Inst) (ip : ℕ) (q q' : Qpu) : Prop :=
  q'.stream = q.stream.next (mem ip) ∧
    ∃ reg, Finds mem ip q.reg reg ∧ Writes u (mem ip) reg q.stream.ptr q'.reg

/-! ## The validation loop and runs next to it -/

/-- `l` are the variables of the loop of `vc4_validate_shader` before the instruction at `ip`. -/
inductive LoopAt (stray : Stray) (bo : ShaderBo) : ℕ → LoopState → Prop
  | init {scan : BranchScan} (h : validateBranches bo = some scan) :
    LoopAt stray bo 0 (initLoop scan)
  | next {ip : ℕ} {l l' : LoopState} (h : LoopAt stray bo ip l) (hip : ip < l.state.maxIp)
    (hpass : validateInst stray bo ip l = some l')
    (hgo : ¬ (l'.foundShaderEnd = true ∧ ip = l'.shaderEndIp + 2)) : LoopAt stray bo (ip + 1) l'

/-- A run from the start of the shader or from a branch target up to the instruction at `ip`, with
no other branch target on the way, all of whose steps meet the condition `ok`, which knows the state
of the validation behind the instruction. It starts with any registers, at the place in the uniform
stream that the validation has reached. -/
inductive Run (stray : Stray) (bo : ShaderBo) (u : Uniforms)
    (ok : ValidationState → Inst → Stream → Prop) : ℕ → LoopState → Qpu → Prop
  | start {ip : ℕ} {l : LoopState} {q : Qpu} (hl : LoopAt stray bo ip l)
    (htarget : ip = 0 ∨ isBranchTarget stray bo l.state ip = true)
    (hq : q.stream = ⟨l.shader.uniformsSize, fun _ => 0⟩) : Run stray bo u ok ip l q
  | step {ip : ℕ} {l l' : LoopState} {q q' : Qpu} (h : Run stray bo u ok ip l q)
    (hip : ip < l.state.maxIp) (hpass : validateInst stray bo ip l = some l')
    (hgo : ¬ (l'.foundShaderEnd = true ∧ ip = l'.shaderEndIp + 2))
    (htarget : isBranchTarget stray bo l'.state (ip + 1) = false)
    (hok : ok l'.state (bo.mem ip) q.stream) (hq : QpuStep u bo.mem ip q q') :
    Run stray bo u ok (ip + 1) l' q'

/-! ## What the checks do to the stream and to the samples -/

/-- How far the validation has followed the stream. -/
def Checked.stream (c : Checked) : Stream := ⟨c.shader.uniformsSize, c.state.tmuWriteCount⟩

section Stream

variable {stray : Stray} {isMul tmu submit isDirect : Bool}

lemma checkBranch_dst (h : checkBranch inst c = some c') :
    dstAdd inst = none ∧ dstMul inst = none := by
  obtain ⟨hadd, hmul, -⟩ := checkBranch_eq h
  have hnone : ∀ isB, waddrToLiveRegIndex wNop isB = none := by decide
  simp [dstAdd, dstMul, hadd, hmul, hnone]

lemma isTmuWrite_of_submit {waddr : ℕ} (h : isTmuSubmit waddr = true) :
    isTmuWrite waddr = true := by
  simp only [isTmuSubmit, decide_eq_true_eq] at h
  rcases h with rfl | rfl <;> decide

lemma checkTmuWrite_stream (hw : isTmuWrite (waddrOf inst isMul) = true)
    (h : checkTmuWrite stray inst isMul c = some c') :
    c'.stream = c.stream.tmuWrite (waddrOf inst isMul) ∧
      c.shader.textureSamples <+: c'.shader.textureSamples ∧
      (readsUniform inst = true → isMul = false) := by
  obtain ⟨_, _, rfl, hkind⟩ := checkTmuWrite_eq h
  rw [Stream.tmuWrite, if_pos hw]
  refine ⟨rfl, prefix_append _ _, fun hr => ?_⟩
  rcases hkind with ⟨-, -, hno, -⟩ | ⟨-, hmul, -⟩
  · simp [hr] at hno
  · exact hmul

lemma checkRegWrite_tmu (hw : isTmuWrite (waddrOf inst isMul) = true)
    (h : checkRegWrite stray inst isMul c = some c') :
    checkTmuWrite stray inst isMul (trackImmediate inst isMul c) = some c' := by
  have hne : waddrOf inst isMul ≠ wUniformsAddress := by
    intro heq
    rw [heq] at hw
    exact absurd hw (by decide)
  simp only [checkRegWrite] at h
  rwa [if_neg hne, if_pos hw] at h

lemma checkTmuWrite_direct (hsub : isTmuSubmit (waddrOf inst isMul) = true)
    (hcount : c.state.tmuWriteCount (decide (wTmu0B < waddrOf inst isMul)) = 0)
    (h : checkTmuWrite stray inst isMul c = some c') :
    inst.sig ≠ .smallImm ∧ inst.opAdd = .add ∧ addsUniform inst = true ∧
      ∃ r, raddrAddAToLiveRegIndex inst = some r ∧ c.state.minClampOffset stray r ≠ unused ∧
        ∃ s, c'.shader.textureSamples = c.shader.textureSamples ++ [s] ∧ s.isDirect = true ∧
          s.pOffset 0 = c.shader.uniformsSize ∧
          s.pOffset 1 = c.state.minClampOffset stray r := by
  obtain ⟨hlt, _, rfl, ⟨hno, -⟩ | ⟨-, -, himm, hop, hunif, r, hr, hoff, rfl⟩⟩ := checkTmuWrite_eq h
  · simp [hsub, hcount] at hno
  · have hidx : (⟨_, hlt⟩ : Fin 4) = 0 := Fin.ext hcount
    simp only [if_pos hsub]
    refine ⟨himm, hop, hunif, r, hr, hoff, _, rfl, rfl, ?_, ?_⟩
    · simp [hidx, noteOffset]
    · simp [hidx, noteOffset]

lemma checkRegWrite_stream (h : checkRegWrite stray inst isMul c = some c') :
    c'.stream = c.stream.tmuWrite (waddrOf inst isMul) ∧
      c.shader.textureSamples <+: c'.shader.textureSamples ∧
      (isTmuWrite (waddrOf inst isMul) = true → readsUniform inst = true → isMul = false) := by
  obtain ⟨_, _, htrack⟩ := trackImmediate_eq inst isMul c
  by_cases hw : isTmuWrite (waddrOf inst isMul) = true
  · obtain ⟨h1, h2, h3⟩ := checkTmuWrite_stream hw (checkRegWrite_tmu hw h)
    rw [htrack] at h1 h2
    exact ⟨h1, h2, fun _ => h3⟩
  · simp only [checkRegWrite, htrack] at h
    rw [Stream.tmuWrite, if_neg hw]
    have hsame : c'.stream = c.stream ∧ c'.shader.textureSamples = c.shader.textureSamples := by
      split_ifs at h
      · obtain ⟨-, -, -, -, -, -, -, rfl⟩ := validateUniformAddressWrite_eq h
        exact ⟨rfl, rfl⟩
      · cases h
        exact ⟨rfl, rfl⟩
    exact ⟨hsame.1, hsame.2 ▸ prefix_refl _, fun hw' => absurd hw' hw⟩

lemma checkInstructionWrites_stream (h : checkInstructionWrites stray inst c = some c') :
    ∃ c1 c2, checkRegWrite stray inst false c = some c1 ∧
      checkRegWrite stray inst true c1 = some c2 ∧ c' = trackLiveClamps stray inst c2 ∧
      c'.shader = c2.shader ∧
      c'.stream = (c.stream.tmuWrite inst.waddrAdd).tmuWrite inst.waddrMul ∧
      c1.shader.textureSamples <+: c'.shader.textureSamples ∧
      c.shader.textureSamples <+: c'.shader.textureSamples ∧
      (readsUniform inst = true → isTmuWrite inst.waddrMul = false) := by
  simp only [checkInstructionWrites, ite_none_left_eq_some] at h
  obtain ⟨c2, h2, rfl⟩ := map_eq_some_iff.1 h.2
  obtain ⟨c1, h1, h2⟩ := bind_eq_some_iff.1 h2
  obtain ⟨hs1, hp1, -⟩ := checkRegWrite_stream h1
  obtain ⟨hs2, hp2, hm2⟩ := checkRegWrite_stream h2
  obtain ⟨_, _, heq⟩ := trackLiveClamps_eq stray inst c2
  refine ⟨c1, c2, h1, h2, rfl, by rw [heq], ?_, by rwa [heq], by rw [heq]; exact hp1.trans hp2,
    fun hr => ?_⟩
  · rw [heq]
    exact hs2.trans (by rw [hs1]; rfl)
  · by_contra hw
    exact absurd (hm2 (by simpa [waddrOf] using hw) hr) (by simp)

end Stream

/-! ## The tracking is sound -/

/-- The first operand of the ADD half is a register of a file, where it comes from one. -/
def FirstIsRegister (inst : Inst) : Prop :=
  inst.sig ≠ .loadImm ∧ (inst.addA = .a → inst.raddrA < 32) ∧ (inst.addA = .b → inst.raddrB < 32)

/-- What the validation does not check of the instructions that build and use a clamp, which are
those behind which `v` has the register of their ADD half as clamped, and the direct reads: they are
not loads of an immediate, their first operand is a register and not a special address, nothing is
packed or unpacked, the MUL half does not write the same register, and the bound is not
negative. -/
structure ClampSound (u : Uniforms) (v : ValidationState) (inst : Inst) (s : Stream) : Prop where
  max : ∀ r, dstAdd inst = some r → v.liveMaxClampRegs r = true →
    inst.pack = 0 ∧ dstMul inst ≠ some r
  min : ∀ r, dstAdd inst = some r → v.liveMinClampOffsets r ≠ unused →
    FirstIsRegister inst ∧ inst.pack = 0 ∧ inst.unpack = 0 ∧ dstMul inst ≠ some r ∧
      0 ≤ (u s.ptr).toInt
  direct : isTmuSubmit inst.waddrAdd = true → s.count (decide (wTmu0B < inst.waddrAdd)) = 0 →
    FirstIsRegister inst ∧ inst.pack = 0 ∧ inst.unpack = 0

/-- A value is clamped to `0` and to a bound. -/
def IsClamped (v bound : U32) : Prop :=
  0 ≤ bound.toInt ∧ ∃ x : U32, v.toInt = min (max x.toInt 0) bound.toInt

lemma IsClamped.bounds {bound : U32} (h : IsClamped v bound) :
    0 ≤ v.toInt ∧ v.toInt ≤ bound.toInt := by
  obtain ⟨hb, x, hx⟩ := h
  omega

/-- The registers are what the validation takes them for. -/
structure Tracks (u : Uniforms) (v : ValidationState) (reg : RegFile) : Prop where
  max : ∀ r < liveRegCount, v.liveMaxClampRegs r = true → 0 ≤ (reg r).toInt
  min : ∀ r < liveRegCount, v.liveMinClampOffsets r ≠ unused →
    IsClamped (reg r) (u (v.liveMinClampOffsets r))

lemma raddrAddA_lt (h : FirstIsRegister inst) (hr : raddrAddAToLiveRegIndex inst = some r) :
    r < liveRegCount := by
  obtain ⟨-, ha, hb⟩ := h
  unfold raddrAddAToLiveRegIndex at hr
  split at hr
  next h => cases hr; have := ha h; unfold liveRegCount; omega
  next h =>
    split_ifs at hr
    cases hr
    have := hb h
    unfold liveRegCount
    omega
  all_goals cases hr <;> decide

lemma operand_addA (h : FirstIsRegister inst) (hunpack : inst.unpack = 0)
    (hr : raddrAddAToLiveRegIndex inst = some r) (hv : Operand u inst reg ptr inst.addA v) :
    v = reg r := by
  obtain ⟨-, ha, hb⟩ := h
  unfold raddrAddAToLiveRegIndex at hr
  cases hmux : inst.addA with
  | a =>
    rw [hmux] at hr hv
    cases hr
    exact (hv hunpack).1 (ha hmux)
  | b =>
    rw [hmux] at hr hv
    simp only [Operand] at hv
    split_ifs at hr hv with himm
    cases hr
    exact hv.1 (hb hmux)
  | r0 | r1 | r2 | r3 => rw [hmux] at hr hv; cases hr; exact hv
  | r4 => rw [hmux] at hr; cases hr
  | r5 => rw [hmux] at hr; cases hr

lemma operand_addB (hunif : (inst.addB = .a ∧ inst.raddrA = rUnif) ∨
      (inst.addB = .b ∧ inst.raddrB = rUnif ∧ inst.sig ≠ .smallImm)) (hunpack : inst.unpack = 0)
    (hv : Operand u inst reg ptr inst.addB v) : v = u ptr := by
  rcases hunif with ⟨hb, hr⟩ | ⟨hb, hr, himm⟩
  · rw [hb] at hv
    exact (hv hunpack).2 hr
  · rw [hb] at hv
    simp only [Operand, if_neg himm] at hv
    exact hv.2 hr

lemma addOut_max (h : isMaxWithZero inst = true) (hpack : inst.pack = 0)
    (hv : AddOut u inst reg ptr v) :
    0 ≤ v.toInt := by
  simp only [isMaxWithZero, decide_eq_true_eq] at h
  obtain ⟨hop, himm, hzero, hmux⟩ := h
  have hout := hv hpack
  rw [if_neg (by simp [himm]), hop] at hout
  obtain ⟨a, b, ha, hb, hres⟩ := hout
  have hoperand : ∀ w, Operand u inst reg ptr .b w → w = 0 := by
    intro w hw
    simp only [Operand, if_pos himm, hzero] at hw
    exact hw (by omega)
  change v.toInt = max a.toInt b.toInt at hres
  have hzeroInt : (0 : U32).toInt = 0 := by decide
  rcases hmux with hmux | hmux
  · rw [hmux] at ha
    rw [hoperand a ha] at hres
    omega
  · rw [hmux] at hb
    rw [hoperand b hb] at hres
    omega

lemma addOut_min (h : isMinWithUniform inst = true) (hfirst : FirstIsRegister inst)
    (hpack : inst.pack = 0) (hunpack : inst.unpack = 0) (hr : raddrAddAToLiveRegIndex inst = some r)
    (hreg : 0 ≤ (reg r).toInt) (hbound : 0 ≤ (u ptr).toInt) (hv : AddOut u inst reg ptr v) :
    IsClamped v (u ptr) := by
  simp only [isMinWithUniform, decide_eq_true_eq] at h
  have hout := hv hpack
  rw [if_neg hfirst.1, h.1] at hout
  obtain ⟨a, b, ha, hb, hres⟩ := hout
  change v.toInt = min a.toInt b.toInt at hres
  rw [operand_addA hfirst hunpack hr ha, operand_addB h.2 hunpack hb] at hres
  exact ⟨hbound, reg r, by omega⟩

lemma clearClamp?_max {v : ValidationState} {d : Option ℕ} :
    (v.clearClamp? d).liveMaxClampRegs r = true ↔ d ≠ some r ∧ v.liveMaxClampRegs r = true := by
  cases d with
  | none => simp [ValidationState.clearClamp?]
  | some d =>
    by_cases hr : r = d
    · simp [ValidationState.clearClamp?, ValidationState.clearClamp, hr]
    · simp [ValidationState.clearClamp?, ValidationState.clearClamp, hr, Ne.symm hr]

lemma clearClamp?_min {v : ValidationState} {d : Option ℕ}
    (h : (v.clearClamp? d).liveMinClampOffsets r ≠ unused) :
    d ≠ some r ∧ (v.clearClamp? d).liveMinClampOffsets r = v.liveMinClampOffsets r := by
  cases d with
  | none => simp [ValidationState.clearClamp?]
  | some d =>
    by_cases hr : r = d
    · simp [ValidationState.clearClamp?, ValidationState.clearClamp, hr] at h
    · simp [ValidationState.clearClamp?, ValidationState.clearClamp, hr, Ne.symm hr]

section Track

variable {stray : Stray} {reg' : RegFile}

/-- The state without the clamps of what an instruction writes. -/
abbrev ValidationState.cleared (v : ValidationState) (inst : Inst) : ValidationState :=
  (v.clearClamp? (dstMul inst)).clearClamp? (dstAdd inst)

lemma Tracks.cleared (h : Tracks u c.state reg) (hw : Writes u inst reg ptr reg') :
    Tracks u (c.state.cleared inst) reg' := by
  constructor
  · intro r hr hmax
    obtain ⟨hadd, hmax⟩ := clearClamp?_max.1 hmax
    obtain ⟨hmul, hmax⟩ := clearClamp?_max.1 hmax
    rw [hw.frame r hadd hmul]
    exact h.max r hr hmax
  · intro r hr hmin
    obtain ⟨hadd, heq⟩ := clearClamp?_min hmin
    rw [heq] at hmin ⊢
    obtain ⟨hmul, heq⟩ := clearClamp?_min hmin
    rw [heq] at hmin ⊢
    rw [hw.frame r hadd hmul]
    exact h.min r hr hmin

omit u reg reg' ptr in
lemma trackLiveClamps_cases (stray : Stray) (inst : Inst) (c : Checked) :
    (trackLiveClamps stray inst c).shader = c.shader ∧
    (trackLiveClamps stray inst c).state.tmuWriteCount = c.state.tmuWriteCount ∧
    ((trackLiveClamps stray inst c).state = c.state.cleared inst ∨
      (∃ d, dstAdd inst = some d ∧ inst.condAdd = .always ∧ isMaxWithZero inst = true ∧
        (trackLiveClamps stray inst c).state =
          { c.state.cleared inst with
            liveMaxClampRegs :=
              Function.update (c.state.cleared inst).liveMaxClampRegs d true }) ∨
      ∃ d r, dstAdd inst = some d ∧ inst.condAdd = .always ∧ isMinWithUniform inst = true ∧
        raddrAddAToLiveRegIndex inst = some r ∧ c.state.maxClampReg stray r = true ∧
        (trackLiveClamps stray inst c).state =
          { c.state.cleared inst with
            liveMinClampOffsets := Function.update (c.state.cleared inst).liveMinClampOffsets
              d c.shader.uniformsSize }) := by
  have hcount : (c.state.cleared inst).tmuWriteCount = c.state.tmuWriteCount := by
    unfold ValidationState.cleared
    cases dstMul inst <;> cases dstAdd inst <;> rfl
  simp only [trackLiveClamps]
  split
  next hd =>
    exact ⟨rfl, hcount, .inl rfl⟩
  next d hd =>
    split_ifs with hcond hmax hmin
    · exact ⟨rfl, hcount, .inl rfl⟩
    · exact ⟨rfl, hcount, .inr (.inl ⟨d, hd, not_not.1 hcond, hmax, rfl⟩)⟩
    · obtain ⟨hlive, hmin⟩ := hmin
      cases hr : raddrAddAToLiveRegIndex inst with
      | none => simp [hr] at hlive
      | some r =>
        rw [hr] at hlive
        exact ⟨rfl, hcount, .inr (.inr ⟨d, r, hd, not_not.1 hcond, hmin, rfl, hlive, rfl⟩)⟩
    · exact ⟨rfl, hcount, .inl rfl⟩

lemma Tracks.track (h : Tracks u c.state reg) {s : Stream} (hw : Writes u inst reg s.ptr reg')
    (hsound : ClampSound u (trackLiveClamps stray inst c).state inst s)
    (hptr : isMinWithUniform inst = true → dstAdd inst ≠ none → c.shader.uniformsSize = s.ptr) :
    Tracks u (trackLiveClamps stray inst c).state reg' := by
  have hclear := h.cleared hw
  obtain ⟨-, -, hcases⟩ := trackLiveClamps_cases stray inst c
  rcases hcases with heq | ⟨d, hd, hcond, hmax, heq⟩ | ⟨d, r, hd, hcond, hmin, hr, hlive, heq⟩
  · exact heq ▸ hclear
  · obtain ⟨hpack, hmul⟩ := hsound.max d hd (by simp [heq])
    have hnonneg := addOut_max hmax hpack (hw.add d hd hmul hcond)
    rw [heq]
    refine ⟨fun r hr hlive => ?_, hclear.min⟩
    by_cases hrd : r = d
    · exact hrd ▸ hnonneg
    · simp only [Function.update_of_ne hrd] at hlive
      exact hclear.max r hr hlive
  · have hclamp := hsound.min d hd
    rw [heq, hptr hmin (by simp [hd])] at *
    refine ⟨hclear.max, fun r' hr' hne => ?_⟩
    by_cases hrd : r' = d
    · subst hrd
      obtain ⟨hfirst, hpack, hunpack, hmul, hbound⟩ := hclamp hne
      have hrlt := raddrAddA_lt hfirst hr
      rw [ValidationState.maxClampReg, if_pos hrlt] at hlive
      simpa using addOut_min hmin hfirst hpack hunpack hr (h.max r hrlt hlive) hbound
        (hw.add r' hd hmul hcond)
    · simp only [Function.update_of_ne hrd] at hne ⊢
      exact hclear.min r' hr' hne

end Track

/-! ## One pass of the loop -/

section Pass

variable {stray : Stray} {ip : ℕ} {l l' : LoopState}

lemma checkInst_stream (h : checkInst stray inst ip l = some l') :
    l'.toChecked.stream = l.toChecked.stream.next inst ∧
      l.shader.textureSamples <+: l'.shader.textureSamples := by
  rcases checkInst_writes h with ⟨hbr, c, hc, hreads⟩ | ⟨hs, hc⟩
  · obtain ⟨-, -, -, -, -, -, hstream, -, hsamples, -⟩ := checkInstructionWrites_stream hc
    refine ⟨?_, hreads.samples ▸ hsamples⟩
    rw [Checked.stream, hreads.state, hreads.size, Stream.next, ← hstream]
    simp only [isAlu, hbr, and_true, ne_eq, not_false_eq_true, decide_eq_true_eq]
    split_ifs <;> rfl
  · have halu : isAlu inst = false := by simp [isAlu, hs]
    obtain ⟨hadd, hmul, hc⟩ := checkBranch_eq hc
    rw [hc, Stream.next, hadd, hmul]
    refine ⟨?_, prefix_refl _⟩
    simp [halu]
    rfl

lemma RegFrame.tracks (h : RegFrame c c') (ht : Tracks u c.state reg) :
    Tracks u c'.state reg := by
  refine ⟨fun r hr hm => ht.max r hr (h.maxRegs ▸ hm), fun r hr hm => ?_⟩
  rw [h.minOffsets] at hm ⊢
  exact ht.min r hr hm

lemma readsUniform_of_isMin (h : isMinWithUniform inst = true) : readsUniform inst = true := by
  simp only [isMinWithUniform, readsUniform, decide_eq_true_eq] at h ⊢
  rcases h.2 with ⟨-, hr⟩ | ⟨-, hr, himm⟩
  · exact .inl hr
  · exact .inr ⟨himm, hr⟩

lemma not_isTmuWrite_of_dstAdd (h : dstAdd inst ≠ none) : isTmuWrite inst.waddrAdd = false := by
  have hle : inst.waddrAdd ≤ wAcc3 := by
    by_contra hgt
    have hge : ¬ inst.waddrAdd < 32 := by
      unfold wAcc3 at hgt
      omega
    exact h (by rw [dstAdd, waddrToLiveRegIndex, if_neg hge, if_neg hgt])
  unfold wAcc3 at hle
  refine decide_eq_false ?_
  unfold wTmu0S
  omega

lemma Stream.tmuWrite_of_not {waddr : ℕ} {s : Stream} (h : isTmuWrite waddr = false) :
    s.tmuWrite waddr = s :=
  if_neg (by simp [h])

lemma Tracks.writes {reg' : RegFile} (h : Tracks u c.state reg)
    (hs : checkInstructionWrites stray inst c = some c') (hw : Writes u inst reg c.stream.ptr reg')
    (hsound : ClampSound u c'.state inst c.stream) : Tracks u c'.state reg' := by
  obtain ⟨a, b, ha, hb, rfl, hshader, hstream, -, -, hmul⟩ := checkInstructionWrites_stream hs
  have hframe := (checkRegWrite_frame ha).trans (checkRegWrite_frame hb)
  refine (hframe.tracks h).track hw hsound fun hmin hdst => ?_
  rw [Stream.tmuWrite_of_not (not_isTmuWrite_of_dstAdd hdst),
    Stream.tmuWrite_of_not (hmul (readsUniform_of_isMin hmin))] at hstream
  rw [← hshader]
  exact congrArg Stream.ptr hstream

lemma Tracks.step {reg' : RegFile} (h : Tracks u l.state reg)
    (hs : checkInst stray inst ip l = some l') (hw : Writes u inst reg l.toChecked.stream.ptr reg')
    (hsound : ClampSound u l'.state inst l.toChecked.stream) : Tracks u l'.state reg' := by
  rcases checkInst_writes hs with ⟨-, c, hc, hreads⟩ | ⟨-, hc⟩
  · rw [hreads.state] at hsound ⊢
    obtain ⟨hmax, hmin⟩ := h.writes hc hw ⟨hsound.max, hsound.min, hsound.direct⟩
    exact ⟨hmax, hmin⟩
  · obtain ⟨hadd, hmul⟩ := checkBranch_dst hc
    have hreg : reg' = reg := by
      funext r
      exact hw.frame r (by simp [hadd]) (by simp [hmul])
    rw [hreg]
    exact (checkBranch_frame hc).tracks h

variable {bo : ShaderBo}

lemma Tracks.enter {reg0 : RegFile} (h : enterInst stray bo ip l = some l')
    (hf : Finds bo.mem ip reg0 reg)
    (hsw : IsSwitched bo.mem ip → (ip : ℤ) = l.lastThreadSwitchIp + 3)
    (ht : isBranchTarget stray bo l.state ip = true ∨ Tracks u l.state reg0) :
    Tracks u l'.state reg := by
  obtain ⟨v, rfl, hv⟩ := enterInst_cases h
  have hv' : (v.liveMaxClampRegs = (fun _ => false) ∧ v.liveMinClampOffsets = fun _ => unused) ∨
      (v.liveMaxClampRegs = l.state.liveMaxClampRegs ∧
        v.liveMinClampOffsets = l.state.liveMinClampOffsets ∧ Tracks u l.state reg0) := by
    rcases hv with ⟨hno, rfl⟩ | ⟨-, -, rfl⟩
    · exact .inr ⟨rfl, rfl, ht.resolve_left (by simp [hno])⟩
    · exact .inl ⟨rfl, rfl⟩
  rcases hv' with ⟨hmax, hmin⟩ | ⟨hmax, hmin, htr⟩
  · split_ifs <;> constructor <;> intro r hr hlive <;> simp [resetAccumulators, hmax, hmin] at hlive
  · split_ifs with hlast
    · constructor
      · intro r hr hlive
        simp only [resetAccumulators, hmax] at hlive
        split_ifs at hlive with h64
        rw [hf r (.inl (by omega))]
        exact htr.max r hr hlive
      · intro r hr hlive
        simp only [resetAccumulators, hmin] at hlive ⊢
        split_ifs at hlive ⊢ with h64
        · exact absurd rfl hlive
        · rw [hf r (.inl (by omega))]
          exact htr.min r hr hlive
    · have hreg : reg = reg0 := funext fun r => hf r (.inr fun hs => hlast (hsw hs))
      rw [hreg]
      exact ⟨fun r hr hlive => htr.max r hr (hmax ▸ hlive),
        fun r hr hlive => by rw [hmin] at hlive ⊢; exact htr.min r hr hlive⟩

lemma enterInst_stream (h : enterInst stray bo ip l = some l') :
    l'.shader = l.shader ∧ l'.toChecked.stream = l.toChecked.stream ∧
      l'.lastThreadSwitchIp = l.lastThreadSwitchIp ∧
      (isBranchTarget stray bo l.state ip = true → l.state.tmuWriteCount = fun _ => 0) := by
  obtain ⟨v, rfl, hv⟩ := enterInst_cases h
  have hv' : v.tmuWriteCount = l.state.tmuWriteCount ∧
      (isBranchTarget stray bo l.state ip = true → l.state.tmuWriteCount = fun _ => 0) := by
    rcases hv with ⟨hno, rfl⟩ | ⟨-, hidle, rfl⟩
    · exact ⟨rfl, fun hb => absurd hb (by simp [hno])⟩
    · refine ⟨rfl, fun _ => funext fun t => ?_⟩
      simp only [texturingInProgress, decide_eq_false_iff_not, not_or, not_not] at hidle
      cases t
      · exact hidle.1
      · exact hidle.2
  refine ⟨rfl, ?_, rfl, hv'.2⟩
  simp only [Checked.stream]
  split_ifs <;> simp [resetAccumulators, hv'.1]

section

variable (h : checkInst stray inst ip l = some l')

include h

lemma checkInst_add (hw : inst.waddrAdd ≠ wNop) :
    ∃ c, checkRegWrite stray inst false l.toChecked = some c ∧
      c.shader.textureSamples <+: l'.shader.textureSamples := by
  rcases checkInst_writes h with ⟨-, c, hc, hreads⟩ | ⟨-, hc⟩
  · obtain ⟨a, b, ha, -, -, -, -, hsamples, -⟩ := checkInstructionWrites_stream hc
    exact ⟨a, ha, hreads.samples ▸ hsamples⟩
  · simp [checkBranch, hw] at hc

lemma checkInst_mul (hsub : isTmuSubmit inst.waddrMul = true) :
    (l.toChecked.stream.tmuWrite inst.waddrAdd).count (decide (wTmu0B < inst.waddrMul)) ≠ 0 := by
  intro hzero
  have hsub' : isTmuSubmit (waddrOf inst true) = true := hsub
  rcases checkInst_writes h with ⟨-, c, hc, -⟩ | ⟨-, hc⟩
  · obtain ⟨a, b, ha, hb, -⟩ := checkInstructionWrites_stream hc
    have hcheck := checkRegWrite_tmu (isTmuWrite_of_submit hsub') hb
    have hcount : a.state.tmuWriteCount (decide (wTmu0B < waddrOf inst true)) = 0 := by
      rw [← hzero]
      exact congrArg (fun s : Stream => s.count (decide (wTmu0B < inst.waddrMul)))
        (checkRegWrite_stream ha).1
    obtain ⟨_, _, htrack⟩ := trackImmediate_eq inst true a
    obtain ⟨_, _, -, ⟨hno, -⟩ | ⟨-, hmul, -⟩⟩ := checkTmuWrite_eq hcheck
    · simp [hsub', htrack, hcount] at hno
    · cases hmul
  · have hw : inst.waddrMul ≠ wNop := fun heq => by
      rw [heq] at hsub
      exact absurd hsub (by decide)
    simp [checkBranch, hw] at hc

lemma checkInst_switch :
    (inst.sig.IsSwitch → l.lastThreadSwitchIp + 3 ≤ ip ∧ l'.lastThreadSwitchIp = ip) ∧
      (¬ inst.sig.IsSwitch → l'.lastThreadSwitchIp = l.lastThreadSwitchIp) := by
  rcases checkInst_cases h with ⟨-, -, c1, c2, -, -, hn⟩ | ⟨hs, c, hc, rfl⟩ | ⟨hs, c, hc, rfl⟩
  · simp only [noteSignal] at hn
    by_cases hsw : inst.sig = .threadSwitch ∨ inst.sig = .lastThreadSwitch
    · have hend : inst.sig ≠ .progEnd := by rcases hsw with h | h <;> simp [h]
      rw [if_neg hend, if_pos hsw, ite_none_left_eq_some] at hn
      obtain ⟨hge, hn⟩ := hn
      cases hn
      exact ⟨fun _ => ⟨by dsimp only at hge; omega, rfl⟩, fun hno => absurd hsw hno⟩
    · rw [if_neg hsw] at hn
      cases hn
      exact ⟨fun hs => absurd hs hsw, fun _ => by split_ifs <;> rfl⟩
  · exact ⟨fun hsw => by simp [Sig.IsSwitch, hs] at hsw, fun _ => rfl⟩
  · exact ⟨fun hsw => by simp [Sig.IsSwitch, hs] at hsw, fun _ => rfl⟩

end

lemma validateInst_samples (h : validateInst stray bo ip l = some l') :
    l.shader.textureSamples <+: l'.shader.textureSamples := by
  obtain ⟨l1, h1, h2⟩ := bind_eq_some_iff.1 h
  rw [← (enterInst_stream h1).1]
  exact (checkInst_stream h2).2

/-- The loop knows the last thread switch, and the ones before it are three instructions away. -/
lemma LoopAt.switch (h : LoopAt stray bo ip l) :
    l.lastThreadSwitchIp < ip ∧ ∀ j < ip, (bo.mem j).sig.IsSwitch →
      (j : ℤ) = l.lastThreadSwitchIp ∨ (j : ℤ) + 3 ≤ l.lastThreadSwitchIp := by
  induction h with
  | init hscan => exact ⟨by simp [initLoop], by omega⟩
  | @next ip l l' hl hip hpass hgo ih =>
    obtain ⟨l1, h1, h2⟩ := bind_eq_some_iff.1 hpass
    obtain ⟨hsw, hno⟩ := checkInst_switch h2
    rw [(enterInst_stream h1).2.2.1] at hsw hno
    obtain ⟨hlt, hall⟩ := ih
    by_cases hs : (bo.mem ip).sig.IsSwitch
    · obtain ⟨hge, heq⟩ := hsw hs
      refine ⟨by omega, fun j hj hjs => ?_⟩
      rcases Nat.lt_succ_iff_lt_or_eq.1 hj with hlt' | rfl
      · rcases hall j hlt' hjs with h | h <;> exact .inr (by omega)
      · exact .inl heq.symm
    · have heq := hno hs
      refine ⟨by omega, fun j hj hjs => ?_⟩
      rcases Nat.lt_succ_iff_lt_or_eq.1 hj with hlt' | rfl
      · rw [heq]
        exact hall j hlt' hjs
      · exact absurd hjs hs

lemma LoopAt.switched (h : LoopAt stray bo ip l) (hs : IsSwitched bo.mem ip) :
    (ip : ℤ) = l.lastThreadSwitchIp + 3 := by
  obtain ⟨hlt, hall⟩ := h.switch
  obtain ⟨h3, hsw⟩ := hs
  rcases hall (ip - 3) (by omega) hsw with h | h <;> omega

end Pass

/-! ## Runs -/

section Runs

variable {stray : Stray} {bo : ShaderBo} {info : ValidatedShaderInfo} {ip : ℕ} {l l' : LoopState}
  {q q' : Qpu}

lemma validateInsts_samples {fuel ip' : ℕ} (h : validateInsts stray bo fuel ip l = some (ip', l')) :
    l.shader.textureSamples <+: l'.shader.textureSamples := by
  induction fuel generalizing ip l with
  | zero => cases h
  | succ fuel ih =>
    rw [validateInsts] at h
    split_ifs at h
    · obtain ⟨l1, h1, h2⟩ := bind_eq_some_iff.1 h
      have hpass := validateInst_samples h1
      split_ifs at h2
      · cases h2
        exact hpass
      · exact hpass.trans (ih h2)
    · cases h
      exact prefix_refl _

lemma LoopAt.continues {scan : BranchScan} {ip' : ℕ} (hl : LoopAt stray bo ip l)
    (hscan : validateBranches bo = some scan)
    (hloop : validateLoop stray bo scan = some (ip', l')) :
    ip ≤ l.state.maxIp ∧ ∃ fuel, validateInsts stray bo fuel ip l = some (ip', l') := by
  induction hl with
  | init hscan' =>
    rw [hscan] at hscan'
    cases hscan'
    exact ⟨Nat.zero_le _, _, hloop⟩
  | next hl hip hpass hgo ih =>
    obtain ⟨-, fuel, hrun⟩ := ih
    refine ⟨by rw [(validateInst_frame hpass).maxIp]; omega, ?_⟩
    cases fuel with
    | zero => cases hrun
    | succ fuel =>
      rw [validateInsts, if_pos hip, hpass, bind_some, if_neg hgo] at hrun
      exact ⟨fuel, hrun⟩

/-- The loop of an accepted shader makes the pass at every instruction it gets to, and the samples
that it records there are in the result. -/
lemma LoopAt.pass (h : validateShader stray bo = some info) (hl : LoopAt stray bo ip l) :
    ip < l.state.maxIp ∧ ∃ l', validateInst stray bo ip l = some l' ∧
      l'.shader.textureSamples <+: info.textureSamples := by
  obtain ⟨scan, hscan, h⟩ := bind_eq_some_iff.1 h
  obtain ⟨⟨ip', lf⟩, hloop, hfin⟩ := bind_eq_some_iff.1 h
  simp only [finishShader, ite_none_left_eq_some, Option.some.injEq] at hfin
  obtain ⟨hne, -, rfl⟩ := hfin
  have hinfo : ∀ {l'' : LoopState}, l''.shader.textureSamples <+: lf.shader.textureSamples →
      l''.shader.textureSamples <+: (if lf.state.needsUniformAddressForLoop = true then
        { requireUniformAddressUniform lf.shader with
          uniformsSize := (requireUniformAddressUniform lf.shader).uniformsSize + 4 }
        else lf.shader).textureSamples := by
    intro l'' hp
    split_ifs <;> exact hp
  obtain ⟨hle, fuel, hrun⟩ := hl.continues hscan hloop
  cases fuel with
  | zero => cases hrun
  | succ fuel =>
    rw [validateInsts] at hrun
    split_ifs at hrun with hip
    · obtain ⟨l1, h1, h2⟩ := bind_eq_some_iff.1 hrun
      refine ⟨hip, l1, h1, hinfo ?_⟩
      split_ifs at h2
      · cases h2
        exact prefix_refl _
      · exact validateInsts_samples h2
    · cases hrun
      omega

/-- What is known before an instruction of a run: at a branch target the place in the stream,
otherwise also that the tracking is right. -/
def RunInv (u : Uniforms) (stray : Stray) (bo : ShaderBo) (ip : ℕ) (l : LoopState) (q : Qpu) :
    Prop :=
  LoopAt stray bo ip l ∧
    ((isBranchTarget stray bo l.state ip = true ∧
        q.stream = ⟨l.shader.uniformsSize, fun _ => 0⟩) ∨
      (Tracks u l.state q.reg ∧ q.stream = l.toChecked.stream))

lemma RunInv.enter (h : RunInv u stray bo ip l q) (hf : Finds bo.mem ip q.reg reg)
    (he : enterInst stray bo ip l = some l') :
    Tracks u l'.state reg ∧ q.stream = l'.toChecked.stream := by
  obtain ⟨hl, hq⟩ := h
  obtain ⟨-, hstream, -, hidle⟩ := enterInst_stream he
  rw [hstream]
  rcases hq with ⟨htarget, hq⟩ | ⟨ht, hq⟩
  · refine ⟨Tracks.enter he hf hl.switched (.inl htarget), ?_⟩
    rw [hq, Checked.stream, hidle htarget]
  · exact ⟨Tracks.enter he hf hl.switched (.inr ht), hq⟩

lemma Run.inv (h : Run stray bo u (ClampSound u) ip l q) : RunInv u stray bo ip l q := by
  induction h with
  | @start ip l q hl htarget hq =>
    refine ⟨hl, ?_⟩
    rcases htarget with rfl | htarget
    · cases hl with
      | init hscan => exact .inr ⟨⟨by simp [initLoop, resetValidationState],
          by simp [initLoop, resetValidationState]⟩, hq⟩
    · exact .inl ⟨htarget, hq⟩
  | step _ hip hpass hgo _ hok hq ih =>
    obtain ⟨l1, h1, h2⟩ := bind_eq_some_iff.1 hpass
    obtain ⟨hstream, reg, hf, hw⟩ := hq
    obtain ⟨ht, hs⟩ := ih.enter hf h1
    rw [hs] at hw hok hstream
    exact ⟨.next ih.1 hip hpass hgo, .inr ⟨ht.step h2 hw hok,
      hstream.trans (checkInst_stream h2).1.symm⟩⟩

end Runs

/-- A run of an accepted shader goes on by one step, before the end of the program and up to the
next branch target. -/
lemma Run.extend {stray : Stray} {bo : ShaderBo} {info : ValidatedShaderInfo}
    {ok : ValidationState → Inst → Stream → Prop} {ip : ℕ} {l : LoopState} {q q' : Qpu}
    (h : validateShader stray bo = some info) (hl : LoopAt stray bo ip l)
    (hrun : Run stray bo u ok ip l q) (hend : l.foundShaderEnd = false)
    (hsig : (bo.mem ip).sig ≠ .progEnd) (hlen : ip + 1 < bo.len)
    (htarget : l.state.branchTargets (ip + 1) = false) (hok : ∀ v, ok v (bo.mem ip) q.stream)
    (hq : QpuStep u bo.mem ip q q') :
    ∃ l', LoopAt stray bo (ip + 1) l' ∧ Run stray bo u ok (ip + 1) l' q' ∧
      l'.foundShaderEnd = false ∧ l'.state.branchTargets = l.state.branchTargets := by
  obtain ⟨hip, l', hpass, -⟩ := hl.pass h
  have hframe := validateInst_frame hpass
  have hend' : l'.foundShaderEnd = false := by simp [hframe.foundShaderEnd, hend, hsig]
  have hgo : ¬ (l'.foundShaderEnd = true ∧ ip = l'.shaderEndIp + 2) := by simp [hend']
  have htarget' : isBranchTarget stray bo l'.state (ip + 1) = false := by
    rw [isBranchTarget, if_pos hlen, hframe.branchTargets, htarget]
  exact ⟨l', .next hl hip hpass hgo, .step hrun hip hpass hgo htarget' (hok _) hq,
    hend', hframe.branchTargets⟩

/-! ## A shader with a direct read -/

/-- `ra0 = max(r0, 0)`. -/
def maxInst : Inst := addInst 13 0 19 39 0 0 7

/-- `ra1 = min(ra0, uniform)`, or the load of an immediate with the same fields. -/
def minInst (isImm : Bool) : Inst := addInst (if isImm then 14 else 1) 1 18 0 32 6 7

/-- `tmu0_s = ra1 + uniform`. -/
def readInst : Inst := addInst 1 56 12 1 32 6 7

lemma readInst_fields : readInst.sig = .none ∧ readInst.pack = 0 ∧ readInst.unpack = 0 ∧
    readInst.addA = .a ∧ readInst.addB = .b ∧ readInst.raddrA = 1 ∧ readInst.raddrB = 32 ∧
    readInst.opAdd = .add := by decide

/-- A direct read of a clamped address, or of an immediate. -/
def directRead (isImm : Bool) : ShaderBo where
  mem i :=
    if i = 0 then maxInst
    else if i = 1 then minInst isImm
    else if i = 2 then readInst
    else if i = 3 then signal 3
    else if i < 6 then signal 1
    else 0
  size := 4096
  size_le := page_le

lemma directRead_run {isImm : Bool} {info : ValidatedShaderInfo}
    (ok : ValidationState → Inst → Stream → Prop) {q0 q1 q2 : Qpu}
    (h : validateShader noStray (directRead isImm) = some info)
    (htargets : (validateBranches (directRead isImm)).map
      (fun s => (s.branchTargets 1, s.branchTargets 2)) = some (false, false))
    (hsig : ((directRead isImm).mem 1).sig ≠ .progEnd) (hq0 : q0.stream = ⟨0, fun _ => 0⟩)
    (hok0 : ∀ v, ok v ((directRead isImm).mem 0) q0.stream)
    (hq1 : QpuStep u (directRead isImm).mem 0 q0 q1)
    (hok1 : ∀ v, ok v ((directRead isImm).mem 1) q1.stream)
    (hq2 : QpuStep u (directRead isImm).mem 1 q1 q2) :
    ∃ l, Run noStray (directRead isImm) u ok 2 l q2 := by
  obtain ⟨scan, hscan, ht⟩ := map_eq_some_iff.1 htargets
  obtain ⟨ht1, ht2⟩ := Prod.mk.inj ht
  have hl0 : LoopAt noStray (directRead isImm) 0 (initLoop scan) := .init hscan
  obtain ⟨l1, hl1, hrun1, hend1, htargets1⟩ := Run.extend h hl0
    (.start hl0 (.inl rfl) hq0) rfl (show maxInst.sig ≠ .progEnd by decide)
    (show 0 + 1 < 4096 / 8 by decide) ht1 hok0 hq1
  obtain ⟨l2, -, hrun2, -⟩ := Run.extend h hl1 hrun1 hend1 hsig
    (show 0 + 1 + 1 < 4096 / 8 by decide)
    (by rw [htargets1]; exact ht2) hok1 hq2
  exact ⟨l2, hrun2⟩

/-- Uniforms that are all `100`. -/
def hundreds : Uniforms := fun _ => 100

/-- A QPU with `7` in all registers, before the instruction at `ip` of a direct read. -/
def sevens (isImm : Bool) : ℕ → Qpu
  | 0 => ⟨fun _ => 7, ⟨0, fun _ => 0⟩⟩
  | ip + 1 => ⟨fun _ => 7, (sevens isImm ip).stream.next ((directRead isImm).mem ip)⟩

lemma directRead_max (isImm : Bool) (u : Uniforms) :
    QpuStep u (directRead isImm).mem 0 (sevens isImm 0) (sevens isImm 1) := by
  have hsig : maxInst.sig = .smallImm := by decide
  have haddA : maxInst.addA = .r0 := by decide
  have haddB : maxInst.addB = .b := by decide
  have hraddr : maxInst.raddrB = 0 := by decide
  refine ⟨rfl, fun _ => 7, fun _ _ => rfl, ?_⟩
  change Writes u maxInst (fun _ => 7) 0 fun _ => 7
  refine ⟨fun _ _ _ => rfl, fun _ _ _ _ _ => ?_, fun _ _ _ _ himm => ?_⟩
  · refine ⟨7, 0, ?_, ?_, ?_⟩
    · simp [Operand, haddA]
    · simp [Operand, haddB, hsig, hraddr]
    · exact (by decide : (7 : U32).toInt = max (7 : U32).toInt (0 : U32).toInt)
  · cases himm

lemma directRead_min :
    QpuStep hundreds (directRead false).mem 1 (sevens false 1) (sevens false 2) := by
  have haddA : (minInst false).addA = .a := by decide
  have haddB : (minInst false).addB = .b := by decide
  have hraddrA : (minInst false).raddrA = 0 := by decide
  have hraddrB : (minInst false).raddrB = 32 := by decide
  refine ⟨rfl, fun _ => 7, fun _ _ => rfl, ?_⟩
  change Writes hundreds (minInst false) (fun _ => 7) (sevens false 1).stream.ptr fun _ => 7
  refine ⟨fun _ _ _ => rfl, fun _ _ _ _ _ => ?_, fun _ _ _ _ himm => ?_⟩
  · refine ⟨7, 100, ?_, ?_, ?_⟩
    · simp [Operand, haddA, hraddrA, rUnif]
    · simp [Operand, haddB, hraddrB, hundreds]
    · exact (by decide : (7 : U32).toInt = min (7 : U32).toInt (100 : U32).toInt)
  · cases himm

/-! ## Direct reads -/

section

variable {stray : Stray} {bo : ShaderBo} {info : ValidatedShaderInfo} {ip : ℕ}
  {l l' : LoopState} {q : Qpu}

/-- In a run of sound instructions of an accepted shader, a direct read is made by the ADD half,
and the address that it gives to the texture unit is the uniform at `p_offset[0]` plus an offset
clamped to `0` and to the uniform at `p_offset[1]` of its own sample, the next one to be recorded.

**Proof sketch.** The registers are tracked along the run (`Run.inv`), so the first operand of the
addition holds the clamped value that the check looks up; the second one is the uniform that the
stream has reached, which is where the check places the parameter. -/
theorem direct_read_clamped (h : validateShader stray bo = some info)
    (hrun : Run stray bo u (ClampSound u) ip l q) (isMul : Bool)
    (hsub : isTmuSubmit (waddrOf (bo.mem ip) isMul) = true)
    (hdirect : (q.stream.before (bo.mem ip) isMul).count
      (decide (wTmu0B < waddrOf (bo.mem ip) isMul)) = 0)
    (hpass : validateInst stray bo ip l = some l')
    (hok : ClampSound u l'.state (bo.mem ip) q.stream) {reg : RegFile}
    (hf : Finds bo.mem ip q.reg reg) {v : U32} (hv : AddOut u (bo.mem ip) reg q.stream.ptr v) :
    isMul = false ∧ ∃ s, l.shader.textureSamples ++ [s] <+: info.textureSamples ∧
      s.isDirect = true ∧ ∃ w : U32, v = u (s.pOffset 0) + w ∧ IsClamped w (u (s.pOffset 1)) ∧
        0 ≤ w.toInt ∧ w.toInt ≤ (u (s.pOffset 1)).toInt := by
  have hinv := hrun.inv
  obtain ⟨-, l₂, hpass₂, hinfo⟩ := hinv.1.pass h
  obtain rfl : l' = l₂ := Option.some_injective _ (hpass.symm.trans hpass₂)
  obtain ⟨l₁, h₁, h₂⟩ := bind_eq_some_iff.1 hpass
  obtain ⟨ht, hs⟩ := hinv.enter hf h₁
  rw [hs] at hdirect hv
  cases isMul with
  | true => exact absurd hdirect (checkInst_mul h₂ hsub)
  | false =>
  obtain ⟨hfirst, hpack, hunpack⟩ := hok.direct hsub (hs ▸ hdirect)
  have hnop : (bo.mem ip).waddrAdd ≠ wNop := fun heq => by
    rw [waddrOf, if_neg Bool.false_ne_true, heq] at hsub
    exact absurd hsub (by decide)
  -- what the check of the ADD half has looked up and recorded
  obtain ⟨c, hc, hkept⟩ := checkInst_add h₂ hnop
  have hframe := trackImmediate_frame (bo.mem ip) false l₁.toChecked
  obtain ⟨_, _, htrack⟩ := trackImmediate_eq (bo.mem ip) false l₁.toChecked
  obtain ⟨himm, hop, hunif, r, hr, hoff, s, hmem, hdir, hp0, hp1⟩ :=
    checkTmuWrite_direct hsub (by rw [htrack]; exact hdirect)
      (checkRegWrite_tmu (isTmuWrite_of_submit hsub) hc)
  have hrlt := raddrAddA_lt hfirst hr
  rw [ValidationState.minClampOffset, if_pos hrlt, hframe.minOffsets] at hoff hp1
  rw [htrack] at hp0 hmem
  -- what the addition adds
  have hout := hv hpack
  rw [if_neg hfirst.1, hop] at hout
  obtain ⟨a, b, ha, hb, hres⟩ := hout
  have hunif' : ((bo.mem ip).addB = .a ∧ (bo.mem ip).raddrA = rUnif) ∨
      ((bo.mem ip).addB = .b ∧ (bo.mem ip).raddrB = rUnif ∧ (bo.mem ip).sig ≠ .smallImm) := by
    simp only [addsUniform, decide_eq_true_eq] at hunif
    exact hunif.imp_right fun h => ⟨h.1, h.2, himm⟩
  have hclamp := ht.min r hrlt hoff
  rw [← hp1] at hclamp
  rw [← (enterInst_stream h₁).1]
  refine ⟨rfl, s, hmem ▸ hkept.trans hinfo, hdir, reg r, ?_, hclamp, hclamp.bounds⟩
  rw [hp0, show v = a + b from hres, operand_addA hfirst hunpack hr ha,
    operand_addB hunif' hunpack hb]
  exact BitVec.add_comm _ _

end

/-- The address of the direct read, `7` from a register and `100` from the uniforms, is clamped. -/
theorem direct_read_clamped_sevens : ∃ info l s,
    validateShader noStray (directRead false) = some info ∧
    Run noStray (directRead false) hundreds (ClampSound hundreds) 2 l (sevens false 2) ∧
    l.shader.textureSamples ++ [s] <+: info.textureSamples ∧ s.isDirect = true ∧
    ∃ w : U32, (107 : U32) = 100 + w ∧ IsClamped w 100 ∧
      0 ≤ w.toInt ∧ w.toInt ≤ (100 : U32).toInt := by
  have hsome : (validateShader noStray (directRead false)).isSome := by decide +kernel
  obtain ⟨info, h⟩ := isSome_iff_exists.1 hsome
  have hok : ∀ i < 3, ∀ v,
      ClampSound hundreds v ((directRead false).mem i) (sevens false i).stream := by
    have hfirst : ∀ i < 3, FirstIsRegister ((directRead false).mem i) := by
      unfold FirstIsRegister
      decide
    have hfields : ∀ i < 3, ((directRead false).mem i).pack = 0 ∧
        ((directRead false).mem i).unpack = 0 ∧ dstMul ((directRead false).mem i) = none := by
      decide
    intro i hi v
    obtain ⟨hpack, hunpack, hmul⟩ := hfields i hi
    have hne : ∀ r, dstMul ((directRead false).mem i) ≠ some r := by simp [hmul]
    have hbound : 0 ≤ (100 : U32).toInt := by decide
    exact ⟨fun r _ _ => ⟨hpack, hne r⟩, fun r _ _ => ⟨hfirst i hi, hpack, hunpack, hne r, hbound⟩,
      fun _ _ => ⟨hfirst i hi, hpack, hunpack⟩⟩
  obtain ⟨l, hrun⟩ := directRead_run _ h (by decide +kernel) (by decide) rfl (hok 0 (by decide))
    (directRead_max false _) (hok 1 (by decide)) directRead_min
  obtain ⟨-, l', hpass, -⟩ := hrun.inv.1.pass h
  have hv : AddOut hundreds readInst (fun _ => 7) (sevens false 2).stream.ptr 107 := by
    obtain ⟨hsig, -, -, haddA, haddB, hraddrA, hraddrB, hop⟩ := readInst_fields
    intro _
    refine ⟨7, 100, ?_, ?_, ?_⟩
    · simp [Operand, haddA, hraddrA, rUnif]
    · simp [Operand, haddB, hraddrB, hundreds]
    · exact (by decide : (107 : U32) = 7 + 100)
  obtain ⟨-, s, hclamped⟩ := direct_read_clamped h hrun false (by decide) (by decide) hpass
    (hok 2 (by decide) _) (fun _ _ => rfl) hv
  exact ⟨info, l, s, h, hrun, hclamped⟩

/-- The immediate that is taken for a minimum. -/
def immediate : U32 := 0x12020dc0

def loaded : Qpu where
  reg := Function.update (fun _ => 7) 1 immediate
  stream := (sevens true 1).stream.next (minInst true)

lemma loaded_reg (r : ℕ) : loaded.reg r = if r = 1 then immediate else 7 :=
  Function.update_apply (fun _ => 7) 1 immediate r

lemma directRead_imm : QpuStep hundreds (directRead true).mem 1 (sevens true 1) loaded := by
  have hsig : (minInst true).sig = .loadImm := by decide
  have hadd : dstAdd (minInst true) = some 1 := by decide
  have himm : (minInst true).loadImm = immediate := by decide
  refine ⟨rfl, fun _ => 7, fun _ _ => rfl, ?_⟩
  change Writes hundreds (minInst true) (fun _ => 7) (sevens true 1).stream.ptr loaded.reg
  refine ⟨fun r hr _ => ?_, fun r hr _ _ _ => ?_, fun r hr => ?_⟩
  · have hne : r ≠ 1 := fun h => hr (by rw [hadd, h])
    rw [loaded_reg, if_neg hne]
  · rw [hadd, Option.some.injEq] at hr
    rw [if_pos hsig, himm, ← hr, loaded_reg, if_pos rfl]
  · cases hr

/-- A shader whose minimum is the load of an immediate with the same fields is accepted, and its
direct read takes the immediate for an offset: the address is not the uniform at `p_offset[0]` plus
an offset clamped to the uniform at `p_offset[1]`. -/
theorem direct_read_unclamped : ∃ info l v, validateShader noStray (directRead true) = some info ∧
    Run noStray (directRead true) hundreds (fun _ _ _ => True) 2 l loaded ∧
    isTmuSubmit (waddrOf ((directRead true).mem 2) false) = true ∧
    (loaded.stream.before ((directRead true).mem 2) false).count
      (decide (wTmu0B < waddrOf ((directRead true).mem 2) false)) = 0 ∧
    (∀ w, AddOut hundreds ((directRead true).mem 2) loaded.reg loaded.stream.ptr w ↔ w = v) ∧
    ¬ ∃ s ∈ info.textureSamples, ∃ w : U32, v = hundreds (s.pOffset 0) + w ∧
      0 ≤ w.toInt ∧ w.toInt ≤ (hundreds (s.pOffset 1)).toInt := by
  have hsome : (validateShader noStray (directRead true)).isSome := by decide +kernel
  obtain ⟨info, h⟩ := isSome_iff_exists.1 hsome
  obtain ⟨l, hrun⟩ := directRead_run (fun _ _ _ => True) h (by decide +kernel) (by decide) rfl
    (fun _ => trivial) (directRead_max true _) (fun _ => trivial) directRead_imm
  refine ⟨info, l, immediate + 100, h, hrun, by decide, by decide, fun w => ?_, ?_⟩
  · change AddOut hundreds readInst loaded.reg loaded.stream.ptr w ↔ w = immediate + 100
    obtain ⟨hsig, hpack, hunpack, haddA, haddB, hraddrA, hraddrB, hop⟩ := readInst_fields
    have hreg : loaded.reg 1 = immediate := by rw [loaded_reg, if_pos rfl]
    simp [hundreds, AddOut, Operand, OpAdd.Result, hsig, hpack, hunpack, haddA, haddB, hraddrA,
      hraddrB, hop,
      hreg, rUnif]
  · rintro ⟨s, -, w, hw, h0, hle⟩
    have hw' : w = immediate := by
      rw [hundreds] at hw
      bv_omega
    rw [hw', hundreds] at hle
    exact absurd hle (by decide)

end KmsDrm.Vc4
