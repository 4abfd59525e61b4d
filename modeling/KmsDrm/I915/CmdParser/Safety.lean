import KmsDrm.I915.CmdParser.Execution

/-!
# What an accepted batch does

A batch the parser accepts executes only commands the tables allow, with the dwords they expect,
on registers of the whitelist. A whitelist entry with a mask is meant to be written by
`MI_LOAD_REGISTER_IMM` only, with a value that matches; this part of the check compares the
value of the descriptor, which has no length bits, with encodings that have some, and so never
applies to `MI_LOAD_REGISTER_IMM` and `MI_LOAD_REGISTER_MEM`.

## Main definitions

* `I915.ExecutionSafe` — what an accepted batch should do.

## Main results

* `I915.accepted_safe_iff` — when it does.
-/

namespace KmsDrm.I915

open KmsDrm.Lib

variable {i len o : ℕ} {r : RegDescriptor} {h : BitVec 32} {dev : Device} {t : EngineTables}
  {mem : Shadow} {d : CmdDescriptor}

/-! ## Safe commands -/

/-- The dwords of a command of length `len` that hold register addresses. -/
def CmdDescriptor.RegOffset (d : CmdDescriptor) (len i : ℕ) : Prop :=
  i < len ∧ if d.reg.step ≠ 0 then ∃ k, i = d.reg.offset + k * d.reg.step else i = d.reg.offset

/-- The command at dword `o` is not one the tables reject, has the expected dwords, and names
only registers of the whitelist. -/
structure CommandSafe (t : EngineTables) (mem : Shadow) (o : ℕ) : Prop where
  notRejected : ∀ d ∈ t.cmds, d.fits (mem o) = true → d.has cmdDescReject = false
  bitmasks : ∀ d ∈ t.cmds, d.fits (mem o) = true → d.has cmdDescBitmask = true →
    ∀ b ∈ d.bits,
      (b.conditionMask = 0 ∨ mem (o + b.conditionOffset) &&& b.conditionMask ≠ 0) →
      b.offset < d.decodeLength (mem o) ∧ mem (o + b.offset) &&& b.mask = b.expected
  registers : ∀ d ∈ t.cmds, d.fits (mem o) = true → d.has cmdDescRegister = true →
    ∀ i, d.RegOffset (d.decodeLength (mem o)) i →
      ∃ r ∈ t.regs, r.addr = mem (o + i) &&& d.reg.mask

/-- The bits of a register operand that are its address. -/
def regAddrMask : BitVec 32 := 0x007FFFFC

/-- The dwords of a command that hold the address of a register it writes: every pair of
`MI_LOAD_REGISTER_IMM`, the one of `MI_LOAD_REGISTER_MEM`, and the second one of
`MI_LOAD_REGISTER_REG`. -/
def WritesReg (h : BitVec 32) (len i : ℕ) : Prop :=
  i < len ∧
    (isOp (miLoadRegisterImm 1) h = true ∧ i % 2 = 1 ∨
      isOp miLoadRegisterMem h = true ∧ i = 1 ∨ isOp miLoadRegisterReg h = true ∧ i = 2)

/-- The command at dword `o` writes a register with a mask only by `MI_LOAD_REGISTER_IMM`, and
only with a value that matches. -/
def MaskedSafe (t : EngineTables) (mem : Shadow) (o : ℕ) : Prop :=
  ∀ len, t.cmdLength (mem o) = some len → ∀ i, WritesReg (mem o) len i →
    ∀ r ∈ t.regs, r.addr = mem (o + i) &&& regAddrMask → r.mask ≠ 0 →
      isOp (miLoadRegisterImm 1) (mem o) = true ∧ i + 1 < len ∧
        mem (o + i + 1) &&& r.mask = r.value

def ExecutionSafe (t : EngineTables) (base : BitVec 64) (mem : Shadow) : Prop :=
  ∀ o, Executed t base mem o → CommandSafe t mem o ∧ MaskedSafe t mem o

/-! ## The checks -/

lemma checkBits_sound {cmd : Shadow} {bits : List BitCheck} (hmask : ∀ b ∈ bits, b.mask ≠ 0)
    (h : checkBits cmd len bits = true) {b : BitCheck} (hb : b ∈ bits)
    (hcond : b.conditionMask = 0 ∨ cmd b.conditionOffset &&& b.conditionMask ≠ 0) :
    b.offset < len ∧ cmd b.offset &&& b.mask = b.expected := by
  induction bits with
  | nil => simp at hb
  | cons a bits ih =>
    have htail : checkBits cmd len bits = true ∧
        (a = b → b.offset < len ∧ cmd b.offset &&& b.mask = b.expected) := by
      rw [checkBits, if_neg (hmask a List.mem_cons_self)] at h
      split_ifs at h with hskip hlen hval
      · refine ⟨h, ?_⟩
        rintro rfl
        rcases hcond with h0 | h0
        · exact absurd h0 hskip.1
        · exact absurd hskip.2 h0
      · refine ⟨h, ?_⟩
        rintro rfl
        exact ⟨Nat.lt_of_not_le hlen, not_not.1 hval⟩
    rcases List.mem_cons.1 hb with heq | hb
    · exact htail.2 heq.symm
    · exact ih (fun b hb => hmask b (.tail _ hb)) htail.1 hb

lemma checkRegs_sound {cmd : Shadow} {step : ℕ}
    (hstep : step = if d.reg.step ≠ 0 then d.reg.step else len) (hpos : 0 < step)
    {rounds offset : ℕ} (hr : len ≤ offset + rounds)
    (h : checkRegs t d cmd len rounds offset = true) (k : ℕ) (hk : offset + k * step < len) :
    checkReg t d cmd len (offset + k * step) = true := by
  induction rounds generalizing offset k with
  | zero => omega
  | succ rounds ih =>
    have hlt : offset < len := by omega
    rw [checkRegs, if_pos hlt, Bool.and_eq_true, ← hstep] at h
    cases k with
    | zero => simpa using h.1
    | succ k =>
      have hsucc : offset + (k + 1) * step = offset + step + k * step := by
        rw [Nat.add_mul]
        omega
      rw [hsucc] at hk ⊢
      exact ih (by omega) h.2 k hk

lemma checkReg_sound {cmd : Shadow} (h : checkReg t d cmd len i = true) :
    ∃ r ∈ t.regs, r.addr = cmd i &&& d.reg.mask ∧ (r.mask ≠ 0 → d.value ≠ miLoadRegisterReg) := by
  rw [checkReg] at h
  split at h
  · simp at h
  · rename_i r hr
    obtain ⟨hmem, haddr⟩ := findReg_sound hr
    refine ⟨r, hmem, haddr, fun hmask hval => ?_⟩
    split_ifs at h

lemma checkCmd_reg {cmd : Shadow} (hlen : 0 < len) (h : checkCmd t d cmd len = true)
    (hskip : d.has cmdDescSkip = false) (hreg : d.has cmdDescRegister = true)
    (hi : d.RegOffset len i) : checkReg t d cmd len i = true := by
  have hregs : checkRegs t d cmd len len d.reg.offset = true := by
    simp only [checkCmd, hskip, hreg, Bool.false_eq_true, if_false] at h
    split_ifs at h with _ hr
    all_goals simpa using hr
  obtain ⟨hlt, hi⟩ := hi
  split_ifs at hi with hstep
  · obtain ⟨k, rfl⟩ := hi
    exact checkRegs_sound (if_pos hstep).symm (Nat.pos_of_ne_zero hstep) (by omega) hregs k hlt
  · subst hi
    have := checkRegs_sound (if_neg hstep).symm hlen (by omega) hregs 0 (by omega)
    simpa using this

lemma checkCmd_safe (hg : t.Good) (hd : Describes t d (mem o))
    (h : checkCmd t d (fun i => mem (o + i)) (d.decodeLength (mem o)) = true) :
    CommandSafe t mem o where
  notRejected := by
    intro d' hmem hfit
    obtain rfl := hd.eq_of_fits hg hmem hfit
    cases hskip : d'.has cmdDescSkip with
    | true => exact (hg.cmds.skip d' hmem hskip).1
    | false =>
      cases hrej : d'.has cmdDescReject with
      | false => rfl
      | true => simp [checkCmd, hskip, hrej] at h
  bitmasks := by
    intro d' hmem hfit hbits b hb hcond
    obtain rfl := hd.eq_of_fits hg hmem hfit
    have hskip : d'.has cmdDescSkip = false := by
      cases hskip : d'.has cmdDescSkip with
      | false => rfl
      | true => simp [(hg.cmds.skip d' hmem hskip).2.2] at hbits
    have hchecked : checkBits (fun i => mem (o + i)) (d'.decodeLength (mem o)) d'.bits = true := by
      simp only [checkCmd, hskip, hbits, Bool.false_eq_true, if_false] at h
      split_ifs at h with _ _ hb
      simpa using hb
    exact checkBits_sound (fun b hb => ((hg.cmds.bits d' hmem).2 b hb).1) hchecked hb hcond
  registers := by
    intro d' hmem hfit hreg i hi
    obtain rfl := hd.eq_of_fits hg hmem hfit
    have hskip : d'.has cmdDescSkip = false := by
      cases hskip : d'.has cmdDescSkip with
      | false => rfl
      | true => simp [(hg.cmds.skip d' hmem hskip).2.1] at hreg
    obtain ⟨r, hr, haddr, -⟩ :=
      checkReg_sound (checkCmd_reg (hd.decodeLength_pos hg) h hskip hreg hi)
    exact ⟨r, hr, haddr⟩

lemma CommandSafe.congr {mem' : Shadow} (h : CommandSafe t mem o) (hhead : mem' o = mem o)
    (hbits : ∀ d ∈ t.cmds, d.fits (mem o) = true → ∀ b ∈ d.bits,
      mem' (o + b.conditionOffset) = mem (o + b.conditionOffset) ∧
      (b.offset < d.decodeLength (mem o) → mem' (o + b.offset) = mem (o + b.offset)))
    (hregs : ∀ d ∈ t.cmds, d.fits (mem o) = true → d.has cmdDescRegister = true →
      ∀ i < d.decodeLength (mem o), mem' (o + i) = mem (o + i)) :
    CommandSafe t mem' o where
  notRejected := by
    rw [hhead]
    exact h.notRejected
  bitmasks := by
    rw [hhead]
    intro d hmem hfit hb b hbmem hcond
    obtain ⟨hc, ho⟩ := hbits d hmem hfit b hbmem
    rw [hc] at hcond
    obtain ⟨hlt, heq⟩ := h.bitmasks d hmem hfit hb b hbmem hcond
    exact ⟨hlt, by rw [ho hlt, heq]⟩
  registers := by
    rw [hhead]
    intro d hmem hfit hr i hi
    rw [hregs d hmem hfit hr i hi.1]
    exact h.registers d hmem hfit hr i hi

/-! ## Accepted batches -/

/-- The commands of a batch up to its end or its first jump, by the dword they start at. -/
inductive CommandStart (t : EngineTables) (mem : Shadow) : ℕ → Prop
  | start : CommandStart t mem 0
  | next {o len : ℕ} (ho : CommandStart t mem o) (hend : mem o ≠ miBatchBufferEnd)
      (hjump : isOp miBatchBufferStart (mem o) = false)
      (hlen : t.cmdLength (mem o) = some len) : CommandStart t mem (o + len)

lemma CommandStart.executed (h : CommandStart t mem o) (base : BitVec 64) :
    Executed t base mem o := by
  induction h with
  | start => exact .start
  | next _ hend hjump hlen ih => exact .next ih hend hjump hlen

/-- The batch respects the masks of the two Haswell registers that have one: no
`MI_LOAD_REGISTER_MEM` of it names them, and every `MI_LOAD_REGISTER_IMM` that does gives them a
value without bits other than those of the L3 atomics. -/
def MaskedWritesLegal (t : EngineTables) (mem : Shadow) : Prop :=
  ∀ o, CommandStart t mem o →
    (isOp miLoadRegisterMem (mem o) = true →
      mem (o + 1) &&& regAddrMask ≠ hswScratch1 ∧ mem (o + 1) &&& regAddrMask ≠ hswRowChicken3) ∧
    (isOp (miLoadRegisterImm 1) (mem o) = true → ∀ len, t.cmdLength (mem o) = some len →
      ∀ i < len, i % 2 = 1 →
        (mem (o + i) &&& regAddrMask = hswScratch1 →
          i + 1 < len ∧ mem (o + i + 1) &&& ~~~hswScratch1L3DataAtomicsDisable = 0) ∧
        (mem (o + i) &&& regAddrMask = hswRowChicken3 →
          i + 1 < len ∧
            mem (o + i + 1) &&& ~~~(hswRowChicken3L3GlobalAtomicsDisable <<< 16 |||
              hswRowChicken3L3GlobalAtomicsDisable) = 0))

/-! ## The masked registers -/

def hswRenderTables : EngineTables :=
  ⟨hswRenderRingCmdTable, hswRenderRegTables, gen7RenderGetCmdLengthMask⟩

/-- The whitelist entry of `HSW_SCRATCH1`. -/
def scratch1Entry : RegDescriptor :=
  { addr := hswScratch1, mask := ~~~hswScratch1L3DataAtomicsDisable, value := 0 }

/-- The whitelist entry of `HSW_ROW_CHICKEN3`. -/
def rowChicken3Entry : RegDescriptor :=
  { addr := hswRowChicken3,
    mask := ~~~(hswRowChicken3L3GlobalAtomicsDisable <<< 16 |||
      hswRowChicken3L3GlobalAtomicsDisable),
    value := 0 }

lemma hswRender_masked (hr : r ∈ hswRenderTables.regs) (hm : r.mask ≠ 0) :
    r = scratch1Entry ∨ r = rowChicken3Entry := by
  have h : ∀ r ∈ hswRenderTables.regs, r.mask ≠ 0 → r = scratch1Entry ∨ r = rowChicken3Entry := by
    decide +kernel
  exact h r hr hm

lemma regs_mask_zero {id : EngineId} (h : engineTables dev id = some t)
    (hne : ¬(dev.isHaswell = true ∧ id = .rcs)) : ∀ r ∈ t.regs, r.mask = 0 := by
  unfold engineTables at h
  rw [Option.ite_none_left_eq_some] at h
  replace h := h.2
  cases id with
  | rcs =>
    simp only at h
    split_ifs at h with hh
    · exact absurd ⟨hh, rfl⟩ hne
    · cases h
      decide +kernel
  | vcs =>
    cases h
    decide
  | bcs =>
    split_ifs at h
    all_goals
      cases h
      decide +kernel
  | vecs =>
    cases h
    decide
  | vcs2 => simp at h

lemma engineTables_hsw (h : engineTables dev .rcs = some t) (hh : dev.isHaswell = true) :
    t = hswRenderTables := by
  simp only [engineTables, dev.gen_of_isHaswell hh, hh] at h
  exact (Option.some.inj h).symm

lemma cmd_fits (op : BitVec 32) (f : Bool) (lm fl : BitVec 32) (reg : RegField)
    (bits : List BitCheck) (h : BitVec 32) : (cmd op smi f lm fl reg bits).fits h = isOp op h := by
  have heq : (h ^^^ (op &&& opcodeMask smi)) &&& opcodeMask smi =
      (h ^^^ op) &&& opcodeMask smi := by
    apply BitVec.eq_of_getLsbD_eq
    intro i _
    simp only [BitVec.getLsbD_and, BitVec.getLsbD_xor]
    cases (opcodeMask smi).getLsbD i <;> simp
  exact congrArg (· == 0) heq

lemma isOp_iff (op h : BitVec 32) : isOp op h = true ↔ h >>> smi = op >>> smi := by
  have hfit := CmdDescriptor.fits_iff (d := ⟨0, op, opcodeMask smi, 0, {}, []⟩) rfl h
  exact hfit

lemma isOp_congr {op op' : BitVec 32} (hop : isOp op h = true) : isOp op' h = isOp op' op := by
  rw [isOp_iff] at hop
  rw [Bool.eq_iff_iff, isOp_iff, isOp_iff, hop]

/-- The entry of `MI_LOAD_REGISTER_MEM`. -/
def lrmDesc : CmdDescriptor :=
  cmd miLoadRegisterMem smi true 3 (cmdDescRegister ||| cmdDescBitmask)
    { offset := 1, mask := 0x007FFFFC } [ppgttOnly]

/-- The entry of `MI_LOAD_REGISTER_REG`. -/
def lrrDesc : CmdDescriptor :=
  cmd miLoadRegisterReg smi false 0xFF cmdDescRegister
    { offset := 1, mask := 0x007FFFFC, step := 1 }

lemma lrm_cmdLength (hop : isOp miLoadRegisterMem h = true) :
    hswRenderTables.cmdLength h = some 3 := by
  have hmem : lrmDesc ∈ hswRenderTables.cmds := by decide +kernel
  have hsel : engineTables ⟨7, true, fun _ => rfl⟩ .rcs = some hswRenderTables := rfl
  have hgood := engineTables_good hsel
  have hd : Describes hswRenderTables lrmDesc h := .inl ⟨hmem, by rw [lrmDesc, cmd_fits, hop]⟩
  rw [hd.cmdLength hgood]
  rfl

section Accepted

variable {hash32Buf : BitVec 32 → ℕ → BitVec 32} {alloc : ℕ → Bool} {dev : Device}
variable {id : EngineId} {e : Engine} (he : initCmdParser hash32Buf alloc dev id = some e)
variable {req : Request} {ctx : Context} {mem : Shadow} {s s' : ParseState}

/-- The command at a state the loop reached before it was left with success: it passed, or it is
the end of the batch. -/
lemma reached_passes {u : ParseState} (hus : Loop.Reaches (turn hash32Buf e req) u s)
    (hleave : turn hash32Buf e req s = .leave (0, s')) :
    (u = s ∧ u.mem u.offset = miBatchBufferEnd) ∨ ∃ desc, Passes hash32Buf e req u desc ∧
      (u = s ∧ desc.value = miBatchBufferStart ∨
        ∃ v, turn hash32Buf e req u = .next v ∧ Loop.Reaches (turn hash32Buf e req) v s) := by
  rcases Relation.ReflTransGen.cases_head hus with rfl | ⟨v, hv, hvs⟩
  · rcases turn_leave_zero hleave with ⟨hend, -⟩ | ⟨desc, hp, hval, -, -⟩
    · exact .inl ⟨rfl, hend⟩
    · exact .inr ⟨desc, hp, .inl ⟨rfl, hval⟩⟩
  · obtain ⟨desc, hp, -, -, -⟩ := turn_next hv
    exact .inr ⟨desc, hp, .inr ⟨v, hv, hvs⟩⟩

include he

section

variable (hreach : Loop.Reaches (turn hash32Buf e req) (firstState e req ctx mem) s)
  (hleave : turn hash32Buf e req s = .leave (0, s'))

include hreach hleave

/-- **An accepted batch executes only safe commands**, the masks of the whitelist apart.

**Proof sketch.** An executed command is one the loop went through, and what it passed there
makes it safe in the copy the loop read. The copy that is executed differs only in the operand
of the last command, a jump: the commands before it end before that operand, and of the jump
itself only the header is looked at. -/
lemma executed_commandSafe
    (ho : Executed e.tables req.shadowBatchStart s'.mem o) : CommandSafe e.tables s'.mem o := by
  have hg := initCmdParser_good he
  obtain ⟨u, hu, hus, rfl⟩ := reached_of_executed he hreach hleave ho
  have hinv := reaches_inv he hu
  have hsame : ∀ i ≤ s.offset, s'.mem i = mem i := fun i hi =>
    leave_mem (reaches_inv he hreach) hleave hi
  have hhead := hsame u.offset (reaches_offset_le he hinv hus)
  rcases reached_passes hus hleave with ⟨rfl, hend⟩ | ⟨desc, hp, hcase⟩
  · -- the end of the batch has no entry in the tables
    rw [hinv.mem] at hend
    have hnone : ∀ d ∈ e.tables.cmds, ¬d.fits (s'.mem u.offset) = true := by
      rw [hhead, hend]
      simpa using hg.cmds.noEnd
    exact ⟨fun d hd hf => absurd hf (hnone d hd), fun d hd hf => absurd hf (hnone d hd),
      fun d hd hf => absurd hf (hnone d hd)⟩
  · have hd := hp.describes he hinv
    have hchecked := hp.checked
    rw [hinv.mem] at hchecked
    have hsafe := checkCmd_safe hg hd hchecked
    rcases hcase with ⟨rfl, hval⟩ | ⟨v, hv, hvs⟩
    · apply hsafe.congr hhead
      · intro d hmem hfit b hb
        obtain rfl := hd.eq_of_fits hg hmem hfit
        obtain ⟨h0, hc⟩ := (hg.cmds.jump d hmem hval).2 b hb
        rw [h0, hc]
        exact ⟨hhead, fun _ => hhead⟩
      · intro d hmem hfit hreg
        obtain rfl := hd.eq_of_fits hg hmem hfit
        rw [(hg.cmds.jump d hmem hval).1] at hreg
        simp at hreg
    · obtain ⟨desc', hp', -, -, rfl⟩ := turn_next hv
      obtain rfl : desc = desc' := Option.mem_unique hp.found hp'.found
      have hend := reaches_offset_le he (reaches_inv he (hu.tail hv)) hvs
      simp only [hinv.mem] at hend
      have hpos := hd.decodeLength_pos hg
      apply hsafe.congr hhead
      · intro d hmem hfit b hb
        obtain rfl := hd.eq_of_fits hg hmem hfit
        have hc := ((hg.cmds.bits d hmem).2 b hb).2
        exact ⟨hsame _ (by omega), fun hlt => hsame _ (by omega)⟩
      · intro d hmem hfit _ i hi
        obtain rfl := hd.eq_of_fits hg hmem hfit
        exact hsame _ (by omega)

lemma ggtt_leave (hggtt : e.device.cmdparserUsesGgtt = true) :
    s'.mem = mem ∧ s.mem s.offset = miBatchBufferEnd := by
  rcases turn_leave_zero hleave with ⟨hend, rfl⟩ | ⟨desc, -, -, hbb, -⟩
  · exact ⟨(reaches_inv he hreach).mem, hend⟩
  · rw [(checkBbstart_zero hbb).1] at hggtt
    simp at hggtt

lemma executed_commandStart (hggtt : e.device.cmdparserUsesGgtt = true)
    (ho : Executed e.tables req.shadowBatchStart s'.mem o) : CommandStart e.tables mem o := by
  obtain ⟨hmem, hlast⟩ := ggtt_leave he hreach hleave hggtt
  induction ho with
  | start => exact .start
  | next _ hend hjump hlen ih =>
    rw [hmem] at hend hjump hlen
    exact .next ih hend hjump hlen
  | @jump o ho hjump _ =>
    obtain ⟨u, hu, hus, rfl⟩ := reached_of_executed he hreach hleave ho
    have hinv := reaches_inv he hu
    rw [hmem] at hjump
    rcases reached_passes hus hleave with ⟨-, hend⟩ | ⟨desc, hp, ⟨rfl, -⟩ | ⟨v, hv, -⟩⟩
    · rw [hinv.mem] at hend
      rw [hend] at hjump
      exact absurd hjump (by decide)
    · exact absurd hlast hp.noEnd
    · obtain ⟨desc', hp', hval, -, -⟩ := turn_next hv
      have hg := initCmdParser_good he
      exact absurd (((hp'.describes he hinv).value_eq_bbStart hg).2 hjump) hval

/-- An executed `MI_LOAD_REGISTER_REG` of an accepted batch names no register with a mask: this
is the comparison of the check that works. -/
lemma lrr_unmasked (htab : e.tables = hswRenderTables)
    (ho : Executed e.tables req.shadowBatchStart s'.mem o)
    (hop : isOp miLoadRegisterReg (mem o) = true) (hlen : e.tables.cmdLength (mem o) = some len)
    (hi : 2 < len) (hr : r ∈ e.tables.regs) (haddr : r.addr = mem (o + 2) &&& regAddrMask) :
    r.mask = 0 := by
  have hg := initCmdParser_good he
  obtain ⟨u, hu, hus, rfl⟩ := reached_of_executed he hreach hleave ho
  have hinv := reaches_inv he hu
  have hmem : lrrDesc ∈ e.tables.cmds := by
    rw [htab]
    decide +kernel
  rcases reached_passes hus hleave with ⟨-, hend⟩ | ⟨desc, hp, -⟩
  · rw [hinv.mem] at hend
    rw [hend] at hop
    exact absurd hop (by decide)
  · have hd := hp.describes he hinv
    obtain rfl := hd.eq_of_fits hg hmem (by rw [lrrDesc, cmd_fits, hop])
    have hchecked := hp.checked
    rw [hd.cmdLength hg] at hlen
    rw [hinv.mem, Option.some.inj hlen] at hchecked
    have hoff : lrrDesc.RegOffset len 2 := ⟨hi, 1, rfl⟩
    obtain ⟨r', hr', haddr', hval⟩ :=
      checkReg_sound (checkCmd_reg (by omega) hchecked (by decide) (by decide) hoff)
    obtain rfl : r = r' := List.inj_on_of_nodup_map hg.regs.2.1 hr hr' (haddr.trans haddr'.symm)
    by_contra hmask
    exact hval hmask (by decide)

lemma hsw_masked_iff (htab : e.tables = hswRenderTables)
    (hggtt : e.device.cmdparserUsesGgtt = true) :
    (∀ o, Executed e.tables req.shadowBatchStart s'.mem o → MaskedSafe e.tables s'.mem o) ↔
      MaskedWritesLegal e.tables mem := by
  have hmem := (ggtt_leave he hreach hleave hggtt).1
  constructor
  · intro hsafe o ho
    have hm := hsafe o (by rw [hmem]; exact ho.executed _)
    rw [hmem] at hm
    have h1 : scratch1Entry ∈ e.tables.regs := by
      rw [htab]
      decide +kernel
    have h2 : rowChicken3Entry ∈ e.tables.regs := by
      rw [htab]
      decide +kernel
    refine ⟨fun hop => ?_, fun hop len hlen i hi hodd => ?_⟩
    · have hlen : e.tables.cmdLength (mem o) = some 3 := by
        rw [htab]
        exact lrm_cmdLength hop
      -- a write by this command would have to be an immediate one
      have hno : ∀ r ∈ e.tables.regs, r.mask ≠ 0 → mem (o + 1) &&& regAddrMask ≠ r.addr := by
        intro r hr hmask haddr
        have hw : WritesReg (mem o) 3 1 := ⟨by decide, .inr (.inl ⟨hop, rfl⟩)⟩
        obtain ⟨hlri, -⟩ := hm 3 hlen 1 hw r hr haddr.symm hmask
        exact absurd hlri (by rw [isOp_congr hop]; decide)
      exact ⟨hno _ h1 (by decide), hno _ h2 (by decide)⟩
    · have hw : WritesReg (mem o) len i := ⟨hi, .inl ⟨hop, hodd⟩⟩
      exact ⟨fun ha => (hm len hlen i hw _ h1 ha.symm (by decide)).2,
        fun ha => (hm len hlen i hw _ h2 ha.symm (by decide)).2⟩
  · intro hlegal o ho
    obtain ⟨hlrm, hlri⟩ := hlegal o (executed_commandStart he hreach hleave hggtt ho)
    rw [hmem]
    rintro len hlen i ⟨hi, hkind⟩ r hr haddr hmask
    have hr2 : r = scratch1Entry ∨ r = rowChicken3Entry := hswRender_masked (htab ▸ hr) hmask
    rcases hkind with ⟨hop, hodd⟩ | ⟨hop, rfl⟩ | ⟨hop, rfl⟩
    · obtain ⟨hs, hc⟩ := hlri hop len hlen i hi hodd
      rcases hr2 with rfl | rfl
      · exact ⟨hop, hs haddr.symm⟩
      · exact ⟨hop, hc haddr.symm⟩
    · obtain ⟨hs, hc⟩ := hlrm hop
      rcases hr2 with rfl | rfl
      · exact absurd haddr.symm hs
      · exact absurd haddr.symm hc
    · exact absurd (lrr_unmasked he hreach hleave htab ho hop hlen hi hr haddr) hmask

end

/-- **An accepted batch is safe exactly if it respects the masks by itself.** Whatever the
engine, the batch and the context: the commands an accepted batch executes are not rejected by
the tables, have the expected dwords and name registers of the whitelist only. That registers
with a mask are written as their entry asks is ensured on every engine but the Haswell render
engine, which has the only entries with a mask; there the check leaves it to the batch.

**Proof sketch.** The first part is `executed_commandSafe`. On other engines no entry has a mask
(`regs_mask_zero`); on the Haswell render engine, `hsw_masked_iff`. -/
theorem accepted_safe_iff {p : Parsed} (hcopy : req.copy = .ok mem)
    (hparse : cmdParser hash32Buf e req ctx = some p) (hret : p.ret = 0)
    (hlast : p.last = some s') :
    (∀ o, Executed e.tables req.shadowBatchStart s'.mem o → CommandSafe e.tables s'.mem o) ∧
      (ExecutionSafe e.tables req.shadowBatchStart s'.mem ↔
        (dev.isHaswell = true → id = .rcs → MaskedWritesLegal e.tables mem)) := by
  obtain ⟨mem₀, s, s₀, hcopy₀, hreach, hleave, hlast₀⟩ := cmdParser_ret_zero hparse hret
  obtain rfl : mem₀ = mem := by simpa [hcopy₀] using hcopy
  obtain rfl : s₀ = s' := by simpa [hlast₀] using hlast
  obtain ⟨hdev, hsel, -⟩ := initCmdParser_spec he
  have hsafe : ∀ o, Executed e.tables req.shadowBatchStart s₀.mem o →
      CommandSafe e.tables s₀.mem o :=
    fun o ho => executed_commandSafe he hreach hleave ho
  refine ⟨hsafe, ?_⟩
  have hsplit : ExecutionSafe e.tables req.shadowBatchStart s₀.mem ↔
      ∀ o, Executed e.tables req.shadowBatchStart s₀.mem o → MaskedSafe e.tables s₀.mem o :=
    ⟨fun h o ho => (h o ho).2, fun h o ho => ⟨hsafe o ho, h o ho⟩⟩
  rw [hsplit]
  by_cases hhsw : dev.isHaswell = true ∧ id = .rcs
  · obtain ⟨hh, rfl⟩ := hhsw
    have hggtt : e.device.cmdparserUsesGgtt = true := by
      rw [hdev, Device.cmdparserUsesGgtt, dev.gen_of_isHaswell hh]
      rfl
    rw [hsw_masked_iff he hreach hleave (engineTables_hsw hsel hh) hggtt]
    exact ⟨fun h _ _ => h, fun h => h hh rfl⟩
  · refine ⟨fun _ hh hid => absurd ⟨hh, hid⟩ hhsw, fun _ o _ len _ i _ r hr _ hmask => ?_⟩
    exact absurd (regs_mask_zero hsel hhsw r hr) hmask

end Accepted

/-! ## Batches on the Haswell render engine -/

def haswell : Device := ⟨7, true, fun _ => rfl⟩

/-- A batch of one command with `HSW_SCRATCH1` and a value for it. -/
def fourDwords (header value : BitVec 32) : Shadow := fun i =>
  if i = 0 then header
  else if i = 1 then hswScratch1
  else if i = 3 then miBatchBufferEnd
  else value

/-- The request to parse the batch. -/
def fourDwordsRequest (header value : BitVec 32) : Request where
  copy := .ok (fourDwords header value)
  batchStart := 0
  batchLen := 16
  shadowNode := 0x1000
  shadowNode_page := rfl
  alloc := fun _ => true

/-- The engine is initialised and the parse gives `p`, with last state `s`. -/
def HswParses (header value : BitVec 32) (e : Engine) (p : Parsed) (s : ParseState) : Prop :=
  initCmdParser identityHash (fun _ => true) haswell .rcs = some e ∧
    cmdParser identityHash e (fourDwordsRequest header value) .initial = some p ∧ p.last = some s

lemma hswParses_of_eval (header value : BitVec 32)
    (h : ((initCmdParser identityHash (fun _ => true) haswell .rcs).bind fun e =>
      cmdParser identityHash e (fourDwordsRequest header value) .initial).map Parsed.ret =
        some 0) :
    ∃ e p s, HswParses header value e p s ∧ p.ret = 0 ∧ e.tables = hswRenderTables ∧
      s.mem = fourDwords header value := by
  obtain ⟨p, hbind, hret⟩ := Option.map_eq_some_iff.1 h
  obtain ⟨e, he, hp⟩ := Option.bind_eq_some_iff.1 hbind
  obtain ⟨mem, s, s', hcopy, hreach, hleave, hlast⟩ := cmdParser_ret_zero hp hret
  obtain rfl : fourDwords header value = mem := by simpa [fourDwordsRequest] using hcopy
  obtain ⟨hdev, hsel, -⟩ := initCmdParser_spec he
  have hggtt : e.device.cmdparserUsesGgtt = true := by
    rw [hdev]
    rfl
  exact ⟨e, p, s', ⟨he, hp, hlast⟩, hret, engineTables_hsw hsel rfl,
    (ggtt_leave he hreach hleave hggtt).1⟩

/-- The bit of the L3 atomics may be set. -/
lemma scratch1_legal : MaskedWritesLegal hswRenderTables
    (fourDwords (miLoadRegisterImm 1) hswScratch1L3DataAtomicsDisable) := by
  have hlen : hswRenderTables.cmdLength (miLoadRegisterImm 1) = some 3 := by decide +kernel
  have hstart : ∀ o, CommandStart hswRenderTables
      (fourDwords (miLoadRegisterImm 1) hswScratch1L3DataAtomicsDisable) o → o = 0 ∨ o = 3 := by
    intro o ho
    induction ho with
    | start => exact .inl rfl
    | next _ hend _ hlen' ih =>
      rcases ih with rfl | rfl
      · exact .inr (by simpa using (Option.some.inj (hlen.symm.trans hlen')).symm)
      · exact absurd rfl hend
  intro o ho
  rcases hstart o ho with rfl | rfl
  · refine ⟨fun hop => absurd hop (by decide), fun _ len hlen' i hi hodd => ?_⟩
    obtain rfl := Option.some.inj (hlen.symm.trans hlen')
    obtain rfl : i = 1 := by omega
    decide
  · exact ⟨fun hop => absurd hop (by decide), fun hop => absurd hop (by decide)⟩

/-- A batch that sets the bit of the L3 atomics in `HSW_SCRATCH1` is accepted and safe. -/
theorem accepted_safe_iff_scratch1 : ∃ e p s,
    HswParses (miLoadRegisterImm 1) hswScratch1L3DataAtomicsDisable e p s ∧ p.ret = 0 ∧
    ExecutionSafe e.tables (fourDwordsRequest (miLoadRegisterImm 1)
      hswScratch1L3DataAtomicsDisable).shadowBatchStart s.mem := by
  obtain ⟨e, p, s, ⟨he, hp, hlast⟩, hret, htab, -⟩ := hswParses_of_eval (miLoadRegisterImm 1)
    hswScratch1L3DataAtomicsDisable (by decide +kernel)
  refine ⟨e, p, s, ⟨he, hp, hlast⟩, hret, ?_⟩
  apply (accepted_safe_iff he rfl hp hret hlast).2.2
  intro _ _
  rw [htab]
  exact scratch1_legal

/-- A batch that loads `HSW_SCRATCH1` from memory, and one that loads it with a value its mask
does not allow, are both accepted. -/
theorem accepted_masked_write :
    (∃ e p s, HswParses miLoadRegisterMem 1 e p s ∧ p.ret = 0 ∧
      ¬ExecutionSafe e.tables (fourDwordsRequest miLoadRegisterMem 1).shadowBatchStart s.mem) ∧
    ∃ e p s, HswParses (miLoadRegisterImm 1) 1 e p s ∧ p.ret = 0 ∧
      ¬ExecutionSafe e.tables (fourDwordsRequest (miLoadRegisterImm 1) 1).shadowBatchStart
        s.mem := by
  have hin : scratch1Entry ∈ hswRenderTables.regs := by decide +kernel
  constructor
  · obtain ⟨e, p, s, hparse, hret, htab, hmem⟩ := hswParses_of_eval miLoadRegisterMem 1
      (by decide +kernel)
    refine ⟨e, p, s, hparse, hret, fun hsafe => ?_⟩
    have hm := (hsafe 0 .start).2
    rw [htab, hmem] at hm
    have hw : WritesReg (fourDwords miLoadRegisterMem 1 0) 3 1 := ⟨by decide, by decide⟩
    obtain ⟨hlri, -⟩ := hm 3 (by decide +kernel) 1 hw _ hin (by decide) (by decide)
    exact absurd hlri (by decide)
  · obtain ⟨e, p, s, hparse, hret, htab, hmem⟩ :=
      hswParses_of_eval (miLoadRegisterImm 1) 1 (by decide +kernel)
    refine ⟨e, p, s, hparse, hret, fun hsafe => ?_⟩
    have hm := (hsafe 0 .start).2
    rw [htab, hmem] at hm
    have hw : WritesReg (fourDwords (miLoadRegisterImm 1) 1 0) 3 1 := ⟨by decide, by decide⟩
    obtain ⟨-, -, hval⟩ := hm 3 (by decide +kernel) 1 hw _ hin (by decide) (by decide)
    exact absurd hval (by decide)

end KmsDrm.I915
