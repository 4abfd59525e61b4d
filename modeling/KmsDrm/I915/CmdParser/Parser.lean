import KmsDrm.Lib.Loop
import KmsDrm.I915.CmdParser.Engine

/-!
# The parse of a batch

The check of one command, the check and rewriting of a jump, the whitelist of jump targets of a
context, and the loop of `intel_engine_cmd_parser` over the shadow copy of a batch.

## Main definitions

* `I915.checkCmd`, `I915.checkBbstart` — the checks of a command and a jump.
* `I915.cmdParser` — `intel_engine_cmd_parser`.

## Implementation notes

The shadow copy is a function from dword indices, what `copy_batch` left there; the copy itself
may fail with an error. Dword indices and lengths are natural numbers: a batch has at most
`2 ^ 30` dwords and a command at most `2 ^ 16 + 1`, so the source's `u32` arithmetic on them
does not wrap.
-/

namespace KmsDrm.I915

open KmsDrm.Lib

/-- The dwords of the shadow copy. -/
abbrev Shadow : Type := ℕ → BitVec 32

def eacces : ℤ := 13
def einval : ℤ := 22

/-! ## The check of a command -/

/-- The dwords a length field does not count. -/
def lengthBias : BitVec 32 := 2

/-- The length of a command with this descriptor and header. -/
def CmdDescriptor.decodeLength (d : CmdDescriptor) (cmdHeader : BitVec 32) : ℕ :=
  if d.has cmdDescFixed then d.length.toNat else ((cmdHeader &&& d.length) + lengthBias).toNat

/-- The check of the register at dword `offset` of a command. -/
def checkReg (t : EngineTables) (desc : CmdDescriptor) (cmd : Shadow) (length offset : ℕ) : Bool :=
  match findReg t.regTables (cmd offset &&& desc.reg.mask) with
  | none => false
  | some reg =>
    if reg.mask ≠ 0 then
      if desc.value = miLoadRegisterMem then false
      else if desc.value = miLoadRegisterReg then false
      else if desc.value = miLoadRegisterImm 1 ∧
          (length < offset + 2 ∨ cmd (offset + 1) &&& reg.mask ≠ reg.value) then false
      else true
    else true

/-- The loop over the registers of a command, from dword `offset` on. The first argument bounds
the number of rounds; the length of the command is enough, since the step is not zero. -/
def checkRegs (t : EngineTables) (desc : CmdDescriptor) (cmd : Shadow) (length : ℕ) :
    ℕ → ℕ → Bool
  | 0, _ => true
  | rounds + 1, offset =>
    if offset < length then
      checkReg t desc cmd length offset &&
        checkRegs t desc cmd length rounds
          (offset + if desc.reg.step ≠ 0 then desc.reg.step else length)
    else true

/-- The loop over the dwords with an expected value. -/
def checkBits (cmd : Shadow) (length : ℕ) : List BitCheck → Bool
  | [] => true
  | b :: bits =>
    if b.mask = 0 then true
    else if b.conditionMask ≠ 0 ∧ cmd b.conditionOffset &&& b.conditionMask = 0 then
      checkBits cmd length bits
    else if length ≤ b.offset then false
    else if cmd b.offset &&& b.mask ≠ b.expected then false
    else checkBits cmd length bits

/-- The check of a command with its descriptor; `cmd` are the dwords from its header on. -/
def checkCmd (t : EngineTables) (desc : CmdDescriptor) (cmd : Shadow) (length : ℕ) : Bool :=
  if desc.has cmdDescSkip then true
  else if desc.has cmdDescReject then false
  else if desc.has cmdDescRegister &&
      !checkRegs t desc cmd length length desc.reg.offset then false
  else if desc.has cmdDescBitmask && !checkBits cmd length desc.bits then false
  else true

/-! ## Contexts and requests -/

/-- The part of a context the parser uses: a bit for each command slot, and their number. -/
structure Context where
  jumpWhitelist : ℕ → Bool
  jumpWhitelistCmds : ℕ

/-- A new context has no whitelist. -/
def Context.initial : Context := ⟨fun _ => false, 0⟩

/-- The bits below `n` are cleared. -/
def Context.bitmapZero (ctx : Context) (n : ℕ) : Context :=
  { ctx with jumpWhitelist := fun i => if i < n then false else ctx.jumpWhitelist i }

/-- The bit of a command is set, if there is a slot for it. -/
def Context.mark (ctx : Context) (offset : ℕ) : Context :=
  if offset < ctx.jumpWhitelistCmds then
    { ctx with jumpWhitelist := fun i => i = offset || ctx.jumpWhitelist i }
  else ctx

/-- A canonical address: bit 47 is copied to the bits above it. -/
def gen8CanonicalAddr (address : BitVec 64) : BitVec 64 := (address.setWidth 48).signExtend 64

/-- The arguments of a parse, with the answers of the allocations it makes. The shadow object is
bound to a GTT node, which starts at a page. -/
structure Request where
  /-- The result of `copy_batch`: a negative error, or the copy. -/
  copy : Except {err : ℤ // err < 0} Shadow
  batchStart : BitVec 64
  batchLen : BitVec 32
  /-- Where the GTT node of the shadow object starts. -/
  shadowNode : BitVec 64
  shadowNode_page : shadowNode.toNat % 4096 = 0
  /-- Whether the attempts of `init_whitelist` to get a new bitmap succeed. -/
  alloc : ℕ → Bool

def Request.shadowBatchStart (req : Request) : BitVec 64 := gen8CanonicalAddr req.shadowNode

/-- The number of whole dwords of the batch. -/
def Request.batchEnd (req : Request) : ℕ := req.batchLen.toNat / 4

/-- The parser of a gen7 device works on the global GTT. -/
def Device.cmdparserUsesGgtt (dev : Device) : Bool := dev.gen == 7

/-- The number of words of a bitmap. -/
def bitsToLongs (n : ℕ) : ℕ := (n + 63) / 64

/-- Prepare the whitelist of the context for a batch: clear the bits of its commands, or get a
larger bitmap, first of rounded size and then of exact size, or clear the old one. -/
def initWhitelist (dev : Device) (ctx : Context) (req : Request) : Context :=
  let batchCmds := (req.batchLen.toNat + 3) / 4
  let exactSize := bitsToLongs batchCmds
  let nextSize := bitsToLongs batchCmds.nextPowerOfTwo
  if dev.cmdparserUsesGgtt then ctx
  else if batchCmds ≤ ctx.jumpWhitelistCmds then ctx.bitmapZero batchCmds
  else if req.alloc 0 then ⟨fun _ => false, nextSize * 8 * 8⟩
  else if exactSize < nextSize ∧ req.alloc 1 then ⟨fun _ => false, exactSize * 8 * 8⟩
  else ctx.bitmapZero ctx.jumpWhitelistCmds

/-! ## Jumps -/

/-- The 64-bit operand at dwords 1 and 2 of the command at `o`. -/
def Shadow.target (mem : Shadow) (o : ℕ) : BitVec 64 := mem (o + 2) ++ mem (o + 1)

/-- The operand is overwritten. -/
def Shadow.setTarget (mem : Shadow) (o : ℕ) (v : BitVec 64) : Shadow :=
  fun i =>
    if i = o + 1 then v.extractLsb' 0 32
    else if i = o + 2 then v.extractLsb' 32 32
    else mem i

/-- The check of the jump at `offset`; the operand is rewritten to the shadow copy before the
target is looked up. -/
def checkBbstart (dev : Device) (ctx : Context) (mem : Shadow) (offset length : ℕ)
    (req : Request) : ℤ × Shadow :=
  if dev.cmdparserUsesGgtt then (-eacces, mem)
  else if length ≠ 3 then (-einval, mem)
  else
    let jumpOffset := mem.target offset - req.batchStart
    if req.batchLen.toNat ≤ jumpOffset.toNat then (-einval, mem)
    else
      let targetCmdOffset := jumpOffset.setWidth 32
      let targetCmdIndex := targetCmdOffset.toNat / 4
      let mem := mem.setTarget offset (req.shadowBatchStart + targetCmdOffset.setWidth 64)
      if targetCmdIndex = offset then (0, mem)
      else if ctx.jumpWhitelistCmds ≤ targetCmdIndex then (-einval, mem)
      else if !ctx.jumpWhitelist targetCmdIndex then (-einval, mem)
      else (0, mem)

/-! ## The loop -/

/-- The variables of the loop. -/
structure ParseState where
  offset : ℕ
  desc : CmdDescriptor
  ctx : Context
  mem : Shadow

/-- The state before the first command. -/
def ParseState.init (ctx : Context) (mem : Shadow) : ParseState := ⟨0, noopDesc, ctx, mem⟩

section Turn

variable (hash32Buf : BitVec 32 → ℕ → BitVec 32) (e : Engine) (req : Request)

/-- One turn of the loop. It is left with a return value and the last state. -/
def turn (s : ParseState) : Loop.Turn ParseState (ℤ × ParseState) :=
  if s.mem s.offset = miBatchBufferEnd then .leave (0, s)
  else
    match findCmd hash32Buf e (s.mem s.offset) s.desc with
    | none => .leave (-einval, s)
    | some desc =>
      let length := desc.decodeLength (s.mem s.offset)
      if req.batchEnd - s.offset < length then .leave (-einval, { s with desc := desc })
      else if !checkCmd e.tables desc (fun i => s.mem (s.offset + i)) length then
        .leave (-eacces, { s with desc := desc })
      else if desc.value = miBatchBufferStart then
        let r := checkBbstart e.device s.ctx s.mem s.offset length req
        .leave (r.1, { s with desc := desc, mem := r.2 })
      else
        let s' := ⟨s.offset + length, desc, s.ctx.mark s.offset, s.mem⟩
        if req.batchEnd ≤ s.offset + length then .leave (-einval, s') else .next s'

def firstState (ctx : Context) (mem : Shadow) : ParseState :=
  .init (initWhitelist e.device ctx req) mem

/-- What a parse gives: the return value, the context it leaves, and the last state of the loop
if there was a copy to parse. -/
structure Parsed where
  ret : ℤ
  ctx : Context
  last : Option ParseState

def cmdParser (ctx : Context) : Option Parsed :=
  match req.copy with
  | .error err => some ⟨err, ctx, none⟩
  | .ok mem =>
    (Loop.run (turn hash32Buf e req) (req.batchEnd + 1) (firstState e req ctx mem)).map
      fun r => ⟨r.1, r.2.ctx, some r.2⟩

end Turn

section TurnLemmas

variable {hash32Buf : BitVec 32 → ℕ → BitVec 32} {e : Engine} {req : Request}
variable {s s' : ParseState}

/-- A command passed: its descriptor was found, it is inside the batch and its check passed. -/
structure Passes (hash32Buf : BitVec 32 → ℕ → BitVec 32) (e : Engine) (req : Request)
    (s : ParseState) (desc : CmdDescriptor) : Prop where
  noEnd : s.mem s.offset ≠ miBatchBufferEnd
  found : findCmd hash32Buf e (s.mem s.offset) s.desc = some desc
  inside : desc.decodeLength (s.mem s.offset) ≤ req.batchEnd - s.offset
  checked : checkCmd e.tables desc (fun i => s.mem (s.offset + i))
    (desc.decodeLength (s.mem s.offset)) = true

lemma turn_next (h : turn hash32Buf e req s = .next s') :
    ∃ desc, Passes hash32Buf e req s desc ∧ desc.value ≠ miBatchBufferStart ∧
      s.offset + desc.decodeLength (s.mem s.offset) < req.batchEnd ∧
      s' = ⟨s.offset + desc.decodeLength (s.mem s.offset), desc, s.ctx.mark s.offset, s.mem⟩ := by
  rw [turn] at h
  split_ifs at h with hend
  split at h
  · simp at h
  · rename_i desc hfound
    dsimp only at h
    split_ifs at h with hin hcheck hjump hlast
    refine ⟨desc, ⟨hend, hfound, Nat.le_of_not_lt hin, by simpa using hcheck⟩, hjump,
      Nat.lt_of_not_le hlast, (Loop.Turn.next.inj h).symm⟩

lemma turn_leave_zero (h : turn hash32Buf e req s = .leave (0, s')) :
    (s.mem s.offset = miBatchBufferEnd ∧ s' = s) ∨
      ∃ desc, Passes hash32Buf e req s desc ∧ desc.value = miBatchBufferStart ∧
        checkBbstart e.device s.ctx s.mem s.offset (desc.decodeLength (s.mem s.offset)) req =
          (0, s'.mem) ∧
        s' = { s with desc := desc, mem := s'.mem } := by
  rw [turn] at h
  split_ifs at h with hend
  · simp only [Loop.Turn.leave.injEq, Prod.mk.injEq, true_and] at h
    exact .inl ⟨hend, h.symm⟩
  · split at h
    · simp [einval] at h
    · rename_i desc hfound
      dsimp only at h
      split_ifs at h with hin hcheck hjump hlast
      all_goals simp only [Loop.Turn.leave.injEq, Prod.mk.injEq, einval, eacces] at h
      · omega
      · omega
      · obtain ⟨hret, rfl⟩ := h
        exact .inr ⟨desc, ⟨hend, hfound, Nat.le_of_not_lt hin, by simpa using hcheck⟩, hjump,
          Prod.ext hret rfl, rfl⟩
      · omega

end TurnLemmas

/-! ## The whole loop -/

lemma Describes.decodeLength_pos {t : EngineTables} (hg : t.Good) {d : CmdDescriptor}
    {h : BitVec 32} (hd : Describes t d h) : 0 < d.decodeLength h := by
  have hlen : 0 < d.length.toNat ∧ d.length.toNat ≤ 0xFFFF := by
    rcases hd with ⟨hmem, -⟩ | ⟨-, hmask, h₀, -, rfl⟩
    · exact hg.cmds.lengths d hmem
    · refine ⟨Nat.pos_of_ne_zero fun h0 => hmask ?_, hg.lengthMask.2 h⟩
      exact BitVec.eq_of_toNat_eq (by simpa [defaultDesc] using h0)
  rw [CmdDescriptor.decodeLength]
  split_ifs
  · exact hlen.1
  · have hle : (h &&& d.length).toNat ≤ d.length.toNat := by
      exact Nat.and_le_right
    have hbias : lengthBias.toNat = 2 := rfl
    rw [BitVec.toNat_add]
    omega

section Run

variable {hash32Buf : BitVec 32 → ℕ → BitVec 32} {alloc : ℕ → Bool} {dev : Device}
variable {id : EngineId} {e : Engine} (he : initCmdParser hash32Buf alloc dev id = some e)
variable {req : Request}

/-- The invariant of the loop: it remembers a descriptor of the tables, and the copy is as it
was. -/
structure LoopInv (e : Engine) (mem : Shadow) (s : ParseState) : Prop where
  desc : ∃ h, Describes e.tables s.desc h
  mem : s.mem = mem

include he

lemma firstState_inv (ctx : Context) (mem : Shadow) : LoopInv e mem (firstState e req ctx mem) :=
  ⟨⟨noopDesc.value, .inl ⟨(initCmdParser_good he).cmds.noop, noopDesc.fits_value⟩⟩, rfl⟩

lemma Passes.describes {mem : Shadow} {s : ParseState} {desc : CmdDescriptor}
    (hi : LoopInv e mem s) (hp : Passes hash32Buf e req s desc) :
    Describes e.tables desc (mem s.offset) := by
  obtain ⟨h0, hd⟩ := hi.desc
  rw [← hi.mem]
  exact findCmd_describes he hd hp.found

lemma turn_inv {mem : Shadow} {s s' : ParseState} (hi : LoopInv e mem s)
    (h : turn hash32Buf e req s = .next s') :
    LoopInv e mem s' ∧ s.offset < s'.offset ∧ s'.offset < req.batchEnd := by
  obtain ⟨desc, hp, -, hlt, rfl⟩ := turn_next h
  have hd := hp.describes he hi
  refine ⟨⟨⟨_, hd⟩, hi.mem⟩, ?_, hlt⟩
  have hpos := hd.decodeLength_pos (initCmdParser_good he)
  simp only [hi.mem]
  omega

lemma reaches_inv {ctx : Context} {mem : Shadow} {s : ParseState}
    (h : Loop.Reaches (turn hash32Buf e req) (firstState e req ctx mem) s) :
    LoopInv e mem s :=
  Loop.Reaches.invariant (fun _ _ hi ht => (turn_inv he hi ht).1) (firstState_inv he ctx mem) h

lemma reaches_offset_le {mem : Shadow} {s t : ParseState} (hi : LoopInv e mem s)
    (h : Loop.Reaches (turn hash32Buf e req) s t) : s.offset ≤ t.offset := by
  have := Loop.Reaches.invariant (P := fun u => LoopInv e mem u ∧ s.offset ≤ u.offset)
    (fun u v hu ht => ⟨(turn_inv he hu.1 ht).1, hu.2.trans (turn_inv he hu.1 ht).2.1.le⟩)
    ⟨hi, Nat.le_refl _⟩ h
  exact this.2

/-- **The parse always ends**, whatever the batch, the context and the allocations. -/
theorem cmdParser_isSome (ctx : Context) : (cmdParser hash32Buf e req ctx).isSome := by
  rw [cmdParser]
  split
  · rfl
  · rename_i mem _
    rw [Option.isSome_map]
    apply Loop.run_isSome (P := LoopInv e mem) (fun s => req.batchEnd - s.offset)
      _ (firstState_inv he ctx mem)
    · exact Nat.lt_succ_of_le (Nat.sub_le _ _)
    · intro s s' hi ht
      obtain ⟨hi', hlt, hin⟩ := turn_inv he hi ht
      exact ⟨hi', by omega⟩

omit he in
lemma cmdParser_ret_zero {ctx : Context} {p : Parsed}
    (h : cmdParser hash32Buf e req ctx = some p) (hret : p.ret = 0) :
    ∃ mem s s', req.copy = .ok mem ∧
      Loop.Reaches (turn hash32Buf e req) (firstState e req ctx mem) s ∧
      turn hash32Buf e req s = .leave (0, s') ∧ p.last = some s' := by
  rw [cmdParser] at h
  split at h
  · rename_i err _
    cases h
    exact absurd hret (ne_of_lt err.2)
  · rename_i mem hcopy
    obtain ⟨⟨ret, s'⟩, hrun, rfl⟩ := Option.map_eq_some_iff.1 h
    obtain ⟨s, hreach, hleave⟩ := Loop.run_eq_some hrun
    obtain rfl : ret = 0 := hret
    exact ⟨mem, s, s', hcopy, hreach, hleave, rfl⟩

end Run

end KmsDrm.I915
