import KmsDrm.I915.CmdParser.Parser

/-!
# The execution of a parsed batch

The command streamer starts at the first dword of the shadow copy, goes from command to command
by their lengths and follows the jumps it meets. The commands it executes in a batch the parser
accepted are the ones the parse loop went through.

## Main definitions

* `I915.Executed` — the commands that the streamer comes to.

## Main results

* `I915.reached_of_executed` — the parse loop came to all of them.
-/

namespace KmsDrm.I915

open KmsDrm.Lib

/-! ## The command streamer -/

/-- The descriptor the tables give to a header: the entry that fits it, or else the default
one. -/
def EngineTables.lookup (t : EngineTables) (h : BitVec 32) : Option CmdDescriptor :=
  match t.cmds.find? fun d => d.fits h with
  | some d => some d
  | none =>
    if t.getCmdLengthMask h = 0 then none else some (defaultDesc h (t.getCmdLengthMask h))

/-- The length of a command with this header. -/
def EngineTables.cmdLength (t : EngineTables) (h : BitVec 32) : Option ℕ :=
  (t.lookup h).map fun d => d.decodeLength h

/-- The header of an MI command with the opcode of `op`. -/
def isOp (op h : BitVec 32) : Bool := (h ^^^ op) &&& opcodeMask smi == 0

/-- The dword a jump in the copy at address `base` goes to; the hardware ignores the two low bits
of the address. -/
def Shadow.jumpIndex (mem : Shadow) (base : BitVec 64) (o : ℕ) : ℕ :=
  ((mem.target o &&& ~~~3#64) - base).toNat / 4

/-- The commands the command streamer executes in the copy `mem` at address `base`, by the dword
they start at: from the first dword on, command by command up to the end of the batch, and
wherever a jump leads. -/
inductive Executed (t : EngineTables) (base : BitVec 64) (mem : Shadow) : ℕ → Prop
  | start : Executed t base mem 0
  | next {o len : ℕ} (ho : Executed t base mem o) (hend : mem o ≠ miBatchBufferEnd)
      (hjump : isOp miBatchBufferStart (mem o) = false)
      (hlen : t.cmdLength (mem o) = some len) : Executed t base mem (o + len)
  | jump {o : ℕ} (ho : Executed t base mem o)
      (hjump : isOp miBatchBufferStart (mem o) = true) :
      Executed t base mem (mem.jumpIndex base o)

/-! ## Descriptors and headers -/

namespace Describes

variable {t : EngineTables} (hg : t.Good) {d : CmdDescriptor} {h : BitVec 32}
variable (hd : Describes t d h)
include hg hd

lemma cmdLength : t.cmdLength h = some (d.decodeLength h) := by
  rw [EngineTables.cmdLength, EngineTables.lookup]
  rcases hd with ⟨hmem, hfit⟩ | ⟨hnone, hmask, h0, -, rfl⟩
  · obtain ⟨d', hd'⟩ : ∃ d', t.cmds.find? (fun d => d.fits h) = some d' := by
      rw [← Option.isSome_iff_exists, List.find?_isSome]
      exact ⟨d, hmem, hfit⟩
    have hfit' : d'.fits h = true := by simpa using List.find?_some hd'
    rw [hd', hg.cmds.unique (List.mem_of_find?_eq_some hd') hmem hfit' hfit]
    rfl
  · have hfind : t.cmds.find? (fun d => d.fits h) = none := by
      simpa using hnone
    rw [hfind]
    simp only [if_neg hmask]
    rfl

lemma eq_of_fits {d' : CmdDescriptor} (hmem : d' ∈ t.cmds) (hfit : d'.fits h = true) :
    d' = d := by
  rcases hd with ⟨hmem', hfit'⟩ | ⟨hnone, -⟩
  · exact hg.cmds.unique hmem hmem' hfit hfit'
  · rw [hnone d' hmem] at hfit
    simp at hfit

lemma value_eq_bbStart : d.value = miBatchBufferStart ↔ isOp miBatchBufferStart h = true := by
  obtain ⟨b, hb, hbv, hbm⟩ := hg.cmds.bbStart
  have hfit : b.fits h = isOp miBatchBufferStart h := by
    rw [CmdDescriptor.fits, isOp, hbv, hbm]
  constructor
  · intro hv
    rw [← hfit]
    rcases hd with ⟨hmem, hf⟩ | ⟨-, -, h0, hh, rfl⟩
    · have hbd : b = d := hg.cmds.unique hb hmem (h := d.value)
        (by rw [hv, ← hbv]; exact b.fits_value) d.fits_value
      rwa [hbd]
    · rw [hg.cmds.fits_congr hb hh.symm]
      obtain rfl : h0 = miBatchBufferStart := hv
      rw [← hbv]
      exact b.fits_value
  · intro hop
    rw [← hd.eq_of_fits hg hb (hfit.trans hop), hbv]

end Describes

/-! ## Jumps -/

lemma Shadow.target_setTarget (mem : Shadow) (o : ℕ) (v : BitVec 64) :
    (mem.setTarget o v).target o = v := by
  simp only [Shadow.target, Shadow.setTarget]
  apply BitVec.eq_of_getLsbD_eq
  intro i hi
  rw [BitVec.getLsbD_append]
  by_cases h : i < 32
  · simp [h]
  · simp [h, show i - 32 < 32 by omega, show 32 + (i - 32) = i by omega]

lemma Shadow.setTarget_of_le (mem : Shadow) {o i : ℕ} (v : BitVec 64) (h : i ≤ o) :
    mem.setTarget o v i = mem i := by
  simp only [Shadow.setTarget, show i ≠ o + 1 by omega, show i ≠ o + 2 by omega, if_false]

lemma toNat_and_not_three (x : BitVec 64) : (x &&& ~~~3#64).toNat = x.toNat / 4 * 4 := by
  have h : x &&& ~~~3#64 = (x >>> 2) <<< 2 := by
    ext i hi
    have h3 : (3#64).getLsbD i = decide (i < 2) := by
      revert i
      decide
    rw [BitVec.getElem_and, BitVec.getElem_not, ← BitVec.getLsbD_eq_getElem (x := 3#64), h3]
    by_cases hlt : i < 2
    · simp [hlt]
    · simp [hlt, show 2 + (i - 2) = i by omega, BitVec.getLsbD_eq_getElem hi]
  rw [h, BitVec.toNat_shiftLeft, BitVec.toNat_ushiftRight]
  omega

lemma Request.shadowBatchStart_mod (req : Request) : req.shadowBatchStart.toNat % 4 = 0 := by
  have hbit : ∀ i < 2, req.shadowBatchStart.getLsbD i = false := by
    intro i hi
    have hnode : req.shadowNode.toNat.testBit i = false := by
      have h4 : req.shadowNode.toNat % 2 ^ 2 = 0 := by
        have := req.shadowNode_page
        omega
      have hmod := Nat.testBit_mod_two_pow req.shadowNode.toNat 2 i
      rw [h4] at hmod
      simpa [hi] using hmod.symm
    rw [Request.shadowBatchStart, gen8CanonicalAddr, BitVec.getLsbD_signExtend,
      BitVec.getLsbD_setWidth]
    simp [show i < 48 by omega, BitVec.getLsbD, hnode]
  apply Nat.eq_of_testBit_eq
  intro i
  rw [show (4 : ℕ) = 2 ^ 2 by rfl, Nat.testBit_mod_two_pow]
  by_cases hi : i < 2
  · simpa [hi, BitVec.getLsbD] using hbit i hi
  · simp [hi]

/-- What a jump that passed its check was rewritten to: an address in the copy, at a dword that
is the jump itself or has its bit set. -/
lemma checkBbstart_zero {dev : Device} {ctx : Context} {mem mem' : Shadow} {o len : ℕ}
    {req : Request} (h : checkBbstart dev ctx mem o len req = (0, mem')) :
    dev.cmdparserUsesGgtt = false ∧
      ∃ j : BitVec 64, j.toNat < req.batchLen.toNat ∧
        mem' = mem.setTarget o (req.shadowBatchStart + j) ∧
        (j.toNat / 4 = o ∨
          j.toNat / 4 < ctx.jumpWhitelistCmds ∧ ctx.jumpWhitelist (j.toNat / 4) = true) := by
  simp only [checkBbstart] at h
  split_ifs at h with hggtt hlen hout hself hcmds hbit
  all_goals simp only [Prod.mk.injEq, einval, eacces, reduceCtorEq, false_and, true_and] at h
  all_goals
    refine ⟨by simpa using hggtt, mem.target o - req.batchStart, Nat.lt_of_not_le hout, ?_⟩
    have hlt := (Nat.lt_of_not_le hout).trans req.batchLen.isLt
    have hj : ((mem.target o - req.batchStart).setWidth 32).toNat =
        (mem.target o - req.batchStart).toNat := by
      rw [BitVec.toNat_setWidth, Nat.mod_eq_of_lt hlt]
    have hj' : ((mem.target o - req.batchStart).setWidth 32).setWidth 64 =
        mem.target o - req.batchStart := by
      apply BitVec.eq_of_toNat_eq
      rw [BitVec.toNat_setWidth, hj, Nat.mod_eq_of_lt (mem.target o - req.batchStart).isLt]
    rw [hj'] at h
    rw [hj] at hself
    refine ⟨h.symm, ?_⟩
  · exact .inl hself
  · rw [hj] at hcmds hbit
    exact .inr ⟨Nat.lt_of_not_le hcmds, by simpa using hbit⟩

lemma jump_setTarget (req : Request) (mem : Shadow) (o : ℕ) {j : BitVec 64}
    (hj : j.toNat < req.batchLen.toNat) :
    let mem' := mem.setTarget o (req.shadowBatchStart + j)
    mem'.target o &&& ~~~3#64 = req.shadowBatchStart + BitVec.ofNat 64 (4 * (j.toNat / 4)) ∧
      mem'.jumpIndex req.shadowBatchStart o = j.toNat / 4 := by
  have hround : (req.shadowBatchStart + j) &&& ~~~3#64 =
      req.shadowBatchStart + BitVec.ofNat 64 (4 * (j.toNat / 4)) := by
    apply BitVec.eq_of_toNat_eq
    have hmod := req.shadowBatchStart_mod
    rw [toNat_and_not_three, BitVec.toNat_add, BitVec.toNat_add, BitVec.toNat_ofNat]
    omega
  refine ⟨by rw [Shadow.target_setTarget, hround], ?_⟩
  rw [Shadow.jumpIndex, Shadow.target_setTarget, hround]
  have hsub : req.shadowBatchStart + BitVec.ofNat 64 (4 * (j.toNat / 4)) - req.shadowBatchStart =
      BitVec.ofNat 64 (4 * (j.toNat / 4)) := by
    rw [BitVec.add_comm, BitVec.add_sub_cancel]
  rw [hsub, BitVec.toNat_ofNat]
  omega

/-! ## The whitelist of jump targets -/

/-- After the preparation no command slot of the batch is marked, on a device whose parser
checks jumps: whether the old bitmap is reused or a new one could be allocated or not. -/
lemma initWhitelist_clear {dev : Device} (hdev : dev.cmdparserUsesGgtt = false)
    (ctx : Context) (req : Request) {i : ℕ} (hi : 4 * i < req.batchLen.toNat)
    (hcmds : i < (initWhitelist dev ctx req).jumpWhitelistCmds) :
    (initWhitelist dev ctx req).jumpWhitelist i = false := by
  simp only [initWhitelist, hdev, Bool.false_eq_true, if_false] at hcmds ⊢
  split_ifs at hcmds ⊢
  · simp only [Context.bitmapZero, ite_eq_left_iff]
    omega
  · rfl
  · rfl
  · simp only [Context.bitmapZero, ite_eq_left_iff] at hcmds ⊢
    omega

lemma Context.mark_jumpWhitelist {ctx : Context} {o i : ℕ}
    (h : (ctx.mark o).jumpWhitelist i = true) : i = o ∨ ctx.jumpWhitelist i = true := by
  rw [Context.mark] at h
  split_ifs at h
  · simpa using h
  · exact .inr h

@[simp]
lemma Context.mark_jumpWhitelistCmds (ctx : Context) (o : ℕ) :
    (ctx.mark o).jumpWhitelistCmds = ctx.jumpWhitelistCmds := by
  rw [Context.mark]
  split_ifs <;> rfl

section Run

variable {hash32Buf : BitVec 32 → ℕ → BitVec 32} {alloc : ℕ → Bool} {dev : Device}
variable {id : EngineId} {e : Engine} {req : Request} {ctx : Context} {mem : Shadow}

/-- The loop checked the command at dword `o` and went on behind it. -/
def CheckedAt (hash32Buf : BitVec 32 → ℕ → BitVec 32) (e : Engine) (req : Request)
    (ctx : Context) (mem : Shadow) (o : ℕ) : Prop :=
  ∃ s s', Loop.Reaches (turn hash32Buf e req) (firstState e req ctx mem) s ∧
    turn hash32Buf e req s = .next s' ∧ s.offset = o

/-- The bits that are set inside the batch are those of commands the loop has checked in this
parse. -/
lemma marked_checked (hdev : e.device.cmdparserUsesGgtt = false) {s : ParseState}
    (h : Loop.Reaches (turn hash32Buf e req) (firstState e req ctx mem) s) {i : ℕ}
    (hi : 4 * i < req.batchLen.toNat) (hcmds : i < s.ctx.jumpWhitelistCmds)
    (hbit : s.ctx.jumpWhitelist i = true) : CheckedAt hash32Buf e req ctx mem i := by
  induction h with
  | refl =>
    have hclear := initWhitelist_clear hdev ctx req hi hcmds
    exact absurd (hclear.symm.trans hbit) (by decide)
  | tail hreach hturn ih =>
    obtain ⟨desc, -, -, -, rfl⟩ := turn_next hturn
    rcases Context.mark_jumpWhitelist hbit with rfl | hbit
    · exact ⟨_, _, hreach, hturn, rfl⟩
    · exact ih (by simpa using hcmds) hbit

lemma jump_checked {s s' : ParseState} {desc : CmdDescriptor}
    (hreach : Loop.Reaches (turn hash32Buf e req) (firstState e req ctx mem) s)
    (hbb : checkBbstart e.device s.ctx s.mem s.offset (desc.decodeLength (s.mem s.offset)) req =
      (0, s'.mem)) :
    ∃ k, s'.mem.target s.offset &&& ~~~3#64 = req.shadowBatchStart + BitVec.ofNat 64 (4 * k) ∧
      s'.mem.jumpIndex req.shadowBatchStart s.offset = k ∧
      (k = s.offset ∨ CheckedAt hash32Buf e req ctx mem k) := by
  obtain ⟨hdev, j, hj, hmem, htarget⟩ := checkBbstart_zero hbb
  obtain ⟨haddr, hindex⟩ := jump_setTarget req s.mem s.offset hj
  refine ⟨j.toNat / 4, by rw [hmem]; exact haddr, by rw [hmem]; exact hindex, ?_⟩
  rcases htarget with hself | ⟨hcmds, hbit⟩
  · exact .inl hself
  · exact .inr (marked_checked hdev hreach (by omega) hcmds hbit)

lemma leave_mem {s s' : ParseState} (hi : LoopInv e mem s)
    (hleave : turn hash32Buf e req s = .leave (0, s')) {i : ℕ} (hle : i ≤ s.offset) :
    s'.mem i = mem i := by
  rcases turn_leave_zero hleave with ⟨-, rfl⟩ | ⟨desc, -, -, hbb, -⟩
  · rw [hi.mem]
  · obtain ⟨-, j, -, hmem, -⟩ := checkBbstart_zero hbb
    rw [hmem, Shadow.setTarget_of_le _ _ hle, hi.mem]

variable (he : initCmdParser hash32Buf alloc dev id = some e)

include he

/-- **Every command the command streamer executes is one the parse loop went through**, in
whatever way the batch jumps.

**Proof sketch.** By induction on the execution. A state the loop reached before the last one is
followed by a turn that moves on by the length of its command, which is not a jump. The last
state is at the end of the batch, which executes nothing further, or at a jump, whose target was
checked. -/
lemma reached_of_executed {s s' : ParseState}
    (hreach : Loop.Reaches (turn hash32Buf e req) (firstState e req ctx mem) s)
    (hleave : turn hash32Buf e req s = .leave (0, s')) {o : ℕ}
    (ho : Executed e.tables req.shadowBatchStart s'.mem o) :
    ∃ u, Loop.Reaches (turn hash32Buf e req) (firstState e req ctx mem) u ∧
      Loop.Reaches (turn hash32Buf e req) u s ∧ u.offset = o := by
  have hg := initCmdParser_good he
  -- the last state is reached from every other one
  have hlast : ∀ u, Loop.Reaches (turn hash32Buf e req) (firstState e req ctx mem) u →
      Loop.Reaches (turn hash32Buf e req) u s ∧ s'.mem u.offset = mem u.offset := by
    intro u hu
    have hus : Loop.Reaches (turn hash32Buf e req) u s := by
      rcases hu.total hreach with h | h
      · exact h
      · rcases Relation.ReflTransGen.cases_head h with rfl | ⟨v, hv, -⟩
        · exact .refl
        · rw [hleave] at hv
          cases hv
    exact ⟨hus, leave_mem (reaches_inv he hreach) hleave
      (reaches_offset_le he (reaches_inv he hu) hus)⟩
  induction ho with
  | start => exact ⟨_, .refl, hreach, rfl⟩
  | @next o len _ hend hjump hlen ih =>
    obtain ⟨u, hu, hus, rfl⟩ := ih
    have hinv := reaches_inv he hu
    rw [(hlast u hu).2] at hend hjump hlen
    rcases Relation.ReflTransGen.cases_head hus with rfl | ⟨v, hv, hvs⟩
    · rcases turn_leave_zero hleave with ⟨hbe, -⟩ | ⟨desc, hp, hval, -, -⟩
      · rw [hinv.mem] at hbe
        exact absurd hbe hend
      · rw [(hp.describes he hinv).value_eq_bbStart hg, hjump] at hval
        simp at hval
    · obtain ⟨desc, hp, -, -, rfl⟩ := turn_next hv
      have hlen' := (hp.describes he hinv).cmdLength hg
      rw [hlen] at hlen'
      refine ⟨_, hu.tail hv, hvs, ?_⟩
      simp only [hinv.mem, Option.some.inj hlen']
  | @jump o _ hjump ih =>
    obtain ⟨u, hu, hus, rfl⟩ := ih
    have hinv := reaches_inv he hu
    rw [(hlast u hu).2] at hjump
    rcases Relation.ReflTransGen.cases_head hus with rfl | ⟨v, hv, hvs⟩
    · rcases turn_leave_zero hleave with ⟨hbe, -⟩ | ⟨desc, -, -, hbb, -⟩
      · rw [hinv.mem] at hbe
        rw [hbe] at hjump
        exact absurd hjump (by decide)
      · obtain ⟨k, -, hk, rfl | ⟨w, w', hw, -, rfl⟩⟩ := jump_checked hu hbb
        · exact ⟨u, hu, hus, hk.symm⟩
        · exact ⟨w, hw, (hlast w hw).1, hk.symm⟩
    · obtain ⟨desc, hp, hval, -, -⟩ := turn_next hv
      exact absurd (((hp.describes he hinv).value_eq_bbStart hg).2 hjump) hval

end Run

end KmsDrm.I915
