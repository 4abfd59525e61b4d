import KmsDrm.Vc4.Accesses

/-!
# The uniforms in program order

The second pass of the validation counts the uniforms that a shader takes once, in the order of the
instructions, and remembers whether a backward branch still needs the address of the stream. This
file describes both as functions of the instructions alone.

## Main definitions

* `Vc4.streamAt` — the place in the uniform stream before an instruction.

## Main results

* `Vc4.validateShader_last` — the last pass over an accepted shader.
-/

namespace KmsDrm.Vc4

open Option

/-! ## Functions of the instructions -/

/-- The uniform stream before the instruction at `n`, when the instructions before it are executed
in their order. -/
def streamAt (mem : ℕ → Inst) : ℕ → Stream
  | 0 => ⟨0, fun _ => 0⟩
  | n + 1 => (streamAt mem n).next (mem n)

/-- The instruction at `k` takes a uniform. -/
def Takes (mem : ℕ → Inst) (k : ℕ) : Prop := (streamAt mem (k + 1)).ptr ≠ (streamAt mem k).ptr

instance Takes.decidable (mem : ℕ → Inst) (k : ℕ) : Decidable (Takes mem k) :=
  inferInstanceAs (Decidable (_ ≠ _))

/-- Each of the first `n` instructions takes at most one uniform. -/
def Steady (mem : ℕ → Inst) (n : ℕ) : Prop :=
  ∀ k < n, (streamAt mem (k + 1)).ptr = (streamAt mem k).ptr ∨
    (streamAt mem (k + 1)).ptr = (streamAt mem k).ptr + 4

lemma Steady.aligned {mem : ℕ → Inst} {n k : ℕ} (h : Steady mem n) (hk : k ≤ n) :
    (streamAt mem k).ptr.toNat % 4 = 0 := by
  induction k with
  | zero => rfl
  | succ k ih =>
    have ih := ih (by omega)
    rcases h k hk with heq | heq
    · rw [heq]
      exact ih
    · bv_omega

def writesAddress (inst : Inst) : Bool := inst.sig ≠ .branch ∧ inst.waddrAdd = wUniformsAddress

def branchesBack (inst : Inst) : Bool := inst.sig = .branch ∧ inst.branchTarget < 0

/-- The instructions before the one at `n` contain a backward branch with no write of the address of
the uniforms behind it. -/
def loopPending (mem : ℕ → Inst) : ℕ → Bool
  | 0 => false
  | n + 1 => (loopPending mem n || branchesBack (mem n)) && !writesAddress (mem n)

/-! ## What the checks count -/

section Checks

variable {stray : Stray} {inst : Inst} {isMul : Bool} {c c' : Checked}

/-- A uniform was taken, by an instruction that reads none itself. -/
abbrev TakesUniform (inst : Inst) (c c' : Checked) : Prop :=
  c'.shader.uniformsSize = c.shader.uniformsSize + 4 ∧ readsUniform inst = false

/-- A write to the address of the uniforms, which only the ADD half makes, settles the backward
branches before it and takes no uniform. Any other write takes at most one, as a parameter of a
texture. -/
lemma checkRegWrite_uniforms (h : checkRegWrite stray inst isMul c = some c') :
    (waddrOf inst isMul = wUniformsAddress ∧ isMul = false ∧
      c'.state.needsUniformAddressForLoop = false ∧
      c'.shader.uniformsSize = c.shader.uniformsSize) ∨
    (waddrOf inst isMul ≠ wUniformsAddress ∧
      c'.state.needsUniformAddressForLoop = c.state.needsUniformAddressForLoop ∧
      (c'.shader.uniformsSize = c.shader.uniformsSize ∨
        isTmuWrite (waddrOf inst isMul) = true ∧ TakesUniform inst c c')) := by
  obtain ⟨_, _, htrack⟩ := trackImmediate_eq inst isMul c
  simp only [checkRegWrite, htrack] at h
  split_ifs at h with haddr hb htmu
  · obtain ⟨-, hmul, -, -, -, -, -, rfl⟩ := validateUniformAddressWrite_eq h
    exact .inl ⟨haddr, hmul, rfl, rfl⟩
  · obtain ⟨_, _, rfl, ⟨hno, -, hreads, -⟩ | ⟨hdirect, -⟩⟩ := checkTmuWrite_eq h
    · exact .inr ⟨haddr, rfl, .inr ⟨htmu, if_neg (by simp [hno]), hreads⟩⟩
    · exact .inr ⟨haddr, rfl, .inl (if_pos hdirect)⟩
  · cases h
    exact .inr ⟨haddr, rfl, .inl rfl⟩

/-- The two halves together, of which only one can write to a texture unit. -/
lemma checkInstructionWrites_uniforms (h : checkInstructionWrites stray inst c = some c') :
    c'.state.needsUniformAddressForLoop =
        (c.state.needsUniformAddressForLoop && !decide (inst.waddrAdd = wUniformsAddress)) ∧
      (c'.shader.uniformsSize = c.shader.uniformsSize ∨ TakesUniform inst c c') := by
  have hboth := checkInstructionWrites_one h
  obtain ⟨c1, c2, h1, h2, rfl, -⟩ := checkInstructionWrites_stream h
  obtain ⟨_, _, htrack⟩ := trackLiveClamps_eq stray inst c2
  obtain ⟨-, hno, -⟩ | ⟨-, hloop2, hsize2⟩ := checkRegWrite_uniforms h2
  · cases hno
  rw [htrack]
  simp only [hloop2, TakesUniform]
  rcases checkRegWrite_uniforms h1 with ⟨haddr, -, hloop1, hsize1⟩ | ⟨hne, hloop1, hsize1⟩
  · refine ⟨by simp [hloop1, show inst.waddrAdd = _ from haddr], ?_⟩
    rw [← hsize1]
    exact hsize2.imp_right And.right
  · refine ⟨by simp [hloop1, show inst.waddrAdd ≠ _ from hne], ?_⟩
    rcases hsize1 with heq1 | ⟨htmu1, heq1, hreads⟩
    · rw [← heq1]
      exact hsize2.imp_right And.right
    · exact .inr ⟨(hsize2.resolve_right fun hs => hboth ⟨htmu1, hs.1⟩).trans heq1, hreads⟩

end Checks

/-! ## One pass of the loop -/

section Pass

variable {stray : Stray} {bo : ShaderBo} {ip : ℕ} {l l' : LoopState}

/-- An instruction that passes takes at most one uniform. -/
lemma checkInst_uniforms {inst : Inst} (h : checkInst stray inst ip l = some l') :
    l'.state.needsUniformAddressForLoop =
        ((l.state.needsUniformAddressForLoop || branchesBack inst) && !writesAddress inst) ∧
      (l'.shader.uniformsSize = l.shader.uniformsSize ∨
        l'.shader.uniformsSize = l.shader.uniformsSize + 4) := by
  rcases checkInst_writes h with ⟨hbr, c, hc, hreads⟩ | ⟨hs, hc⟩
  · obtain ⟨hloop, hsize⟩ := checkInstructionWrites_uniforms hc
    rw [hreads.state, hreads.size]
    refine ⟨by simp [hloop, branchesBack, writesAddress, hbr], ?_⟩
    split_ifs with hr
    · exact .inr (congrArg (· + 4) (hsize.resolve_right fun hs => by simp [hs.2] at hr))
    · exact hsize.imp_right And.left
  · obtain ⟨-, -, hc⟩ := checkBranch_eq hc
    rw [hc]
    exact ⟨by simp [branchesBack, writesAddress, hs], .inl rfl⟩

lemma enterInst_forLoop (h : enterInst stray bo ip l = some l') :
    l'.state.needsUniformAddressForLoop = l.state.needsUniformAddressForLoop := by
  obtain ⟨v, rfl, ⟨-, rfl⟩ | ⟨-, -, rfl⟩⟩ := enterInst_cases h <;> dsimp only <;> split_ifs <;> rfl

lemma validateInst_size (h : validateInst stray bo ip l = some l') :
    l'.shader.uniformsSize = l.shader.uniformsSize ∨
      l'.shader.uniformsSize = l.shader.uniformsSize + 4 := by
  obtain ⟨l1, h1, h2⟩ := bind_eq_some_iff.1 h
  rw [← (enterInst_stream h1).1]
  exact (checkInst_uniforms h2).2

/-- The variables of the loop behind the first `n` instructions, as far as they are functions of
these instructions. -/
structure InOrder (mem : ℕ → Inst) (n : ℕ) (l : LoopState) : Prop where
  stream : l.toChecked.stream = streamAt mem n
  forLoop : l.state.needsUniformAddressForLoop = loopPending mem n

lemma InOrder.pass (h : InOrder bo.mem ip l) (hpass : validateInst stray bo ip l = some l') :
    InOrder bo.mem (ip + 1) l' := by
  obtain ⟨l1, h1, h2⟩ := bind_eq_some_iff.1 hpass
  constructor
  · rw [(checkInst_stream h2).1, (enterInst_stream h1).2.1, h.stream, streamAt]
  · rw [(checkInst_uniforms h2).1, enterInst_forLoop h1, h.forLoop, loopPending]

section

variable (h : LoopAt stray bo ip l)

include h

lemma LoopAt.inOrder : InOrder bo.mem ip l := by
  induction h with
  | init _ => exact ⟨rfl, rfl⟩
  | next _ _ hpass _ ih => exact ih.pass hpass

lemma LoopAt.size_eq : l.shader.uniformsSize = (streamAt bo.mem ip).ptr :=
  congrArg Stream.ptr h.inOrder.stream

lemma LoopAt.before {k : ℕ} (hk : k < ip) :
    ∃ lₖ lₖ', LoopAt stray bo k lₖ ∧ validateInst stray bo k lₖ = some lₖ' := by
  induction h with
  | init _ => omega
  | @next ip l l' h _ hpass _ ih =>
    rcases Nat.lt_succ_iff_lt_or_eq.1 hk with hlt | rfl
    · exact ih hlt
    · exact ⟨l, l', h, hpass⟩

lemma LoopAt.steady : Steady bo.mem ip := by
  intro k hk
  obtain ⟨lₖ, lₖ', hat, hpass⟩ := h.before hk
  rw [← hat.size_eq, ← congrArg Stream.ptr (hat.inOrder.pass hpass).stream]
  exact validateInst_size hpass

lemma LoopAt.steady_pass
    (hpass : validateInst stray bo ip l = some l') : Steady bo.mem (ip + 1) := by
  intro k hk
  rcases Nat.lt_succ_iff_lt_or_eq.1 hk with hlt | rfl
  · exact h.steady k hlt
  · rw [← h.size_eq, ← congrArg Stream.ptr (h.inOrder.pass hpass).stream]
    exact validateInst_size hpass

end

end Pass

/-! ## The last pass -/

section Last

variable {stray : Stray} {bo : ShaderBo} {ip ip' : ℕ} {l l' : LoopState}

lemma LoopAt.last {fuel : ℕ} (h : LoopAt stray bo ip l) (hle : ip ≤ l.state.maxIp)
    (hs : validateInsts stray bo fuel ip l = some (ip', l')) :
    ip' = l'.state.maxIp ∨ ∃ l0, LoopAt stray bo ip' l0 ∧ ip' < l0.state.maxIp ∧
      validateInst stray bo ip' l0 = some l' ∧ l'.foundShaderEnd = true ∧
      ip' = l'.shaderEndIp + 2 := by
  induction fuel generalizing ip l with
  | zero => cases hs
  | succ fuel ih =>
    rw [validateInsts] at hs
    split_ifs at hs with hip
    · obtain ⟨l1, hpass, hs⟩ := bind_eq_some_iff.1 hs
      split_ifs at hs with hend
      · cases hs
        exact .inr ⟨l, h, hip, hpass, hend⟩
      · exact ih (h.next hip hpass hend) (by rw [(validateInst_frame hpass).maxIp]; omega) hs
    · cases hs
      exact .inl (by omega)

/-- The loop over an accepted shader ends with the pass two instructions behind the end of the
program, and the result is made from its variables then. -/
lemma validateShader_last {info : ValidatedShaderInfo} {e : ℕ}
    (h : validateShader stray bo = some info) (he : shaderEndIp stray bo = some e) :
    ∃ l l', LoopAt stray bo (e + 2) l ∧ validateInst stray bo (e + 2) l = some l' ∧
      finishShader (e + 2) l' = some info := by
  obtain ⟨scan, ip, l', hscan, hloop, hne, hout, hfin⟩ := validateShader_eq h
  obtain ⟨l, hl, -, hpass, -, rfl⟩ :=
    ((LoopAt.init hscan).last (Nat.zero_le _) hloop).resolve_left hne
  obtain rfl : l'.shaderEndIp = e := mem_unique hout he
  exact ⟨l, l', hl, hpass, hfin⟩

lemma finishShader_size {info : ValidatedShaderInfo} (h : finishShader ip l = some info) :
    info.uniformsSize = l.shader.uniformsSize +
        (if l.state.needsUniformAddressForLoop then 4 else 0) ∧
      info.textureSamples = l.shader.textureSamples := by
  simp only [finishShader, ite_none_left_eq_some, Option.some.injEq] at h
  obtain ⟨-, -, rfl⟩ := h
  split_ifs
  · exact ⟨rfl, rfl⟩
  · exact ⟨by simp, rfl⟩

end Last

end KmsDrm.Vc4
