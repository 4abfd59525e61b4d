import KmsDrm.Vc4.ProgramOrder

/-!
# The texture samples that are recorded

The validation records, for each submission to a texture unit, whether it is a direct read of
memory, and where in the uniform stream its parameters lie. The record is built up in a setup for
each unit, which is used again for the next sample.

Two things go wrong. The setup is marked as direct by a direct read and never unmarked, so that a
later sample of the same unit with parameters is recorded as direct. And the load of an immediate
is checked for what it writes like an arithmetic instruction, but not for what it reads: taken for a
direct read, or for the minimum that clamps its address, it notes the place of a uniform that it
does not take from the stream.

## Main definitions

* `Vc4.submissions` — the submissions of a shader.

## Main results

* `Vc4.samples_ok_iff` — when the records are right.
-/

namespace KmsDrm.Vc4

open Function (update update_idem update_of_ne update_self)
open List Option

variable {mem : ℕ → Inst} {sub : Submission} {s : Stream} {count i j k r waddr : ℕ}
  {p : Fin 4 → U32} {ptr : U32}

/-! ## Submissions -/

/-- A submission to a texture unit by the instruction at `ip`, with the number of its parameters
that have been written. -/
structure Submission where
  ip : ℕ
  tmu : Bool
  writes : ℕ
  deriving DecidableEq, Repr

/-- The submission that a write by the instruction at `ip` makes. -/
def Stream.submission (s : Stream) (ip waddr : ℕ) : List Submission :=
  if isTmuSubmit waddr then
    [⟨ip, decide (wTmu0B < waddr), s.count (decide (wTmu0B < waddr)) + 1⟩]
  else []

/-- The submissions of the first `n` instructions, in their order. -/
def submissions (mem : ℕ → Inst) : ℕ → List Submission
  | 0 => []
  | n + 1 => submissions mem n ++ ((streamAt mem n).submission n (mem n).waddrAdd ++
      ((streamAt mem n).before (mem n) true).submission n (mem n).waddrMul)

/-- What a recorded sample should say: it is direct if its submission was the only write; the
offsets of the first two uniforms are different multiples of 4 below the size of the uniforms; and
there are no others than those of the parameters written. -/
structure SampleOk (size : U32) (sub : Submission) (smp : TextureSampleInfo) : Prop where
  isDirect : smp.isDirect = true ↔ sub.writes = 1
  aligned : (smp.pOffset 0).toNat % 4 = 0 ∧ (smp.pOffset 1).toNat % 4 = 0
  distinct : smp.pOffset 0 ≠ smp.pOffset 1
  below : smp.pOffset 0 < size ∧ smp.pOffset 1 < size
  rest : ∀ k : Fin 4, 2 ≤ k.val → sub.writes ≤ k.val → smp.pOffset k = unused

/-! ## The condition -/

/-- The instruction at `j` is the last one before `i` that writes the register `r`. -/
def LastWrites (mem : ℕ → Inst) (r j i : ℕ) : Prop :=
  j < i ∧ (dstAdd (mem j) = some r ∨ dstMul (mem j) = some r) ∧
    ∀ k, j < k → k < i → dstAdd (mem k) ≠ some r ∧ dstMul (mem k) ≠ some r

/-- The size of the uniforms of a shader that ends with the instruction at `e + 2`. -/
def finalSize (mem : ℕ → Inst) (e : ℕ) : U32 :=
  (streamAt mem (e + 3)).ptr + if loopPending mem (e + 3) then 4 else 0

/-- The uniforms that a direct read at `i` is recorded with are taken from the stream. The base
address is the next uniform, which exists if a uniform is taken from `i` on, at the latest for a
backward branch; the bound is the uniform that was next at the last write of the register with the
offset, which is another one if a uniform was taken in between. For an operand that is not tracked
the recorded offset is what happens to lie behind the array. -/
structure DirectFits (stray : Stray) (mem : ℕ → Inst) (e i : ℕ) : Prop where
  base : (∃ k, i ≤ k ∧ k < e + 3 ∧ Takes mem k) ∨ loopPending mem (e + 3) = true
  bound : ∀ r, raddrAddAToLiveRegIndex (mem i) = some r →
    (r < liveRegCount → ∀ j, LastWrites mem r j i → ∃ k, j ≤ k ∧ k < i ∧ Takes mem k) ∧
    (¬ r < liveRegCount → (stray.minClampOffsets i r).toNat % 4 = 0 ∧
      (streamAt mem i).ptr ≠ stray.minClampOffsets i r ∧
      stray.minClampOffsets i r < finalSize mem e)

/-- The condition on a submission: one with parameters does not follow a direct read of the same
unit, and the uniforms of a direct read are taken from the stream. -/
structure Submission.Fits (stray : Stray) (mem : ℕ → Inst) (e : ℕ) (sub : Submission) : Prop where
  parameters : sub.writes ≠ 1 →
    ∀ sub' ∈ submissions mem (sub.ip + 1), sub'.tmu = sub.tmu → sub'.writes ≠ 1
  direct : sub.writes = 1 → DirectFits stray mem e sub.ip

/-! ## The stream -/

section Steady

variable {n : ℕ} (h : Steady mem n) (hn : 4 * n < 2 ^ 32)
include h hn

omit hn in
lemma Steady.le (hk : k ≤ n) : (streamAt mem k).ptr.toNat ≤ 4 * k := by
  induction k with
  | zero => exact Nat.le_refl _
  | succ k ih =>
    rcases h k hk with heq | heq
    · rw [heq]
      omega
    · bv_omega

lemma Steady.step (hk : k < n) :
    ((streamAt mem (k + 1)).ptr.toNat = (streamAt mem k).ptr.toNat ∧ ¬ Takes mem k) ∨
      ((streamAt mem (k + 1)).ptr.toNat = (streamAt mem k).ptr.toNat + 4 ∧ Takes mem k) := by
  have hle := h.le (Nat.le_of_lt hk)
  rcases h k hk with heq | heq
  · exact .inl ⟨by rw [heq], fun htakes => htakes heq⟩
  · refine .inr ⟨by rw [heq]; bv_omega, fun hsame => ?_⟩
    bv_omega

lemma Steady.mono (hji : j ≤ i) (hi : i ≤ n) :
    (streamAt mem j).ptr.toNat ≤ (streamAt mem i).ptr.toNat ∧
      ((streamAt mem j).ptr.toNat < (streamAt mem i).ptr.toNat ↔
        ∃ k, j ≤ k ∧ k < i ∧ Takes mem k) := by
  induction i, hji using Nat.le_induction with
  | base =>
    exact ⟨Nat.le_refl _, fun hlt => absurd hlt (Nat.lt_irrefl _), fun ⟨k, _, _, _⟩ => by omega⟩
  | succ i hji ih =>
    obtain ⟨hle, hiff⟩ := ih (by omega)
    rcases h.step hn (show i < n by omega) with ⟨heq, hno⟩ | ⟨heq, htakes⟩
    · refine ⟨by omega, ?_⟩
      rw [heq, hiff]
      constructor
      · rintro ⟨k, hjk, hki, hk⟩
        exact ⟨k, hjk, by omega, hk⟩
      · rintro ⟨k, hjk, hki, hk⟩
        rcases Nat.lt_succ_iff_lt_or_eq.1 hki with hlt | rfl
        · exact ⟨k, hjk, hlt, hk⟩
        · exact absurd hk hno
    · exact ⟨by omega, fun _ => ⟨i, hji, by omega, htakes⟩, fun _ => by omega⟩

lemma Steady.ne_iff (hji : j ≤ i) (hi : i ≤ n) :
    (streamAt mem i).ptr ≠ (streamAt mem j).ptr ↔ ∃ k, j ≤ k ∧ k < i ∧ Takes mem k := by
  obtain ⟨hle, hiff⟩ := h.mono hn hji hi
  rw [← hiff, Ne, ← BitVec.toNat_inj]
  omega

end Steady

/-! ## The setups -/

/-- The offsets noted for the first `count` parameters, when the stream has come to `ptr`. -/
structure Noted (p : Fin 4 → U32) (count : ℕ) (ptr : U32) : Prop where
  taken : ∀ k : Fin 4, k.val < count → (p k).toNat % 4 = 0 ∧ (p k).toNat < ptr.toNat
  distinct : 1 < count → p 0 ≠ p 1
  rest : ∀ k : Fin 4, count ≤ k.val → p k = unused

lemma Noted.nothing (ptr : U32) : Noted (fun _ => unused) 0 ptr :=
  ⟨fun _ h => absurd h (Nat.not_lt_zero _), fun h => absurd h (by omega), fun _ _ => rfl⟩

lemma Noted.mono {ptr' : U32} (h : Noted p count ptr) (hle : ptr.toNat ≤ ptr'.toNat) :
    Noted p count ptr' :=
  ⟨fun k hk => ⟨(h.taken k hk).1, Nat.lt_of_lt_of_le (h.taken k hk).2 hle⟩, h.distinct, h.rest⟩

lemma Noted.next (h : Noted p count ptr) (hcount : count < 4) (halign : ptr.toNat % 4 = 0)
    (hroom : ptr.toNat + 4 < 2 ^ 32) :
    Noted (update p ⟨count, hcount⟩ ptr) (count + 1) (ptr + 4) := by
  have hadd : (ptr + 4).toNat = ptr.toNat + 4 := by bv_omega
  refine ⟨fun k hk => ?_, fun hlt => ?_, fun k hk => ?_⟩
  · by_cases heq : k = ⟨count, hcount⟩
    · rw [heq, update_self]
      omega
    · have hne : k.val ≠ count := fun hval => heq (Fin.ext hval)
      rw [update_of_ne heq]
      have := h.taken k (by omega)
      omega
  · have h0 : (0 : Fin 4) ≠ ⟨count, hcount⟩ := fun heq => by
      have := congrArg Fin.val heq
      simp only [Fin.val_zero] at this
      omega
    rw [update_of_ne h0]
    by_cases h1 : (1 : Fin 4) = ⟨count, hcount⟩
    · rw [h1, update_self]
      intro heq
      have := (h.taken 0 (by simp only [Fin.val_zero]; omega)).2
      rw [heq] at this
      exact Nat.lt_irrefl _ this
    · rw [update_of_ne h1]
      have hne : count ≠ 1 := fun hval => h1 (Fin.ext hval.symm)
      exact h.distinct (by omega)
  · have hne : k ≠ ⟨count, hcount⟩ := fun heq => by
      have := congrArg Fin.val heq
      simp only at this
      omega
    rw [update_of_ne hne]
    exact h.rest k (by omega)

/-- What a recorded sample says about its submission in any case. -/
structure Describes (stray : Stray) (mem : ℕ → Inst) (sub : Submission) (smp : TextureSampleInfo) :
    Prop where
  isDirect : smp.isDirect = true ↔
    ∃ sub' ∈ submissions mem (sub.ip + 1), sub'.tmu = sub.tmu ∧ sub'.writes = 1
  parameters : sub.writes ≠ 1 →
    1 < sub.writes ∧ Noted smp.pOffset sub.writes (streamAt mem (sub.ip + 1)).ptr
  direct : sub.writes = 1 → smp.pOffset 0 = (streamAt mem sub.ip).ptr ∧
    (∀ k : Fin 4, 2 ≤ k.val → smp.pOffset k = unused) ∧
    ∃ r, raddrAddAToLiveRegIndex (mem sub.ip) = some r ∧
      (r < liveRegCount → ∃ j, LastWrites mem r j sub.ip ∧ smp.pOffset 1 = (streamAt mem j).ptr) ∧
      (¬ r < liveRegCount → smp.pOffset 1 = stray.minClampOffsets sub.ip r)

/-- What the variables of the loop say about the first `n` instructions. -/
structure SampleInv (stray : Stray) (mem : ℕ → Inst) (n : ℕ) (l : LoopState) : Prop where
  noted : ∀ tmu, Noted (l.state.tmuSetup tmu).pOffset (l.state.tmuWriteCount tmu)
    l.shader.uniformsSize
  isDirect : ∀ tmu, (l.state.tmuSetup tmu).isDirect = true ↔
    ∃ sub ∈ submissions mem n, sub.tmu = tmu ∧ sub.writes = 1
  samples : List.Forall₂ (Describes stray mem) (submissions mem n) l.shader.textureSamples
  clamps : ∀ r, l.state.liveMinClampOffsets r ≠ unused →
    ∃ j, LastWrites mem r j n ∧ l.state.liveMinClampOffsets r = (streamAt mem j).ptr

/-! ## One instruction -/

/-- Two states of the checks that agree on the texture units. -/
structure TmuFrame (c c' : Checked) : Prop where
  setup : c'.state.tmuSetup = c.state.tmuSetup
  count : c'.state.tmuWriteCount = c.state.tmuWriteCount
  samples : c'.shader.textureSamples = c.shader.textureSamples

lemma TmuFrame.trans {c1 c2 c3 : Checked} (h : TmuFrame c1 c2) (h' : TmuFrame c2 c3) :
    TmuFrame c1 c3 :=
  ⟨h'.setup.trans h.setup, h'.count.trans h.count, h'.samples.trans h.samples⟩

section Checks

variable {stray : Stray} {inst : Inst} {isMul tmu submit isDirect : Bool} {c c' : Checked}

lemma trackImmediate_tmu (inst : Inst) (isMul : Bool) (c : Checked) :
    TmuFrame c (trackImmediate inst isMul c) := by
  obtain ⟨_, _, heq⟩ := trackImmediate_eq inst isMul c
  rw [heq]
  exact ⟨rfl, rfl, rfl⟩

lemma checkRegWrite_tmuFrame (h : checkRegWrite stray inst isMul c = some c')
    (hw : isTmuWrite (waddrOf inst isMul) = false) : TmuFrame c c' := by
  refine (trackImmediate_tmu inst isMul c).trans ?_
  simp only [checkRegWrite] at h
  rw [if_neg (show ¬ isTmuWrite (waddrOf inst isMul) = true by simp [hw])] at h
  split_ifs at h
  · obtain ⟨-, -, -, -, -, -, -, rfl⟩ := validateUniformAddressWrite_eq h
    exact ⟨rfl, rfl, rfl⟩
  · cases h
    exact ⟨rfl, rfl, rfl⟩

lemma trackLiveClamps_tmu (stray : Stray) (inst : Inst) (c : Checked) :
    TmuFrame c (trackLiveClamps stray inst c) := by
  obtain ⟨_, _, heq⟩ := trackLiveClamps_eq stray inst c
  rw [heq]
  exact ⟨rfl, rfl, rfl⟩

/-- The writes of an instruction leave the texture units alone, or one of its halves writes to one
of them; the rest does not change the size of the uniforms. -/
lemma checkInstructionWrites_tmu (h : checkInstructionWrites stray inst c = some c') :
    (isTmuWrite inst.waddrAdd = false ∧ isTmuWrite inst.waddrMul = false ∧ TmuFrame c c') ∨
      ∃ isMul c1 c2, isTmuWrite (waddrOf inst isMul) = true ∧
        isTmuWrite (waddrOf inst (!isMul)) = false ∧ TmuFrame c c1 ∧ RegFrame c c1 ∧
        c1.shader.uniformsSize = c.shader.uniformsSize ∧
        checkTmuWrite stray inst isMul c1 = some c2 ∧ TmuFrame c2 c' ∧
        c'.shader.uniformsSize = c2.shader.uniformsSize := by
  have hboth := checkInstructionWrites_one h
  obtain ⟨c1, c2, h1, h2, rfl, hshader, -⟩ := checkInstructionWrites_stream h
  have hclamps := trackLiveClamps_tmu stray inst c2
  have hsize := congrArg ValidatedShaderInfo.uniformsSize hshader
  have himm : ∀ (isMul : Bool) (d : Checked),
      (trackImmediate inst isMul d).shader.uniformsSize = d.shader.uniformsSize := by
    intro isMul d
    obtain ⟨_, _, heq⟩ := trackImmediate_eq inst isMul d
    rw [heq]
  have hkeep : ∀ {isMul : Bool} {d d' : Checked}, checkRegWrite stray inst isMul d = some d' →
      isTmuWrite (waddrOf inst isMul) = false → d'.shader.uniformsSize = d.shader.uniformsSize :=
    fun hd hw => congrArg Stream.ptr ((checkRegWrite_stream hd).1.trans (Stream.tmuWrite_of_not hw))
  by_cases hadd : isTmuWrite inst.waddrAdd = true
  · have hmul : isTmuWrite inst.waddrMul = false := by
      by_contra hmul
      exact hboth ⟨hadd, by simpa using hmul⟩
    exact .inr ⟨false, trackImmediate inst false c, c1, hadd, hmul, trackImmediate_tmu _ _ _,
      trackImmediate_frame _ _ _, himm _ _, checkRegWrite_tmu hadd h1,
      (checkRegWrite_tmuFrame h2 hmul).trans hclamps, hsize.trans (hkeep h2 hmul)⟩
  · have hadd' : isTmuWrite inst.waddrAdd = false := by simpa using hadd
    have hframe1 := checkRegWrite_tmuFrame h1 hadd'
    by_cases hmul : isTmuWrite inst.waddrMul = true
    · exact .inr ⟨true, trackImmediate inst true c1, c2, hmul, hadd',
        hframe1.trans (trackImmediate_tmu _ _ _),
        (checkRegWrite_frame h1).trans (trackImmediate_frame _ _ _),
        (himm _ _).trans (hkeep h1 hadd'), checkRegWrite_tmu hmul h2, hclamps, hsize⟩
    · have hmul' : isTmuWrite inst.waddrMul = false := by simpa using hmul
      exact .inl ⟨hadd', hmul', hframe1.trans ((checkRegWrite_tmuFrame h2 hmul').trans hclamps)⟩

variable {ip : ℕ} {l l' : LoopState}

lemma checkInst_tmu (h : checkInst stray inst ip l = some l') :
    (isTmuWrite inst.waddrAdd = false ∧ isTmuWrite inst.waddrMul = false ∧
        TmuFrame l.toChecked l'.toChecked) ∨
      ∃ isMul c1 c2, isTmuWrite (waddrOf inst isMul) = true ∧
        isTmuWrite (waddrOf inst (!isMul)) = false ∧ TmuFrame l.toChecked c1 ∧
        RegFrame l.toChecked c1 ∧ c1.shader.uniformsSize = l.shader.uniformsSize ∧
        checkTmuWrite stray inst isMul c1 = some c2 ∧ TmuFrame c2 l'.toChecked ∧
        (l'.shader.uniformsSize = c2.shader.uniformsSize ∨ readsUniform inst = true) := by
  rcases checkInst_writes h with ⟨-, c, hc, hreads⟩ | ⟨-, hc⟩
  · have hframe : TmuFrame c l'.toChecked :=
      ⟨by rw [hreads.state], by rw [hreads.state], hreads.samples⟩
    rcases checkInstructionWrites_tmu hc with ⟨hadd, hmul, h⟩ |
        ⟨isMul, a, b, hw, hw', h, hreg, ha, htmu, hb, hsame⟩
    · exact .inl ⟨hadd, hmul, h.trans hframe⟩
    · refine .inr ⟨isMul, a, b, hw, hw', h, hreg, ha, htmu, hb.trans hframe, ?_⟩
      rw [hreads.size]
      split_ifs with hr
      · exact .inr hr.2
      · exact .inl hsame
  · obtain ⟨hadd, hmul, hc⟩ := checkBranch_eq hc
    rw [hc]
    exact .inl ⟨by rw [hadd]; decide, by rw [hmul]; decide, rfl, rfl, rfl⟩

end Checks

/-! ## One pass of the loop -/

lemma LastWrites.unique {j' : ℕ} (h : LastWrites mem r j i) (h' : LastWrites mem r j' i) :
    j = j' := by
  rcases Nat.lt_trichotomy j j' with hlt | heq | hlt
  · have hno := h.2.2 j' hlt h'.1
    exact absurd h'.2.1 (not_or.2 hno)
  · exact heq
  · have hno := h'.2.2 j hlt h.1
    exact absurd h.2.1 (not_or.2 hno)

lemma LastWrites.next (h : LastWrites mem r j i) (hadd : dstAdd (mem i) ≠ some r)
    (hmul : dstMul (mem i) ≠ some r) : LastWrites mem r j (i + 1) := by
  refine ⟨Nat.lt_succ_of_lt h.1, h.2.1, fun k hjk hki => ?_⟩
  rcases Nat.lt_succ_iff_lt_or_eq.1 hki with hlt | rfl
  · exact h.2.2 k hjk hlt
  · exact ⟨hadd, hmul⟩

section Pass

variable {stray : Stray} {bo : ShaderBo} {ip : ℕ} {l l' : LoopState}

lemma submission_of_not (h : isTmuWrite waddr = false) : s.submission ip waddr = [] := by
  refine if_neg fun hsub => ?_
  rw [isTmuWrite_of_submit hsub] at h
  cases h

lemma submissions_succ {isMul : Bool} (h : isTmuWrite (waddrOf (mem ip) (!isMul)) = false) :
    submissions mem (ip + 1) =
      submissions mem ip ++ (streamAt mem ip).submission ip (waddrOf (mem ip) isMul) := by
  rw [submissions]
  cases isMul with
  | false =>
    rw [submission_of_not (show isTmuWrite (mem ip).waddrMul = false from h), append_nil]
    rfl
  | true =>
    have hadd : isTmuWrite (mem ip).waddrAdd = false := h
    rw [submission_of_not hadd, Stream.before, Stream.tmuWrite_of_not hadd]
    rfl

lemma SampleInv.enter (h : SampleInv stray bo.mem ip l) (he : enterInst stray bo ip l = some l') :
    SampleInv stray bo.mem ip l' := by
  obtain ⟨hshader, hstream, -, hidle⟩ := enterInst_stream he
  have hcount : l'.state.tmuWriteCount = l.state.tmuWriteCount := congrArg Stream.count hstream
  have hsetup : ∀ tmu, (l'.state.tmuSetup tmu).isDirect = (l.state.tmuSetup tmu).isDirect ∧
      ((l'.state.tmuSetup tmu).pOffset = (l.state.tmuSetup tmu).pOffset ∨
        ((l'.state.tmuSetup tmu).pOffset = (fun _ => unused) ∧ l.state.tmuWriteCount tmu = 0)) := by
    intro tmu
    obtain ⟨v, rfl, ⟨-, rfl⟩ | ⟨hyes, -, rfl⟩⟩ := enterInst_cases he
    · split_ifs <;> exact ⟨rfl, .inl rfl⟩
    · have hzero := congrFun (hidle hyes) tmu
      split_ifs <;> exact ⟨rfl, .inr ⟨rfl, hzero⟩⟩
  have hclamps : ∀ r, l'.state.liveMinClampOffsets r ≠ unused →
      l'.state.liveMinClampOffsets r = l.state.liveMinClampOffsets r := by
    intro r hne
    obtain ⟨v, rfl, ⟨-, rfl⟩ | ⟨-, -, rfl⟩⟩ := enterInst_cases he
    · by_cases hlast : (ip : ℤ) = l.lastThreadSwitchIp + 3
      · by_cases hr : 64 ≤ r
        · simp [hlast, resetAccumulators, hr] at hne
        · simp [hlast, resetAccumulators, hr]
      · simp [hlast]
    · by_cases hlast : (ip : ℤ) = l.lastThreadSwitchIp + 3 <;>
        simp [resetAccumulators, resetValidationState] at hne
  refine ⟨fun tmu => ?_, fun tmu => ?_, by rw [hshader]; exact h.samples, fun r hne => ?_⟩
  · rw [hshader, hcount]
    rcases (hsetup tmu).2 with heq | ⟨heq, hzero⟩
    · rw [heq]
      exact h.noted tmu
    · rw [heq, hzero]
      exact Noted.nothing _
  · rw [(hsetup tmu).1]
    exact h.isDirect tmu
  · have heq := hclamps r hne
    rw [heq] at hne ⊢
    exact h.clamps r hne

lemma checkInst_clamps {inst : Inst} (h : checkInst stray inst ip l = some l')
    (hr : l'.state.liveMinClampOffsets r ≠ unused) :
    (dstAdd inst = some r ∧ l'.state.liveMinClampOffsets r = l.shader.uniformsSize) ∨
      (dstAdd inst ≠ some r ∧ dstMul inst ≠ some r ∧
        l'.state.liveMinClampOffsets r = l.state.liveMinClampOffsets r) := by
  rcases checkInst_writes h with ⟨-, c, hc, hreads⟩ | ⟨-, hc⟩
  · rw [hreads.state] at hr ⊢
    obtain ⟨c1, c2, h1, h2, rfl, hshader, hstream, -, -, hmul⟩ := checkInstructionWrites_stream hc
    have hframe := ((checkRegWrite_frame h1).trans (checkRegWrite_frame h2)).minOffsets
    have hclear : ∀ {off : U32}, off ≠ unused →
        ((c2.state.clearClamp? (dstMul inst)).clearClamp?
          (dstAdd inst)).liveMinClampOffsets r = off →
        dstAdd inst ≠ some r ∧ dstMul inst ≠ some r ∧ off = l.state.liveMinClampOffsets r := by
      rintro off hoff rfl
      obtain ⟨hadd, heq⟩ := clearClamp?_min hoff
      rw [heq] at hoff ⊢
      obtain ⟨hmul', heq'⟩ := clearClamp?_min hoff
      exact ⟨hadd, hmul', by rw [heq', hframe]⟩
    obtain ⟨-, -, hcases⟩ := trackLiveClamps_cases stray inst c2
    rcases hcases with heq | ⟨d, -, -, -, heq⟩ | ⟨d, a, hd, -, hmin, -, -, heq⟩
    · exact .inr (hclear hr (by rw [heq]))
    · exact .inr (hclear hr (by rw [heq]))
    · by_cases hrd : r = d
      · -- the minimum notes the place of its uniform, which the writes have not taken yet
        subst hrd
        rw [Stream.tmuWrite_of_not (not_isTmuWrite_of_dstAdd (by simp [hd])),
          Stream.tmuWrite_of_not (hmul (readsUniform_of_isMin hmin))] at hstream
        refine .inl ⟨hd, ?_⟩
        rw [heq, ← hshader]
        exact (update_self ..).trans (congrArg Stream.ptr hstream)
      · refine .inr (hclear hr ?_)
        rw [heq]
        simp only [update_of_ne hrd]
  · obtain ⟨hadd, hmul⟩ := checkBranch_dst hc
    obtain ⟨-, -, hc⟩ := checkBranch_eq hc
    rw [hc]
    exact .inr ⟨by simp [hadd], by simp [hmul], rfl⟩

/-- What a pass with a write to the texture unit `tmu` does: the place of the uniform is noted in
`setup`, which is the setup of the unit, or, for a direct read, the marked one with the offset of
the bound. -/
structure TmuPass (stray : Stray) (mem : ℕ → Inst) (ip : ℕ) (l l' : LoopState) (tmu submit : Bool)
    (setup noted : TextureSampleInfo) : Prop where
  count : l.state.tmuWriteCount tmu < 4
  notes : noted = noteOffset setup ⟨_, count⟩ l.shader.uniformsSize
  setups : l'.state.tmuSetup = update l.state.tmuSetup tmu (setupAfter submit noted)
  samples : l'.shader.textureSamples =
    l.shader.textureSamples ++ (if submit then [noted] else [])
  counts : l'.state.tmuWriteCount = update l.state.tmuWriteCount tmu
    (if submit then 0 else l.state.tmuWriteCount tmu + 1)
  submitted : submissions mem (ip + 1) = submissions mem ip ++
    (if submit then [⟨ip, tmu, l.state.tmuWriteCount tmu + 1⟩] else [])
  kind : (setup = l.state.tmuSetup tmu ∧ (submit = true → l.state.tmuWriteCount tmu ≠ 0) ∧
      l'.shader.uniformsSize = l.shader.uniformsSize + 4) ∨
    (submit = true ∧ l.state.tmuWriteCount tmu = 0 ∧ ∃ r,
      raddrAddAToLiveRegIndex (mem ip) = some r ∧ l.state.minClampOffset stray r ≠ unused ∧
      setup = ⟨true, update (l.state.tmuSetup tmu).pOffset 1
        (l.state.minClampOffset stray r)⟩)

lemma checkInst_tmuPass (h : checkInst stray (bo.mem ip) ip l = some l')
    (horder : l.toChecked.stream = streamAt bo.mem ip) :
    (TmuFrame l.toChecked l'.toChecked ∧ submissions bo.mem (ip + 1) = submissions bo.mem ip) ∨
      ∃ tmu submit setup noted, TmuPass stray bo.mem ip l l' tmu submit setup noted := by
  rcases checkInst_tmu h with ⟨hadd, hmul, hframe⟩ |
      ⟨isMul, c1, c2, hw, hw', hframe1, hreg, hsize1, hcheck, hframe2, hsize2⟩
  · refine .inl ⟨hframe, ?_⟩
    rw [submissions, submission_of_not hadd, submission_of_not hmul, append_nil,
      append_nil]
  · obtain ⟨hcount, setup, rfl, hkind⟩ := checkTmuWrite_eq hcheck
    have hclamp : ∀ r, c1.state.minClampOffset stray r = l.state.minClampOffset stray r := by
      intro r
      rw [ValidationState.minClampOffset, hreg.minOffsets, hreg.ip, ValidationState.minClampOffset]
    have hcount' : l.state.tmuWriteCount (decide (wTmu0B < waddrOf (bo.mem ip) isMul)) < 4 :=
      hframe1.count ▸ hcount
    have hidx : (⟨_, hcount⟩ : Fin 4) = ⟨_, hcount'⟩ := Fin.ext (by simp only; rw [hframe1.count])
    simp only [hidx, hsize1] at hframe2 hsize2
    refine .inr ⟨decide (wTmu0B < waddrOf (bo.mem ip) isMul),
      isTmuSubmit (waddrOf (bo.mem ip) isMul), setup, _, hcount', rfl, ?_, ?_, ?_, ?_, ?_⟩
    · rw [hframe2.setup, hframe1.setup]
    · rw [hframe2.samples, hframe1.samples]
    · rw [hframe2.count, hframe1.count]
    · rw [submissions_succ hw', ← horder]
      rfl
    · simp only [hclamp, hframe1.setup, hframe1.count] at hkind hsize2
      rcases hkind with ⟨hindirect, hsetup, hreads, -⟩ | ⟨hdirect, -, -, -, -, hr⟩
      · -- the parameter is not a direct read, so the instruction reads no other uniform
        refine .inl ⟨hsetup, fun hsub hzero => by simp [hsub, hzero] at hindirect, ?_⟩
        rw [hsize2.resolve_right (by simp [hreads]), if_neg (by simp [hindirect])]
      · rw [Bool.and_eq_true, beq_iff_eq] at hdirect
        exact .inr ⟨hdirect.1, hdirect.2, hr⟩

lemma SampleInv.bound (h : SampleInv stray bo.mem ip l) (hip : l.state.ip = ip)
    (hr : l.state.minClampOffset stray r ≠ unused) :
    (r < liveRegCount → ∃ j, LastWrites bo.mem r j ip ∧
        l.state.minClampOffset stray r = (streamAt bo.mem j).ptr) ∧
      (¬ r < liveRegCount → l.state.minClampOffset stray r = stray.minClampOffsets ip r) := by
  constructor
  · intro hlt
    rw [ValidationState.minClampOffset, if_pos hlt] at hr ⊢
    exact h.clamps r hr
  · intro hge
    rw [ValidationState.minClampOffset, if_neg hge, hip]

section Write

variable {tmu submit : Bool} {setup noted : TextureSampleInfo}

lemma exists_mem_append_iff {P : Submission → Prop} {subs new : List Submission}
    (h : ∀ sub ∈ new, ¬ P sub) : (∃ sub ∈ subs ++ new, P sub) ↔ ∃ sub ∈ subs, P sub := by
  simp only [mem_append, or_and_right, exists_or]
  exact or_iff_left fun ⟨sub, hmem, hsub⟩ => h sub hmem hsub

lemma TmuPass.isDirect (hpass : TmuPass stray bo.mem ip l l' tmu submit setup noted)
    (h : SampleInv stray bo.mem ip l) (t : Bool) : (l'.state.tmuSetup t).isDirect = true ↔
      ∃ sub ∈ submissions bo.mem (ip + 1), sub.tmu = t ∧ sub.writes = 1 := by
  rw [hpass.setups, hpass.submitted]
  by_cases ht : t = tmu
  · subst ht
    have hmark : (setupAfter submit noted).isDirect = setup.isDirect := by
      rw [hpass.notes]
      cases submit <;> rfl
    rw [update_self, hmark]
    rcases hpass.kind with ⟨hsetup, hne, -⟩ | ⟨hsub, hzero, r, -, -, hsetup⟩
    · rw [hsetup, h.isDirect t]
      refine (exists_mem_append_iff fun sub hmem hsub => ?_).symm
      split_ifs at hmem with hsubmit
      · obtain rfl := mem_singleton.1 hmem
        exact hne hsubmit (Nat.succ.inj hsub.2)
      · cases hmem
    · rw [hsetup, if_pos hsub]
      refine ⟨fun _ => ⟨_, mem_append_right _ (mem_singleton_self _), rfl, ?_⟩,
        fun _ => rfl⟩
      simp [hzero]
  · rw [update_of_ne ht, h.isDirect t]
    refine (exists_mem_append_iff fun sub hmem hsub => ?_).symm
    split_ifs at hmem
    · obtain rfl := mem_singleton.1 hmem
      exact ht hsub.1.symm
    · cases hmem

variable (hpass : TmuPass stray bo.mem ip l l' tmu submit setup noted)
  (h : SampleInv stray bo.mem ip l) (halign : l.shader.uniformsSize.toNat % 4 = 0)
  (hroom : l.shader.uniformsSize.toNat + 4 < 2 ^ 32)
include hpass h halign hroom

lemma TmuPass.noted_next (hsetup : setup = l.state.tmuSetup tmu)
    (hsize : l'.shader.uniformsSize = l.shader.uniformsSize + 4) :
    Noted noted.pOffset (l.state.tmuWriteCount tmu + 1) l'.shader.uniformsSize := by
  subst hsetup
  rw [hpass.notes, hsize]
  exact (h.noted tmu).next hpass.count halign hroom

lemma TmuPass.noted_setups
    (hle : l.shader.uniformsSize.toNat ≤ l'.shader.uniformsSize.toNat) (t : Bool) :
    Noted (l'.state.tmuSetup t).pOffset (l'.state.tmuWriteCount t) l'.shader.uniformsSize := by
  rw [hpass.setups, hpass.counts]
  by_cases ht : t = tmu
  · subst ht
    rw [update_self, update_self]
    cases hsub : submit with
    | true => exact Noted.nothing _
    | false =>
      rcases hpass.kind with ⟨hsetup, -, hsize⟩ | ⟨hsub', -⟩
      · exact hpass.noted_next h halign hroom hsetup hsize
      · rw [hsub] at hsub'
        cases hsub'
  · rw [update_of_ne ht, update_of_ne ht]
    exact (h.noted t).mono hle

lemma TmuPass.describes (hip : l.state.ip = ip) (hsub : submit = true)
    (hptr : l.shader.uniformsSize = (streamAt bo.mem ip).ptr)
    (hptr' : l'.shader.uniformsSize = (streamAt bo.mem (ip + 1)).ptr) :
    Describes stray bo.mem ⟨ip, tmu, l.state.tmuWriteCount tmu + 1⟩ noted := by
  refine ⟨?_, fun hne => ?_, fun hone => ?_⟩
  · have hmark : (l'.state.tmuSetup tmu).isDirect = noted.isDirect := by
      rw [hpass.setups, update_self, hsub]
      rfl
    rw [← hmark]
    exact hpass.isDirect h tmu
  · have hcount : l.state.tmuWriteCount tmu ≠ 0 := fun hzero => hne (by simp [hzero])
    refine ⟨by simp only; omega, ?_⟩
    rcases hpass.kind with ⟨hsetup, -, hsize⟩ | ⟨-, hzero, -⟩
    · rw [← hptr']
      exact hpass.noted_next h halign hroom hsetup hsize
    · exact absurd hzero hcount
  · have hzero : l.state.tmuWriteCount tmu = 0 := by simpa using hone
    have hidx : (⟨_, hpass.count⟩ : Fin 4) = 0 := Fin.ext hzero
    rcases hpass.kind with ⟨-, hne, -⟩ | ⟨-, -, r, hr, hoff, hsetup⟩
    · exact absurd hzero (hne hsub)
    have hnoted : noted.pOffset = update (update (l.state.tmuSetup tmu).pOffset 1
        (l.state.minClampOffset stray r)) 0 l.shader.uniformsSize := by
      rw [hpass.notes, hidx, hsetup]
      rfl
    have hone' : noted.pOffset 1 = l.state.minClampOffset stray r := by
      rw [hnoted, update_of_ne (by decide), update_self]
    obtain ⟨htracked, hstray⟩ := h.bound hip hoff
    refine ⟨by rw [hnoted, update_self, hptr], fun k hk => ?_, r, hr,
      fun hlt => ?_, fun hge => hone'.trans (hstray hge)⟩
    · have h0 : k ≠ 0 := fun heq => by simp [heq] at hk
      have h1 : k ≠ 1 := fun heq => by simp [heq] at hk
      rw [hnoted, update_of_ne h0, update_of_ne h1]
      exact (h.noted tmu).rest k (by omega)
    · obtain ⟨j, hj, heq⟩ := htracked hlt
      exact ⟨j, hj, hone'.trans heq⟩

end Write

/-- **One pass of the loop.**  What is known of the setups, of the samples and of the clamped
registers is kept by a pass, as long as the size of the uniforms does not overflow. -/
theorem SampleInv.pass (h : SampleInv stray bo.mem ip l) (horder : InOrder bo.mem ip l)
    (halign : l.shader.uniformsSize.toNat % 4 = 0)
    (hroom : l.shader.uniformsSize.toNat + 4 < 2 ^ 32)
    (hpass : validateInst stray bo ip l = some l') : SampleInv stray bo.mem (ip + 1) l' := by
  have horder' := (horder.pass hpass).stream
  have hsize := validateInst_size hpass
  obtain ⟨l1, h1, h2⟩ := bind_eq_some_iff.1 hpass
  have henter := h.enter h1
  obtain ⟨hshader, hstream, -⟩ := enterInst_stream h1
  have horder1 : l1.toChecked.stream = streamAt bo.mem ip := hstream.trans horder.stream
  rw [← hshader] at halign hroom hsize
  have hle : l1.shader.uniformsSize.toNat ≤ l'.shader.uniformsSize.toNat := by
    rcases hsize with heq | heq
    · rw [heq]
    · bv_omega
  have hclamps : ∀ r, l'.state.liveMinClampOffsets r ≠ unused →
      ∃ j, LastWrites bo.mem r j (ip + 1) ∧
        l'.state.liveMinClampOffsets r = (streamAt bo.mem j).ptr := by
    intro r hr
    rcases checkInst_clamps h2 hr with ⟨hadd, heq⟩ | ⟨hadd, hmul, heq⟩
    · exact ⟨ip, ⟨Nat.lt_succ_self _, .inl hadd, by omega⟩,
        heq.trans (congrArg Stream.ptr horder1)⟩
    · rw [heq] at hr ⊢
      obtain ⟨j, hj, hoff⟩ := henter.clamps r hr
      exact ⟨j, hj.next hadd hmul, hoff⟩
  rcases checkInst_tmuPass h2 horder1 with ⟨hframe, hsubs⟩ | ⟨tmu, submit, setup, noted, htmu⟩
  · refine ⟨fun t => ?_, fun t => ?_, ?_, hclamps⟩
    · rw [hframe.setup, hframe.count]
      exact (henter.noted t).mono hle
    · rw [hframe.setup, hsubs]
      exact henter.isDirect t
    · rw [hframe.samples, hsubs]
      exact henter.samples
  · refine ⟨htmu.noted_setups henter halign hroom hle, htmu.isDirect henter, ?_, hclamps⟩
    rw [htmu.submitted, htmu.samples]
    refine rel_append henter.samples ?_
    split_ifs with hsub
    · exact .cons (htmu.describes henter halign hroom (enterInst_frame h1).1 hsub
        (congrArg Stream.ptr horder1) (congrArg Stream.ptr horder')) .nil
    · exact .nil

lemma SampleInv.init (scan : BranchScan) : SampleInv stray bo.mem 0 (initLoop scan) :=
  ⟨fun _ => Noted.nothing _, fun _ => ⟨fun h => absurd h (by simp [initLoop, resetValidationState]),
    fun ⟨_, h, _⟩ => absurd h (by simp [submissions])⟩, .nil,
    fun _ h => absurd rfl h⟩

lemma LoopAt.sampleInv (h : LoopAt stray bo ip l) (hip : 4 * ip < 2 ^ 32) :
    SampleInv stray bo.mem ip l := by
  induction h with
  | init _ => exact SampleInv.init _
  | @next ip l l' h _ hpass _ ih =>
    have hle := h.steady.le (Nat.le_refl ip)
    have halign := h.steady.aligned (Nat.le_refl ip)
    rw [← h.size_eq] at hle halign
    exact (ih (by omega)).pass h.inOrder halign (by omega) hpass

end Pass

/-! ## The samples of an accepted shader -/

section Accepted

variable {stray : Stray} {e : ℕ} {smp : TextureSampleInfo} (h : Steady mem (e + 3))
  (he : 4 * (e + 3) + 4 < 2 ^ 32)
include h he

lemma finalSize_toNat : (finalSize mem e).toNat =
    (streamAt mem (e + 3)).ptr.toNat + if loopPending mem (e + 3) then 4 else 0 := by
  have hle := h.le (Nat.le_refl _)
  unfold finalSize
  split_ifs
  · bv_omega
  · simp

lemma lt_finalSize_iff (hi : i ≤ e + 3) :
    (streamAt mem i).ptr < finalSize mem e ↔
      (∃ k, i ≤ k ∧ k < e + 3 ∧ Takes mem k) ∨ loopPending mem (e + 3) = true := by
  obtain ⟨hle, hiff⟩ := h.mono (by omega) hi (Nat.le_refl _)
  rw [BitVec.lt_def, finalSize_toNat h he, ← hiff]
  cases loopPending mem (e + 3) with
  | true => simp; omega
  | false => simp

lemma Describes.parameters_ok_iff (hd : Describes stray mem sub smp) (hip : sub.ip < e + 3)
    (hne : sub.writes ≠ 1) : SampleOk (finalSize mem e) sub smp ↔
      ∀ sub' ∈ submissions mem (sub.ip + 1), sub'.tmu = sub.tmu → sub'.writes ≠ 1 := by
  obtain ⟨hgt, hnoted⟩ := hd.parameters hne
  have hmono := (h.mono (by omega) (show sub.ip + 1 ≤ e + 3 from hip) (Nat.le_refl _)).1
  have hsize := finalSize_toNat h he
  have h0 := hnoted.taken 0 (by simp only [Fin.val_zero]; omega)
  have h1 := hnoted.taken 1 (by simp only [Fin.val_one]; omega)
  have hbelow : ∀ {p : U32}, p.toNat < (streamAt mem (sub.ip + 1)).ptr.toNat →
      p < finalSize mem e := by
    intro p hp
    rw [BitVec.lt_def]
    omega
  constructor
  · intro hok sub' hmem htmu hone
    exact hne (hok.isDirect.1 (hd.isDirect.2 ⟨sub', hmem, htmu, hone⟩))
  · intro hall
    refine ⟨⟨fun hdir => ?_, fun hone => absurd hone hne⟩, ⟨h0.1, h1.1⟩, hnoted.distinct hgt,
      ⟨hbelow h0.2, hbelow h1.2⟩, fun k _ hk => hnoted.rest k hk⟩
    obtain ⟨sub', hmem, htmu, hone⟩ := hd.isDirect.1 hdir
    exact absurd hone (hall sub' hmem htmu)

lemma Describes.direct_ok_iff (hd : Describes stray mem sub smp) (hip : sub.ip < e + 3)
    (hsub : sub ∈ submissions mem (sub.ip + 1)) (hone : sub.writes = 1) :
    SampleOk (finalSize mem e) sub smp ↔ DirectFits stray mem e sub.ip := by
  obtain ⟨h0, hrest, r, hr, htracked, hstray⟩ := hd.direct hone
  have halign := h.aligned (Nat.le_of_lt hip)
  have hbase := lt_finalSize_iff h he (Nat.le_of_lt hip)
  constructor
  · intro hok
    have hbelow := hok.below
    have hdistinct := hok.distinct
    have haligned := hok.aligned
    rw [h0] at hbelow hdistinct
    refine ⟨hbase.1 hbelow.1, fun r' hr' => ?_⟩
    obtain rfl : r = r' := mem_unique hr hr'
    refine ⟨fun hlt j hj => ?_, fun hge => ?_⟩
    · obtain ⟨j', hj', h1⟩ := htracked hlt
      obtain rfl := hj.unique hj'
      rw [h1] at hdistinct
      exact (h.ne_iff (by omega) (Nat.le_of_lt hj.1) (Nat.le_of_lt hip)).1 hdistinct
    · rw [← hstray hge]
      exact ⟨haligned.2, hdistinct, hbelow.2⟩
  · intro hfits
    have hsize := hbase.2 hfits.base
    obtain ⟨hb, hb'⟩ := hfits.bound r hr
    have h1 : (smp.pOffset 1).toNat % 4 = 0 ∧ (streamAt mem sub.ip).ptr ≠ smp.pOffset 1 ∧
        smp.pOffset 1 < finalSize mem e := by
      by_cases hlt : r < liveRegCount
      · obtain ⟨j, hj, heq⟩ := htracked hlt
        have hle := (h.mono (by omega) (Nat.le_of_lt hj.1) (Nat.le_of_lt hip)).1
        rw [heq]
        refine ⟨h.aligned (by have := hj.1; omega),
          (h.ne_iff (by omega) (Nat.le_of_lt hj.1) (Nat.le_of_lt hip)).2 (hb hlt j hj), ?_⟩
        rw [BitVec.lt_def] at hsize ⊢
        omega
      · rw [hstray hlt]
        exact hb' hlt
    refine ⟨⟨fun _ => hone, fun _ => hd.isDirect.2 ⟨sub, hsub, rfl, hone⟩⟩, ?_, ?_, ?_,
      fun k hk _ => hrest k hk⟩ <;> rw [h0]
    · exact ⟨halign, h1.1⟩
    · exact h1.2.1
    · exact ⟨hsize, h1.2.2⟩

end Accepted

lemma Stream.mem_submission {ip : ℕ} (h : sub ∈ s.submission ip waddr) : sub.ip = ip := by
  unfold Stream.submission at h
  split_ifs at h
  · obtain rfl := mem_singleton.1 h
    rfl
  · cases h

lemma mem_submissions {n : ℕ} (h : sub ∈ submissions mem n) :
    sub.ip < n ∧ sub ∈ submissions mem (sub.ip + 1) := by
  induction n with
  | zero => cases h
  | succ n ih =>
    rcases mem_append.1 h with hold | hnew
    · exact ⟨Nat.lt_succ_of_lt (ih hold).1, (ih hold).2⟩
    · have hip : sub.ip = n := by
        rcases mem_append.1 hnew with hnew | hnew <;> exact Stream.mem_submission hnew
      refine ⟨by omega, ?_⟩
      rw [hip]
      exact h

lemma forall₂_iff_of_forall₂ {α β : Type} {R S : α → β → Prop} {p : α → Prop} {as : List α}
    {bs : List β} (h : List.Forall₂ R as bs) (hiff : ∀ a ∈ as, ∀ b, R a b → (S a b ↔ p a)) :
    List.Forall₂ S as bs ↔ ∀ a ∈ as, p a := by
  induction h with
  | nil => simp
  | @cons a b as bs hab _ ih =>
    rw [List.forall₂_cons, forall_mem_cons, ih fun a ha => hiff a (.tail _ ha),
      hiff a (.head _) b hab]

/-- **The samples of an accepted shader.**  Each recorded sample is direct exactly when its
submission was the only write, has different multiples of 4 below the size of the uniforms as its
first two offsets, and no offsets behind the parameters that were written, if and only if no unit
is submitted to with parameters after a direct read, and the uniforms of the direct reads are taken
from the stream.

The size of the uniforms does not overflow in the instructions of 4 GiB of memory, which an object
cannot exceed; the validation leaves the object only over ends of the program in the memory behind
it.

**Proof sketch.** The invariant of the loop (`SampleInv.pass`) describes each sample by its
submission; what is left open is decided by whether uniforms are taken in between
(`Steady.mono`). -/
theorem samples_ok_iff {stray : Stray} {bo : ShaderBo} {info : ValidatedShaderInfo} {e : ℕ}
    (h : validateShader stray bo = some info) (he : shaderEndIp stray bo = some e)
    (hspace : 8 * (e + 3) ≤ 2 ^ 32) :
    List.Forall₂ (SampleOk info.uniformsSize) (submissions bo.mem (e + 3)) info.textureSamples ↔
      ∀ sub ∈ submissions bo.mem (e + 3), sub.Fits stray bo.mem e := by
  obtain ⟨l, l', hat, hpass, hfin⟩ := validateShader_last h he
  have horder := hat.inOrder.pass hpass
  obtain ⟨hsize, hsamples⟩ := finishShader_size hfin
  have hsteady := hat.steady_pass hpass
  have hfinal : info.uniformsSize = finalSize bo.mem e := by
    rw [hsize, horder.forLoop, finalSize, ← congrArg Stream.ptr horder.stream]
    rfl
  have hle := hat.steady.le (Nat.le_refl (e + 2))
  have halign := hat.steady.aligned (Nat.le_refl (e + 2))
  rw [← hat.size_eq] at hle halign
  have hinv := (hat.sampleInv (by omega)).pass hat.inOrder halign (by omega) hpass
  have hdescribes : List.Forall₂ (Describes stray bo.mem) (submissions bo.mem (e + 3))
      info.textureSamples := hsamples ▸ hinv.samples
  rw [hfinal]
  refine forall₂_iff_of_forall₂ hdescribes fun sub hmem smp hd => ?_
  obtain ⟨hip, hself⟩ := mem_submissions hmem
  by_cases hone : sub.writes = 1
  · rw [hd.direct_ok_iff hsteady (by omega) hip hself hone]
    exact ⟨fun hfits => ⟨fun hne => absurd hone hne, fun _ => hfits⟩,
      fun hfits => hfits.direct hone⟩
  · rw [hd.parameters_ok_iff hsteady (by omega) hip hone]
    exact ⟨fun hall => ⟨fun _ => hall, fun hone' => absurd hone' hone⟩,
      fun hfits => hfits.parameters hone⟩

/-- A direct read of a clamped address is recorded as it should be. -/
theorem samples_ok_iff_directRead : ∃ info, validateShader noStray (directRead false) = some info ∧
    submissions (directRead false).mem 6 = [⟨2, false, 1⟩] ∧
    List.Forall₂ (SampleOk info.uniformsSize) (submissions (directRead false).mem 6)
      info.textureSamples := by
  have hsome : (validateShader noStray (directRead false)).isSome := by decide +kernel
  obtain ⟨info, h⟩ := isSome_iff_exists.1 hsome
  have hsubs : submissions (directRead false).mem 6 = [⟨2, false, 1⟩] := by decide
  refine ⟨info, h, hsubs, ?_⟩
  refine (samples_ok_iff h (e := 3) (by decide +kernel) (by decide)).2 fun sub hsub => ?_
  obtain rfl := mem_singleton.1 hsub
  refine ⟨fun hne => absurd rfl hne, fun _ => ⟨.inl ⟨2, by decide, by decide, by decide⟩,
    fun r hr => ?_⟩⟩
  obtain rfl : (1 : ℕ) = r := by
    have hraddr : raddrAddAToLiveRegIndex ((directRead false).mem 2) = some 1 := by decide
    exact mem_unique hraddr hr
  refine ⟨fun _ j hj => ?_, fun hge => absurd (by decide) hge⟩
  have hmin : LastWrites (directRead false).mem 1 1 2 :=
    ⟨by decide, .inl (by decide), fun k hk hk' => by omega⟩
  obtain rfl := hj.unique hmin
  exact ⟨1, by decide, by decide, by decide⟩

/-- A direct read of a clamped address, followed by a sample of the same unit with two
parameters. -/
def sampleAfterRead : ShaderBo where
  mem i :=
    if i = 0 then maxInst
    else if i = 1 then minInst false
    else if i = 2 then readInst
    else if i = 3 then addInst 1 57 21 39 39 0 0
    else if i = 4 then addInst 1 56 21 39 39 0 0
    else if i = 5 then signal 3
    else if i < 8 then signal 1
    else 0
  size := 4096
  size_le := page_le

/-- The sample with two parameters is recorded as a direct read. And a direct read of a register
that was written by the load of an immediate, taken for a minimum, is recorded with the same uniform
for its base and for its bound. -/
theorem samples_marked_direct :
    (∃ info, validateShader noStray sampleAfterRead = some info ∧
      submissions sampleAfterRead.mem 8 = [⟨2, false, 1⟩, ⟨4, false, 2⟩] ∧
      info.textureSamples.map TextureSampleInfo.isDirect = [true, true] ∧
      ¬ List.Forall₂ (SampleOk info.uniformsSize) (submissions sampleAfterRead.mem 8)
        info.textureSamples) ∧
    (validateShader noStray (directRead true)).map (fun info =>
      info.textureSamples.map fun smp => (smp.pOffset 0, smp.pOffset 1)) = some [(0, 0)] := by
  refine ⟨?_, by decide +kernel⟩
  have hmap : (validateShader noStray sampleAfterRead).map (fun info =>
      info.textureSamples.map TextureSampleInfo.isDirect) = some [true, true] := by decide +kernel
  obtain ⟨info, h, hmarks⟩ := map_eq_some_iff.1 hmap
  have hsubs : submissions sampleAfterRead.mem 8 = [⟨2, false, 1⟩, ⟨4, false, 2⟩] := by decide
  refine ⟨info, h, hsubs, hmarks, fun hall => ?_⟩
  obtain ⟨samples, hsamples⟩ : ∃ samples, info.textureSamples = samples := ⟨_, rfl⟩
  rw [hsamples] at hall hmarks
  cases hall with
  | cons _ hrest =>
    cases hrest with
    | @cons _ smp _ _ hok hnil =>
      cases hnil
      simp only [map_cons, map_nil, List.cons.injEq, and_true] at hmarks
      exact absurd (hok.isDirect.1 hmarks.2) (by decide)

end KmsDrm.Vc4
