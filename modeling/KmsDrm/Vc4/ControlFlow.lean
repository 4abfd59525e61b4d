import KmsDrm.Vc4.ValidateShaders

/-!
# Where a validated shader can run

The QPU executes the three instructions behind a branch before it follows it, and two more
instructions behind the one that signals the end of the program. Which instructions an accepted
shader can reach this way is decided by the two passes of the validation together: the first one
shrinks `max_ip` when it finds the end of the program, but only compares with it the instruction
behind the delay slots of each branch, not its target.

## Main definitions

* `Vc4.Step`, `Vc4.Reaches` — the sequencer of the QPU.

## Main results

* `Vc4.executes_inside_iff` — when all that is executed was validated.
-/

namespace KmsDrm.Vc4

open Option

variable {s s' : BranchScan} {bo : ShaderBo} {i ip t : ℕ} {mem : ℕ → Inst}

/-! ## The sequencer -/

/-- The state of the sequencer: the instruction it executes next, the branch it is about to
follow with the number of delay slots behind the present one, and the number of instructions left
once the end of the program has been signalled. -/
structure Pc where
  ip : ℕ
  pending : Option (ℕ × ℕ)
  ending : Option ℕ

/-- The instructions left after one more. -/
def countdown (sig : Sig) : Option ℕ → Option ℕ
  | none => if sig = .progEnd then some 2 else none
  | some k => some (k - 1)

/-- Where a taken branch leads: relative branches to their target, others anywhere. -/
def IsTarget (inst : Inst) (ip t : ℕ) : Prop :=
  inst.branchRel = true → inst.branchReg = false → t = branchTargetIp inst ip

/-- The QPU executes one instruction. A branch may be taken or not; a branch in the delay slots
of another one, which the validation rejects, is not followed. -/
inductive Step (mem : ℕ → Inst) : Pc → Pc → Prop
  | next {ip : ℕ} {ending : Option ℕ} (h : ending ≠ some 0) :
    Step mem ⟨ip, none, ending⟩ ⟨ip + 1, none, countdown (mem ip).sig ending⟩
  | taken {ip t : ℕ} {ending : Option ℕ} (h : ending ≠ some 0) (hb : (mem ip).sig = .branch)
    (ht : IsTarget (mem ip) ip t) :
    Step mem ⟨ip, none, ending⟩ ⟨ip + 1, some (2, t), countdown (mem ip).sig ending⟩
  | slot {ip k t : ℕ} {ending : Option ℕ} (h : ending ≠ some 0) :
    Step mem ⟨ip, some (k + 1, t), ending⟩ ⟨ip + 1, some (k, t), countdown (mem ip).sig ending⟩
  | jump {ip t : ℕ} {ending : Option ℕ} (h : ending ≠ some 0) :
    Step mem ⟨ip, some (0, t), ending⟩ ⟨t, none, countdown (mem ip).sig ending⟩

/-- The states a shader can be in, started at its first instruction. -/
def Reaches (mem : ℕ → Inst) : Pc → Prop := Relation.ReflTransGen (Step mem) ⟨0, none, none⟩

/-- The shader can execute the instruction at `i`. -/
def Executes (mem : ℕ → Inst) (i : ℕ) : Prop := ∃ s, Reaches mem s ∧ s.ending ≠ some 0 ∧ s.ip = i

/-! ## Ends of the program -/

/-- The instruction at `i` signals the end of the program. -/
def IsEnd (mem : ℕ → Inst) (i : ℕ) : Prop := (mem i).sig = .progEnd

instance (mem : ℕ → Inst) (i : ℕ) : Decidable (IsEnd mem i) := by
  unfold IsEnd
  infer_instance

lemma countdown_of_isEnd (h : IsEnd mem i) : countdown (mem i).sig none = some 2 :=
  if_pos h

lemma countdown_of_not_isEnd (h : ¬ IsEnd mem i) : countdown (mem i).sig none = none :=
  if_neg h

def IsFirstEnd (mem : ℕ → Inst) (p : ℕ) : Prop := IsEnd mem p ∧ ∀ i < p, ¬ IsEnd mem i

/-- The first end of the program that has no other one in the two instructions behind it: where
both passes of the validation stop. -/
def IsShaderEnd (mem : ℕ → Inst) (e : ℕ) : Prop :=
  IsEnd mem e ∧ ¬ IsEnd mem (e + 1) ∧ ¬ IsEnd mem (e + 2) ∧
    ∀ q < e, IsEnd mem q → IsEnd mem (q + 1) ∨ IsEnd mem (q + 2)

section Ends

variable {p e : ℕ}

lemma IsFirstEnd.unique {p' : ℕ} (h : IsFirstEnd mem p) (h' : IsFirstEnd mem p') : p = p' := by
  rcases Nat.lt_trichotomy p p' with hlt | heq | hlt
  · exact absurd h.1 (h'.2 p hlt)
  · exact heq
  · exact absurd h'.1 (h.2 p' hlt)

lemma IsShaderEnd.unique {e' : ℕ} (h : IsShaderEnd mem e) (h' : IsShaderEnd mem e') : e = e' := by
  rcases Nat.lt_trichotomy e e' with hlt | heq | hlt
  · rcases h'.2.2.2 e hlt h.1 with hq | hq
    · exact absurd hq h.2.1
    · exact absurd hq h.2.2.1
  · exact heq
  · rcases h.2.2.2 e' hlt h'.1 with hq | hq
    · exact absurd hq h'.2.1
    · exact absurd hq h'.2.2.1

lemma IsFirstEnd.le_shaderEnd (h : IsFirstEnd mem p) (he : IsShaderEnd mem e) : p ≤ e := by
  by_contra hlt
  exact h.2 e (by omega) he.1

lemma exists_first_end_from (he : IsEnd mem e) (ht : t ≤ e) :
    ∃ q, t ≤ q ∧ q ≤ e ∧ IsEnd mem q ∧ ∀ i, t ≤ i → i < q → ¬ IsEnd mem i := by
  have hex : ∃ q, t ≤ q ∧ IsEnd mem q := ⟨e, ht, he⟩
  exact ⟨Nat.find hex, (Nat.find_spec hex).1, Nat.find_min' hex ⟨ht, he⟩, (Nat.find_spec hex).2,
    fun i hi hlt hend => Nat.find_min hex hlt ⟨hi, hend⟩⟩

end Ends

/-! ## The first pass -/

/-- What the first pass requires of a branch by itself, in an object of `n` instructions. -/
structure GoodBranch (mem : ℕ → Inst) (n b : ℕ) : Prop where
  rel : (mem b).branchRel = true
  reg : (mem b).branchReg = false
  target : branchTargetIp (mem b) b < n
  after : b + 4 < n

/-- The invariant of the first pass, before the instruction at `ip`. -/
structure ScanInv (mem : ℕ → Inst) (n ip : ℕ) (s : BranchScan) : Prop where
  /-- Either no end of the program has been found, or `q` is the last one found, and each one
  before it has led the pass to the next one. -/
  ends : (s.maxIp = n ∧ ∀ i < ip, ¬ IsEnd mem i) ∨
    ∃ q, q < ip ∧ ip ≤ q + 3 ∧ IsEnd mem q ∧ s.maxIp = q + 3 ∧
      (∀ i, q < i → i < ip → ¬ IsEnd mem i) ∧
      (∀ q' < q, IsEnd mem q' → IsEnd mem (q' + 1) ∨ IsEnd mem (q' + 2)) ∧
      ∃ i < n, i ≤ q ∧ IsEnd mem i
  branches : ∀ b < ip, (mem b).sig = .branch →
    GoodBranch mem n b ∧ (∀ i < b, ¬ IsEnd mem i) ∧ b + 4 ≤ s.maxBranchTarget

lemma scanBranch_branch {inst : Inst} (hsig : inst.sig = .branch)
    (h : scanBranch inst ip s = some s') :
    inst.branchReg = false ∧ inst.branchRel = true ∧ branchTargetIp inst ip < s.maxIp ∧
      ip + 4 < s.maxIp ∧ s'.maxIp = s.maxIp ∧
      s'.maxBranchTarget = max s.maxBranchTarget (ip + 4) := by
  rw [scanBranch, if_neg (by simp [hsig]), if_neg (by simp [hsig])] at h
  split_ifs at h with hdelay hreg hrel halign htarget hafter
  cases h
  exact ⟨by simpa using hreg, by simpa using hrel, by omega, by omega, rfl, rfl⟩

/-- An end within two instructions of the last one continues the chain of ends. -/
lemma chain_isEnd {q : ℕ} (hend : IsEnd mem ip) (hle : ip ≤ q + 2)
    (hno : ∀ i, q < i → i < ip → ¬ IsEnd mem i)
    (hchain : ∀ q' < q, IsEnd mem q' → IsEnd mem (q' + 1) ∨ IsEnd mem (q' + 2)) :
    ∀ q' < ip, IsEnd mem q' → IsEnd mem (q' + 1) ∨ IsEnd mem (q' + 2) := by
  intro q' hq' hend'
  rcases Nat.lt_trichotomy q' q with hlt | heq | hlt
  · exact hchain q' hlt hend'
  · rcases (show ip = q' + 1 ∨ ip = q' + 2 by omega) with h1 | h2
    · exact .inl (h1 ▸ hend)
    · exact .inr (h2 ▸ hend)
  · exact absurd hend' (hno q' hlt hq')

lemma ScanInv.step {n : ℕ} (h : ScanInv mem n ip s) (hip : ip < s.maxIp)
    (hs : scanBranch (mem ip) ip s = some s') :
    ScanInv mem n (ip + 1) s' := by
  by_cases hend : (mem ip).sig = .progEnd
  · rw [scanBranch, if_pos hend] at hs
    cases hs
    refine ⟨.inr ⟨ip, by omega, by omega, hend, rfl, by omega, ?_, ?_⟩, fun b hb hbr => ?_⟩
    · rcases h.ends with ⟨-, hno⟩ | ⟨q, -, -, -, hmax, hno, hchain, -⟩
      · exact fun q' hq' hend' => absurd hend' (hno q' hq')
      · exact chain_isEnd hend (by omega) hno hchain
    · rcases h.ends with ⟨hmax, -⟩ | ⟨q, hqip, -, -, -, -, -, i, hi, hiq, hie⟩
      · exact ⟨ip, by omega, le_refl _, hend⟩
      · exact ⟨i, hi, by omega, hie⟩
    · have hbip : b < ip := by
        rcases Nat.lt_succ_iff_lt_or_eq.1 hb with hlt | rfl
        · exact hlt
        · rw [hend] at hbr
          cases hbr
      exact h.branches b hbip hbr
  · have hno : ¬ IsEnd mem ip := hend
    by_cases hbr : (mem ip).sig = .branch
    · obtain ⟨hreg, hrel, htarget, hafter, hmax', hmbt⟩ := scanBranch_branch hbr hs
      rcases h.ends with ⟨hmax, hnone⟩ | ⟨q, hqip, -, -, hmax, -⟩
      · refine ⟨.inl ⟨hmax'.trans hmax, Nat.forall_lt_succ_right.2 ⟨hnone, hno⟩⟩,
          fun b hb hb' => ?_⟩
        rcases Nat.lt_succ_iff_lt_or_eq.1 hb with hlt | rfl
        · obtain ⟨hgood, hbefore, hle⟩ := h.branches b hlt hb'
          exact ⟨hgood, hbefore, by omega⟩
        · exact ⟨⟨hrel, hreg, by omega, by omega⟩, hnone, by omega⟩
      · omega
    · rw [scanBranch, if_neg hend, if_pos hbr] at hs
      cases hs
      refine ⟨?_, fun b hb hb' => ?_⟩
      · rcases h.ends with ⟨hmax, hnone⟩ | ⟨q, hqip, hle, hq, hmax, hnone, hrest⟩
        · exact .inl ⟨hmax, Nat.forall_lt_succ_right.2 ⟨hnone, hno⟩⟩
        · refine .inr ⟨q, by omega, by omega, hq, hmax, fun i hqi hi => ?_, hrest⟩
          rcases Nat.lt_succ_iff_lt_or_eq.1 hi with hlt | rfl
          · exact hnone i hqi hlt
          · exact hno
      · rcases Nat.lt_succ_iff_lt_or_eq.1 hb with hlt | rfl
        · exact h.branches b hlt hb'
        · exact absurd hb' hbr

/-- What every turn of the first pass keeps holds at its end. -/
lemma scanBranches_inv {P : ℕ → BranchScan → Prop} {fuel : ℕ}
    (hs : scanBranches mem fuel ip s = some s') (h : P ip s)
    (hstep : ∀ {ip s s'}, P ip s → ip < s.maxIp → scanBranch (mem ip) ip s = some s' →
      P (ip + 1) s') : ∃ ip', s'.maxIp ≤ ip' ∧ P ip' s' := by
  induction fuel generalizing ip s with
  | zero => cases hs
  | succ fuel ih =>
    rw [scanBranches] at hs
    split_ifs at hs with hip
    · obtain ⟨s1, hs1, hs'⟩ := bind_eq_some_iff.1 hs
      exact ih hs' (hstep h hip hs1)
    · cases hs
      exact ⟨ip, by omega, h⟩

/-- What the first pass establishes of an object in which it finds the end of the program. -/
structure BranchesOk (mem : ℕ → Inst) (n p e : ℕ) : Prop where
  first : IsFirstEnd mem p
  shaderEnd : IsShaderEnd mem e
  inside : p < n
  branches : ∀ b < e + 3, (mem b).sig = .branch → b < p ∧ b + 4 ≤ e ∧ GoodBranch mem n b

lemma validateBranches_spec (h : validateBranches bo = some s) :
    (s.maxIp = bo.len ∧ ∀ i < bo.len, ¬ IsEnd bo.mem i) ∨
      ∃ p e, s.maxIp = e + 3 ∧ BranchesOk bo.mem bo.len p e := by
  obtain ⟨s1, hscan, hlast⟩ := bind_eq_some_iff.1 h
  split_ifs at hlast with hmbt
  cases hlast
  have hinit : ScanInv bo.mem bo.len 0 ⟨bo.len, fun _ => false, 0, -2⟩ :=
    ⟨.inl ⟨rfl, by omega⟩, by omega⟩
  obtain ⟨ip, hip, hinv⟩ := scanBranches_inv hscan hinit .step
  rcases hinv.ends with ⟨hmax, hnone⟩ | ⟨e, heip, hle, he, hmax, hnone, hchain, i, hin, hie, hi⟩
  · exact .inl ⟨hmax, fun i hi => hnone i (by omega)⟩
  · obtain ⟨p, -, hpi, hp, hfirst⟩ := exists_first_end_from hi (Nat.zero_le i)
    refine .inr ⟨p, e, hmax, ⟨hp, fun j hj => hfirst j (Nat.zero_le _) hj⟩,
      ⟨he, hnone _ (by omega) (by omega), hnone _ (by omega) (by omega), hchain⟩, by omega, ?_⟩
    intro b hb hbr
    obtain ⟨hgood, hbefore, hbt⟩ := hinv.branches b (by omega) hbr
    have hbp : b < p := by
      by_contra hpb
      rcases Nat.eq_or_lt_of_le (Nat.le_of_not_lt hpb) with rfl | hlt
      · rw [IsEnd, hbr] at hp
        cases hp
      · exact hbefore p hlt hp
    exact ⟨hbp, by omega, hgood⟩

/-! ## The second pass -/

/-- The invariant of the second pass, before the instruction at `ip`. -/
def LoopInv (mem : ℕ → Inst) (ip : ℕ) (l : LoopState) : Prop :=
  (l.foundShaderEnd = false ∧ ∀ i < ip, ¬ IsEnd mem i) ∨
    (l.foundShaderEnd = true ∧ l.shaderEndIp < ip ∧ ip ≤ l.shaderEndIp + 2 ∧
      IsEnd mem l.shaderEndIp ∧ (∀ i, l.shaderEndIp < i → i < ip → ¬ IsEnd mem i) ∧
      ∀ q < l.shaderEndIp, IsEnd mem q → IsEnd mem (q + 1) ∨ IsEnd mem (q + 2))

lemma LoopInv.step {l l' : LoopState} (h : LoopInv bo.mem ip l) (hs : PassFrame bo ip l l') :
    (l'.foundShaderEnd = true ∧ ip = l'.shaderEndIp + 2 ∧ IsShaderEnd bo.mem l'.shaderEndIp) ∨
      (¬ (l'.foundShaderEnd = true ∧ ip = l'.shaderEndIp + 2) ∧ LoopInv bo.mem (ip + 1) l') := by
  by_cases hend : (bo.mem ip).sig = .progEnd
  · have hip : l'.shaderEndIp = ip := by rw [hs.shaderEndIp, if_pos hend]
    have hfound : l'.foundShaderEnd = true := by simp [hs.foundShaderEnd, hend]
    refine .inr ⟨by omega, .inr ⟨hfound, by omega, by omega, hip ▸ hend, by omega, ?_⟩⟩
    rw [hip]
    rcases h with ⟨-, hno⟩ | ⟨-, -, hle, -, hno, hchain⟩
    · exact fun q hq hqend => absurd hqend (hno q hq)
    · exact chain_isEnd hend hle hno hchain
  · have hip : l'.shaderEndIp = l.shaderEndIp := by rw [hs.shaderEndIp, if_neg hend]
    have hfound : l'.foundShaderEnd = l.foundShaderEnd := by simp [hs.foundShaderEnd, hend]
    have hno' : ¬ IsEnd bo.mem ip := hend
    rw [hip, hfound]
    rcases h with ⟨hf, hno⟩ | ⟨hf, hlt, hle, hq, hno, hchain⟩
    · exact .inr ⟨by simp [hf], .inl ⟨hfound.trans hf, Nat.forall_lt_succ_right.2 ⟨hno, hno'⟩⟩⟩
    · have hall : ∀ i, l.shaderEndIp < i → i < ip + 1 → ¬ IsEnd bo.mem i := by
        intro i hi hi'
        rcases Nat.lt_succ_iff_lt_or_eq.1 hi' with h1 | rfl
        · exact hno i hi h1
        · exact hno'
      by_cases hbreak : ip = l.shaderEndIp + 2
      · exact .inl ⟨hf, hbreak, hq, hall _ (by omega) (by omega), hall _ (by omega) (by omega),
          hchain⟩
      · refine .inr ⟨by omega, .inr ?_⟩
        rw [hfound, hip]
        exact ⟨hf, by omega, by omega, hq, hall, hchain⟩

lemma validateInsts_spec {stray : Stray} {fuel ip' : ℕ} {l l' : LoopState}
    (h : LoopInv bo.mem ip l) (hip : ip ≤ l.state.maxIp)
    (hs : validateInsts stray bo fuel ip l = some (ip', l')) :
    l'.state.maxIp = l.state.maxIp ∧ (ip' = l'.state.maxIp ∨
      (l'.shaderEndIp + 2 < l'.state.maxIp ∧ IsShaderEnd bo.mem l'.shaderEndIp)) := by
  induction fuel generalizing ip l with
  | zero => cases hs
  | succ fuel ih =>
    rw [validateInsts] at hs
    split_ifs at hs with hlt
    · obtain ⟨l1, hl1, hs⟩ := bind_eq_some_iff.1 hs
      have hframe := validateInst_frame hl1
      rcases h.step hframe with ⟨hfound, hbreak, hend⟩ | ⟨hgo, hinv⟩
      · rw [if_pos ⟨hfound, hbreak⟩] at hs
        cases hs
        exact ⟨hframe.maxIp, .inr ⟨by rw [hframe.maxIp]; omega, hend⟩⟩
      · rw [if_neg hgo] at hs
        obtain ⟨hmax, hres⟩ := ih hinv (by rw [hframe.maxIp]; omega) hs
        exact ⟨hmax.trans hframe.maxIp, hres⟩
    · cases hs
      exact ⟨rfl, .inl (by omega)⟩

/-- The value of `shader_end_ip` behind the loop of `vc4_validate_shader`. -/
def shaderEndIp (stray : Stray) (bo : ShaderBo) : Option ℕ :=
  (validateBranches bo).bind fun scan => (validateLoop stray bo scan).map fun p => p.2.shaderEndIp

lemma validateShader_eq {stray : Stray} {info : ValidatedShaderInfo}
    (h : validateShader stray bo = some info) :
    ∃ scan ip l, validateBranches bo = some scan ∧ validateLoop stray bo scan = some (ip, l) ∧
      ip ≠ l.state.maxIp ∧ shaderEndIp stray bo = some l.shaderEndIp ∧
      finishShader ip l = some info := by
  obtain ⟨scan, hscan, h⟩ := bind_eq_some_iff.1 h
  obtain ⟨⟨ip, l⟩, hloop, hfin⟩ := bind_eq_some_iff.1 h
  refine ⟨scan, ip, l, hscan, hloop, fun heq => ?_, ?_, hfin⟩
  · simp [finishShader, heq] at hfin
  · rw [shaderEndIp, hscan, bind_some, hloop]
    rfl

lemma validateShader_ends {stray : Stray} {info : ValidatedShaderInfo}
    (h : validateShader stray bo = some info) :
    ∃ p e, shaderEndIp stray bo = some e ∧ BranchesOk bo.mem bo.len p e := by
  obtain ⟨scan, ip, l, hscan, hloop, hne, hout, -⟩ := validateShader_eq h
  have hinv : LoopInv bo.mem 0 (initLoop scan) := .inl ⟨rfl, by omega⟩
  obtain ⟨hmaxIp, hres⟩ := validateInsts_spec hinv (Nat.zero_le _) hloop
  obtain ⟨hlt, hend⟩ := hres.resolve_left hne
  rcases validateBranches_spec hscan with ⟨hmax, hnone⟩ | ⟨p, e, -, hok⟩
  · have hscanMax : l.state.maxIp = scan.maxIp := hmaxIp
    exact absurd hend.1 (hnone _ (by omega))
  · exact ⟨p, e, by rw [hout, hend.unique hok.shaderEnd], hok⟩

/-! ## The runs of an accepted shader -/

/-- The run that falls through from `t` to the end of the program does not leave an object of `n`
instructions. -/
def LineInside (mem : ℕ → Inst) (n t : ℕ) : Prop :=
  ∀ q, t ≤ q → IsEnd mem q → (∀ i, t ≤ i → i < q → ¬ IsEnd mem i) → q + 2 < n

/-- What the validation does not check. The first end of the program, at `p`, leaves room for
its two instructions; every branch before it leads to an instruction up to the end `e` at which
the validation stops, from which on the same holds. A branch with the end of the program in its
delay slots executes at most two instructions at its target. -/
structure StaysInside (mem : ℕ → Inst) (n p e : ℕ) : Prop where
  fallThrough : p + 2 < n
  line : ∀ b, b + 4 ≤ p → (mem b).sig = .branch →
    branchTargetIp (mem b) b ≤ e ∧ LineInside mem n (branchTargetIp (mem b) b)
  slotThree : ∀ b, p = b + 3 → (mem b).sig = .branch →
    branchTargetIp (mem b) b ≤ e + 1 ∧ branchTargetIp (mem b) b + 1 < n
  slotTwo : ∀ b, p = b + 2 → (mem b).sig = .branch → branchTargetIp (mem b) b ≤ e + 2

/-- The states a shader that stays inside can be in: between branches; in the delay slots of a
branch; in the last instructions; in the delay slots of a branch that contain the end of the
program; and in the delay slots of a branch among the last instructions, which is not followed any
more. -/
inductive Inside (mem : ℕ → Inst) (n p e : ℕ) : Pc → Prop
  | line {ip : ℕ} (hip : ip ≤ e) (hline : LineInside mem n ip) : Inside mem n p e ⟨ip, none, none⟩
  | slot {b k : ℕ} (hb : b < p) (hbr : (mem b).sig = .branch) (hk : k ≤ 2)
    (hno : ∀ i, b < i → i < b + 3 - k → ¬ IsEnd mem i) :
    Inside mem n p e ⟨b + 3 - k, some (k, branchTargetIp (mem b) b), none⟩
  | last {ip m : ℕ} (hm : m ≤ 2) (hroom : m ≠ 0 → ip + m ≤ e + 3 ∧ ip + m ≤ n) :
    Inside mem n p e ⟨ip, none, some m⟩
  | slotLast {b k m : ℕ} (hb : b < p) (hbr : (mem b).sig = .branch) (hk : k ≤ 2) (hm : m ≤ 2)
    (hp : b + 3 - k + m = p + 3) :
    Inside mem n p e ⟨b + 3 - k, some (k, branchTargetIp (mem b) b), some m⟩
  | stuck {ip k t m : ℕ} (hm : m ≤ k + 1) (hroom : m ≠ 0 → ip + m ≤ e + 3 ∧ ip + m ≤ n) :
    Inside mem n p e ⟨ip, some (k, t), some m⟩

section Run

variable {n p e : ℕ}

lemma LineInside.of_end (h : LineInside mem n t) (ht : IsEnd mem t) : t + 2 < n :=
  h t (Nat.le_refl _) ht (by omega)

lemma LineInside.succ (h : LineInside mem n t) (ht : ¬ IsEnd mem t) :
    LineInside mem n (t + 1) := by
  intro q hq hend hfirst
  refine h q (by omega) hend fun i hi hiq => ?_
  rcases Nat.eq_or_lt_of_le hi with rfl | hlt
  · exact ht
  · exact hfirst i hlt hiq

variable (hok : BranchesOk mem n p e)
include hok

lemma Inside.bound {s : Pc} (h : Inside mem n p e s) (hrun : s.ending ≠ some 0) :
    s.ip < n ∧ s.ip ≤ e + 2 := by
  have hpe := hok.first.le_shaderEnd hok.shaderEnd
  cases h with
  | line hip hline =>
    obtain ⟨q, hq, -, hend, hfirst⟩ := exists_first_end_from hok.shaderEnd.1 hip
    have := hline q hq hend hfirst
    constructor <;> dsimp only <;> omega
  | slot hb hbr hk hno | slotLast hb hbr hk hm hp =>
    obtain ⟨-, hbe, hgood⟩ := hok.branches _ (by omega) hbr
    have := hgood.after
    constructor <;> dsimp only <;> omega
  | @last ip m hm hroom | @stuck ip k t m hm hroom =>
    have hm0 : m ≠ 0 := fun h0 => hrun (by rw [h0])
    constructor <;> dsimp only <;> omega

lemma first_end_of_slot {b : ℕ} (hb : b < p) (hbr : (mem b).sig = .branch) (hi : IsEnd mem i)
    (hbi : b < i) (hno : ∀ j, b < j → j < i → ¬ IsEnd mem j) : p = i := by
  refine hok.first.unique ⟨hi, fun j hj => ?_⟩
  rcases Nat.lt_trichotomy j b with hlt | rfl | hlt
  · exact hok.first.2 j (by omega)
  · simp [IsEnd, hbr]
  · exact hno j hlt hj

lemma Inside.step (hs : StaysInside mem n p e) {s s' : Pc} (h : Inside mem n p e s)
    (hstep : Step mem s s') : Inside mem n p e s' := by
  have hpe := hok.first.le_shaderEnd hok.shaderEnd
  cases h with
  | @line ip hip hline =>
    -- in the line, a branch is before the first end of the program
    have hnext : ¬ IsEnd mem ip → Inside mem n p e ⟨ip + 1, none, none⟩ := by
      intro hno
      have hne : ip ≠ e := fun h => hno (h ▸ hok.shaderEnd.1)
      exact .line (by omega) (hline.succ hno)
    cases hstep with
    | next _ =>
      by_cases hend : (mem ip).sig = .progEnd
      · rw [countdown, if_pos hend]
        have := hline.of_end hend
        exact .last (by omega) fun _ => by omega
      · rw [countdown, if_neg hend]
        exact hnext hend
    | taken _ hb ht =>
      obtain ⟨hbp, -, hgood⟩ := hok.branches ip (by omega) hb
      rw [countdown, if_neg (by simp [hb]), ht hgood.rel hgood.reg]
      exact .slot (k := 2) hbp hb (by omega) (by omega)
  | @slot b k hb hbr hk hno =>
    cases hstep with
    | @slot _ k _ _ _ =>
      have hip : b + 3 - (k + 1) + 1 = b + 3 - k := by omega
      by_cases hend : (mem (b + 3 - (k + 1))).sig = .progEnd
      · have hp := first_end_of_slot hok hb hbr hend (by omega) hno
        rw [countdown, if_pos hend, hip]
        exact .slotLast hb hbr (by omega) (by omega) (by omega)
      · rw [countdown, if_neg hend, hip]
        refine .slot hb hbr (by omega) fun i hi hi' => ?_
        rcases Nat.lt_or_ge i (b + 3 - (k + 1)) with hlt | hge
        · exact hno i hi hlt
        · exact (show i = b + 3 - (k + 1) by omega) ▸ hend
    | jump _ =>
      by_cases hend : (mem (b + 3 - 0)).sig = .progEnd
      · have hp := first_end_of_slot hok hb hbr hend (by omega) hno
        obtain ⟨h1, h2⟩ := hs.slotThree b hp hbr
        rw [countdown, if_pos hend]
        exact .last (by omega) fun _ => by omega
      · have hp : b + 4 ≤ p := by
          by_contra hlt
          rcases Nat.lt_or_ge p (b + 3) with h1 | h1
          · exact hno p hb h1 hok.first.1
          · exact hend ((show p = b + 3 - 0 by omega) ▸ hok.first.1)
        obtain ⟨h1, h2⟩ := hs.line b hp hbr
        rw [countdown, if_neg hend]
        exact .line h1 h2
  | @last ip m hm hroom =>
    cases hstep with
    | next h0 =>
      exact .last (by omega) fun _ => by omega
    | taken h0 hb ht =>
      exact .stuck (by omega) fun _ => by omega
  | @slotLast b k m hb hbr hk hm hp =>
    cases hstep with
    | @slot _ k _ _ h0 =>
      have hip : b + 3 - (k + 1) + 1 = b + 3 - k := by omega
      rw [hip]
      exact .slotLast hb hbr (by omega) (by omega) (by omega)
    | jump h0 =>
      refine .last (by omega) fun hm1 => ?_
      have h1 := hs.slotTwo b (by omega) hbr
      have h2 := (hok.branches b (by omega) hbr).2.2.target
      omega
  | @stuck ip k t m hm hroom =>
    cases hstep with
    | slot h0 =>
      exact .stuck (by omega) fun _ => by omega
    | jump h0 => exact .last (by omega) fun hm1 => by omega

lemma StaysInside.bound (hs : StaysInside mem n p e) (hi : Executes mem i) :
    i < n ∧ i ≤ e + 2 := by
  obtain ⟨s, hreach, hrun, rfl⟩ := hi
  have hinside : Inside mem n p e s := by
    clear hrun
    induction hreach with
    | refl =>
      refine .line (Nat.zero_le _) fun q _ hq hfirst => ?_
      have hqp := hok.first.unique ⟨hq, fun j hj => hfirst j (Nat.zero_le _) hj⟩
      have := hs.fallThrough
      omega
    | tail _ hstep ih => exact ih.step hok hs hstep
  exact hinside.bound hok hrun

end Run

/-! ## Runs that leave the object -/

section Leave

lemma step_taken (hbr : (mem ip).sig = .branch) :
    Step mem ⟨ip, none, none⟩ ⟨ip + 1, some (2, branchTargetIp (mem ip) ip), none⟩ := by
  have hstep : Step mem ⟨ip, none, none⟩ _ := .taken (by simp) hbr fun _ _ => rfl
  rwa [countdown_of_not_isEnd (by simp [IsEnd, hbr])] at hstep

section Sequencer

variable {k : ℕ} (hno : ¬ IsEnd mem ip)
include hno

lemma step_next : Step mem ⟨ip, none, none⟩ ⟨ip + 1, none, none⟩ := by
  have hstep : Step mem ⟨ip, none, none⟩ _ := .next (by simp)
  rwa [countdown_of_not_isEnd hno] at hstep

lemma step_slot : Step mem ⟨ip, some (k + 1, t), none⟩ ⟨ip + 1, some (k, t), none⟩ := by
  have hstep : Step mem ⟨ip, some (k + 1, t), none⟩ _ := .slot (by simp)
  rwa [countdown_of_not_isEnd hno] at hstep

end Sequencer

lemma Reaches.line {j : ℕ} (h : Reaches mem ⟨i, none, none⟩) (hij : i ≤ j)
    (hno : ∀ k, i ≤ k → k < j → ¬ IsEnd mem k) : Reaches mem ⟨j, none, none⟩ := by
  induction j, hij using Nat.le_induction with
  | base => exact h
  | succ j hij ih =>
    have hreach := ih fun k hik hkj => hno k hik (by omega)
    exact hreach.tail (step_next (hno j hij (by omega)))

lemma Reaches.executes_last {q : ℕ} (h : Reaches mem ⟨q, none, none⟩) (hq : IsEnd mem q) :
    Executes mem (q + 2) := by
  have hstep : Step mem ⟨q, none, none⟩ _ := .next (by simp)
  rw [countdown_of_isEnd hq] at hstep
  exact ⟨⟨q + 2, none, some 1⟩, (h.tail hstep).tail (.next (by simp)), by simp, rfl⟩

lemma Reaches.taken {b : ℕ} (h : Reaches mem ⟨b, none, none⟩) (hbr : (mem b).sig = .branch) :
    Reaches mem ⟨b + 1, some (2, branchTargetIp (mem b) b), none⟩ :=
  h.tail (step_taken hbr)

lemma Reaches.slot {k : ℕ} (h : Reaches mem ⟨ip, some (k + 1, t), none⟩) (hno : ¬ IsEnd mem ip) :
    Reaches mem ⟨ip + 1, some (k, t), none⟩ :=
  h.tail (step_slot hno)

lemma Reaches.jump (h : Reaches mem ⟨ip, some (0, t), none⟩) :
    Reaches mem ⟨t, none, countdown (mem ip).sig none⟩ :=
  h.tail (.jump (by simp))

variable {n p e : ℕ} (hok : BranchesOk mem n p e)
  (hall : ∀ i, Executes mem i → i < n ∧ i ≤ e + 2)
include hok

lemma BranchesOk.reaches (hi : i ≤ p) : Reaches mem ⟨i, none, none⟩ :=
  Reaches.line .refl (Nat.zero_le i) fun k _ hk => hok.first.2 k (by omega)

lemma BranchesOk.reaches_target {b : ℕ} (hb : b + 3 ≤ p) (hbr : (mem b).sig = .branch) :
    Reaches mem ⟨branchTargetIp (mem b) b, none, countdown (mem (b + 3)).sig none⟩ :=
  ((((hok.reaches (by omega)).taken hbr).slot (hok.first.2 _ (by omega))).slot
    (hok.first.2 _ (by omega))).jump

include hall

lemma BranchesOk.line_of_reaches (h : Reaches mem ⟨t, none, none⟩) :
    t ≤ e ∧ LineInside mem n t := by
  refine ⟨?_, fun q hq hend hfirst => (hall _ ((h.line hq hfirst).executes_last hend)).1⟩
  -- behind the end at which the validation stops, the run goes on to what was not checked
  by_contra hlt
  have hreach : Reaches mem ⟨max t (e + 3), none, none⟩ := by
    refine h.line (by omega) fun k hk hk' => ?_
    rcases (show k = e + 1 ∨ k = e + 2 by omega) with rfl | rfl
    · exact hok.shaderEnd.2.1
    · exact hok.shaderEnd.2.2.1
  have hexec : Executes mem (max t (e + 3)) := ⟨_, hreach, by simp, rfl⟩
  have := (hall _ hexec).2
  omega

lemma BranchesOk.staysInside : StaysInside mem n p e where
  fallThrough := (hall _ ((hok.reaches (Nat.le_refl p)).executes_last hok.first.1)).1
  line b hb hbr := by
    have hjump := hok.reaches_target (by omega) hbr
    rw [countdown_of_not_isEnd (hok.first.2 _ (by omega))] at hjump
    exact hok.line_of_reaches hall hjump
  slotThree b hp hbr := by
    have hjump := hok.reaches_target (by omega) hbr
    rw [countdown_of_isEnd (hp ▸ hok.first.1)] at hjump
    have hexec : Executes mem (branchTargetIp (mem b) b + 1) :=
      ⟨_, hjump.tail (.next (by simp)), by simp [countdown], rfl⟩
    have := hall _ hexec
    exact ⟨by omega, this.1⟩
  slotTwo b hp hbr := by
    have hslot := ((hok.reaches (by omega)).taken hbr).slot (hok.first.2 _ (by omega))
    have hstep : Step mem ⟨b + 1 + 1, some (1, branchTargetIp (mem b) b), none⟩ _ := .slot (by simp)
    rw [countdown_of_isEnd (hp ▸ hok.first.1)] at hstep
    have hjump := (hslot.tail hstep).tail (.jump (by simp))
    exact (hall _ ⟨_, hjump, by simp [countdown], rfl⟩).2

end Leave

/-- An accepted shader executes only instructions inside of its object that the validation has
examined, up to two behind `shader_end_ip`, exactly when its branches stay inside.

**Proof sketch.** The first pass gives the ends of the program and what is known of the branches
before them (`validateShader_ends`). If the branches stay inside, so does every state of the
sequencer, by induction over the run (`Inside.step`). Conversely the run that takes no branch
reaches every branch, and following it leads out of the object, or behind the instructions that
were checked, when its target does. -/
theorem executes_inside_iff {stray : Stray} {bo : ShaderBo} {info : ValidatedShaderInfo}
    (h : validateShader stray bo = some info) :
    ∃ p e, IsFirstEnd bo.mem p ∧ IsShaderEnd bo.mem e ∧ shaderEndIp stray bo = some e ∧
      ((∀ i, Executes bo.mem i → i < bo.len ∧ i ≤ e + 2) ↔ StaysInside bo.mem bo.len p e) := by
  obtain ⟨p, e, hend, hok⟩ := validateShader_ends h
  exact ⟨p, e, hok.first, hok.shaderEnd, hend, fun hall => hok.staysInside hall,
    fun hs i hi => hs.bound hok hi⟩

/-- A relative branch that does nothing else. -/
def relBranch (imm : Inst) : Inst := 15 <<< 60 ||| 1 <<< 51 ||| 39 <<< 38 ||| 39 <<< 32 ||| imm

/-- A page with a branch at `2` to the instruction `t`, the end of the program at `6`, and zeros,
which the QPU takes for breakpoints, from `9` on. -/
def branchOver (t : ℕ) : ShaderBo where
  mem i :=
    if i = 2 then relBranch (BitVec.ofInt 64 (8 * ((t : ℤ) - 6)) &&& 0xffffffff)
    else if i = 6 then signal 3
    else if i < 9 then signal 1
    else 0
  size := 4096
  size_le := page_le

/-- The validation accepts a branch over the end of the program, which it does not look behind. -/
theorem executes_outside :
    (validateShader noStray (branchOver 9)).isSome ∧
      shaderEndIp noStray (branchOver 9) = some 6 ∧ Executes (branchOver 9).mem 9 := by
  refine ⟨by decide +kernel, by decide +kernel, ?_⟩
  have hline : Reaches (branchOver 9).mem ⟨2, none, none⟩ :=
    Reaches.line .refl (Nat.zero_le 2) (by decide)
  have hslot := ((hline.taken (by decide)).slot (by decide)).slot (by decide)
  exact ⟨_, hslot.jump, by decide, by decide⟩

/-- A branch to the end of the program stays inside. -/
theorem executes_inside_iff_six :
    (validateShader noStray (branchOver 6)).isSome ∧
      shaderEndIp noStray (branchOver 6) = some 6 ∧
      ∀ i, Executes (branchOver 6).mem i → i < (branchOver 6).len ∧ i ≤ 6 + 2 := by
  have hsome : (validateShader noStray (branchOver 6)).isSome := by decide +kernel
  obtain ⟨info, hinfo⟩ := isSome_iff_exists.1 hsome
  have hend : IsEnd (branchOver 6).mem 6 := by decide
  obtain ⟨p, e, hp, he, hshader, hiff⟩ := executes_inside_iff hinfo
  obtain rfl := hp.unique ⟨hend, by decide⟩
  obtain rfl := he.unique ⟨hend, by decide, by decide, by decide⟩
  refine ⟨hsome, hshader, hiff.2
    ⟨by decide, fun b hb hbr => ?_, fun b hb hbr => ?_, fun b hb hbr => ?_⟩⟩
  · obtain rfl : b = 2 := by
      rcases (show b = 0 ∨ b = 1 ∨ b = 2 by omega) with rfl | rfl | rfl <;>
        first | rfl | exact absurd hbr (by decide)
    refine ⟨by decide, fun q hq _ hfirst => ?_⟩
    have : ¬ 6 < q := fun hlt => hfirst 6 (Nat.le_refl _) hlt hend
    have hlen : (branchOver 6).len = 512 := by decide
    omega
  · obtain rfl : b = 3 := by omega
    exact absurd hbr (by decide)
  · obtain rfl : b = 4 := by omega
    exact absurd hbr (by decide)

end KmsDrm.Vc4
