import KmsDrm.I915.CmdParser.Jump

/-!
# The remembered descriptor

The loop hands the descriptor of the last command to the lookup of the next one, which takes it
without a search if it fits under its own mask.

## Main results

* `I915.remembered_descriptor` — a parse without it gives the same result.
-/

namespace KmsDrm.I915

open KmsDrm.Lib

/-- Two descriptors treat a header alike. They are the same, or no entry fits the header and both
are default descriptors, which differ in the header they were filled in for. -/
structure SameFor (t : EngineTables) (h : BitVec 32) (d d' : CmdDescriptor) : Prop where
  desc : d = d' ∨ (∀ d₀ ∈ t.cmds, d₀.fits h = false) ∧ d = { d' with value := d.value }
  length : d.decodeLength h = d'.decodeLength h
  verdict : ∀ cmd len, checkCmd t d cmd len = checkCmd t d' cmd len
  jump : d.value = miBatchBufferStart ↔ d'.value = miBatchBufferStart

lemma Describes.sameFor {t : EngineTables} (hg : t.Good) {d d' : CmdDescriptor} {h : BitVec 32}
    (hd : Describes t d h) (hd' : Describes t d' h) : SameFor t h d d' := by
  have hjump := (hd.value_eq_bbStart hg).trans (hd'.value_eq_bbStart hg).symm
  have hlength : d.decodeLength h = d'.decodeLength h :=
    Option.some.inj ((hd.cmdLength hg).symm.trans (hd'.cmdLength hg))
  rcases id hd with ⟨hmem, hfit⟩ | ⟨hnone, -, h1, -, rfl⟩
  · obtain rfl := hd'.eq_of_fits hg hmem hfit
    exact ⟨.inl rfl, rfl, fun _ _ => rfl, Iff.rfl⟩
  · rcases hd' with ⟨hmem, hfit⟩ | ⟨-, -, h2, -, rfl⟩
    · simp [hnone d' hmem] at hfit
    · refine ⟨.inr ⟨hnone, rfl⟩, hlength, fun cmd len => ?_, hjump⟩
      have hskip (h' : BitVec 32) :
          (defaultDesc h' (t.getCmdLengthMask h)).has cmdDescSkip = true := by
        simp [CmdDescriptor.has, defaultDesc, cmdDescSkip]
      rw [checkCmd, checkCmd, if_pos (hskip h1), if_pos (hskip h2)]

section Run

variable (hash32Buf : BitVec 32 → ℕ → BitVec 32) (e : Engine) (req : Request)

/-- The state with a descriptor that does not fit the header. -/
def ParseState.forget (s : ParseState) : ParseState :=
  { s with desc := { noopDesc with value := s.mem s.offset ^^^ 1, mask := 1 } }

/-- The parse of a batch that forgets the last descriptor before each command. -/
def freshParser (ctx : Context) : Option Parsed :=
  match req.copy with
  | .error err => some ⟨err, ctx, none⟩
  | .ok mem =>
    (Loop.run (fun s => turn hash32Buf e req s.forget) (req.batchEnd + 1)
      (firstState e req ctx mem)).map fun r => ⟨r.1, r.2.ctx, some r.2⟩

/-- Two states differ at most in the descriptor. -/
def SameButDesc (s s' : ParseState) : Prop := ∃ desc, s' = { s with desc := desc }

/-- What a parse gives, except for the last descriptor. -/
def Parsed.outcome (p : Parsed) : ℤ × Context × Option (ℕ × Shadow) :=
  (p.ret, p.ctx, p.last.map fun s => (s.offset, s.mem))

variable {hash32Buf e req}

lemma findCmd_forget (s : ParseState) :
    findCmd hash32Buf e (s.mem s.offset) s.forget.desc = freshCmd hash32Buf e (s.mem s.offset) := by
  have hfit : s.forget.desc.fits (s.mem s.offset) = false := by
    simp [CmdDescriptor.fits, ParseState.forget]
  rw [findCmd, hfit]
  rfl

variable {alloc : ℕ → Bool} {dev : Device} {id : EngineId}
variable (he : initCmdParser hash32Buf alloc dev id = some e)
include he

lemma LoopInv.sameFor {mem : Shadow} {s : ParseState} (hi : LoopInv e mem s) :
    Option.Rel (SameFor e.tables (mem s.offset)) (findCmd hash32Buf e (mem s.offset) s.desc)
      (freshCmd hash32Buf e (mem s.offset)) := by
  obtain ⟨h0, hd0⟩ := hi.desc
  have hg := initCmdParser_good he
  cases hf : freshCmd hash32Buf e (mem s.offset) with
  | some d' =>
    obtain ⟨d, hd⟩ : ∃ d, findCmd hash32Buf e (mem s.offset) s.desc = some d := by
      rw [findCmd]
      split_ifs
      · exact ⟨_, rfl⟩
      · exact ⟨d', hf⟩
    rw [hd]
    exact .some ((findCmd_describes he hd0 hd).sameFor hg (freshCmd_describes he hf))
  | none =>
    cases hd : findCmd hash32Buf e (mem s.offset) s.desc with
    | none => exact .none
    | some d => simpa [hf] using (findCmd_describes he hd0 hd).freshCmd_isSome he

lemma LoopInv.turn_forget {mem : Shadow} {s s' : ParseState} (hi : LoopInv e mem s)
    (hs : SameButDesc s s') :
    Loop.Turn.Rel SameButDesc (fun r r' => r.1 = r'.1 ∧ SameButDesc r.2 r'.2)
      (turn hash32Buf e req s) (turn hash32Buf e req s'.forget) := by
  obtain ⟨desc, rfl⟩ := hs
  have hsame := hi.sameFor he
  have hfind : findCmd hash32Buf e _ _ = _ := findCmd_forget { s with desc := desc }
  obtain rfl := hi.mem
  generalize hs : { s with desc := desc }.forget = s' at hfind ⊢
  obtain ⟨d0, rfl⟩ : ∃ d0, s' = { s with desc := d0 } := ⟨_, hs.symm⟩
  unfold turn
  rw [hfind]
  by_cases hend : s.mem s.offset = miBatchBufferEnd
  · rw [if_pos hend, if_pos hend]
    exact .leave ⟨rfl, _, rfl⟩
  rw [if_neg hend, if_neg hend]
  generalize findCmd hash32Buf e (s.mem s.offset) s.desc = found at hsame
  generalize freshCmd hash32Buf e (s.mem s.offset) = fresh at hsame
  cases hsame with
  | none => exact .leave ⟨rfl, _, rfl⟩
  | some hd =>
    dsimp only
    rw [hd.length, hd.verdict]
    simp only [hd.jump]
    split_ifs
    · exact .leave ⟨rfl, _, rfl⟩
    · exact .leave ⟨rfl, _, rfl⟩
    · exact .leave ⟨rfl, _, rfl⟩
    · exact .leave ⟨rfl, _, rfl⟩
    · exact .next ⟨_, rfl⟩

/-- **Remembering the last descriptor changes nothing.** On every engine and for every batch, the
descriptor of each command the loop gets to and the one a new lookup gives treat its header
alike: they are the same entry, or both the default descriptor, with the same length and the
same verdict. The parse ends as the parse without memory does.

**Proof sketch.** Entries that fit one header are the same, and a default descriptor that fits
was filled in for a header with the same upper sixteen bits, which no entry and no length
decoding tells apart (`Describes.of_fits`). So the remembered descriptor, if it fits, is one of
the next header too, and all descriptors of a header treat it alike (`Describes.sameFor`). -/
theorem remembered_descriptor (req : Request) (ctx : Context) :
    (∀ mem s, req.copy = .ok mem →
      Loop.Reaches (turn hash32Buf e req) (firstState e req ctx mem) s →
      Option.Rel (SameFor e.tables (s.mem s.offset))
        (findCmd hash32Buf e (s.mem s.offset) s.desc) (freshCmd hash32Buf e (s.mem s.offset))) ∧
    (cmdParser hash32Buf e req ctx).isSome ∧
    (cmdParser hash32Buf e req ctx).map Parsed.outcome =
      (freshParser hash32Buf e req ctx).map Parsed.outcome := by
  refine ⟨fun mem s _ hreach => ?_, cmdParser_isSome he ctx, ?_⟩
  · have hi := reaches_inv he hreach
    rw [hi.mem]
    exact hi.sameFor he
  · rw [cmdParser, freshParser]
    cases req.copy with
    | error err => rfl
    | ok mem =>
      have hrel := Loop.run_rel (fun s t hi ht => (@turn_inv _ _ _ _ _ he req _ s t hi ht).1)
        (fun _ _ hi hs => hi.turn_forget he hs) (req.batchEnd + 1)
        (@firstState_inv _ _ _ _ _ he req ctx mem) ⟨(firstState e req ctx mem).desc, rfl⟩
      dsimp only
      revert hrel
      generalize Loop.run (turn hash32Buf e req) (req.batchEnd + 1) _ = out
      generalize Loop.run (fun s => turn hash32Buf e req s.forget) (req.batchEnd + 1) _ = out'
      rintro (⟨hret, desc, hs⟩ | -)
      · simp [Parsed.outcome, hret, hs]
      · rfl

end Run

theorem remembered_descriptor_backJump : ∃ e,
    initCmdParser identityHash (fun _ => true) gen9 .bcs = some e ∧
      (cmdParser identityHash e backJump .initial).map Parsed.outcome =
        (freshParser identityHash e backJump .initial).map Parsed.outcome :=
  ⟨_, backJumpCall.installed,
    (remembered_descriptor backJumpCall.installed backJump .initial).2.2⟩

end KmsDrm.I915
