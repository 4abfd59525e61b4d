import KmsDrm.Lib.BinSearch
import KmsDrm.Lib.Buckets
import KmsDrm.I915.CmdParser.Tables

/-!
# Engines of the command parser and their lookups

The initialisation of the command parser of an engine, and the lookup of a command header and
of a register in the tables it installs. The hashed lookup, with the descriptor the parse loop
remembers from the last command, is shown to be a lookup in the plain tables.

## Main definitions

* `I915.initCmdParser`, `I915.findCmd`, `I915.findReg` — the initialisation and the lookups.

## Main results

* `I915.findReg_eq_some_iff` — the lookup of a register is one in the plain tables.

## Implementation notes

`hash32_buf` is not part of this repository; it is an arbitrary function here.
-/

namespace KmsDrm.I915

open KmsDrm.Lib List BitVec

variable {addr h h' : BitVec 32} {d : CmdDescriptor} {r : RegDescriptor}

/-! ## The selected tables -/

/-- The device: its generation, and whether it is a Haswell, which is a gen7 device. -/
structure Device where
  gen : ℕ
  isHaswell : Bool
  gen_of_isHaswell : isHaswell = true → gen = 7

/-- The engines of a device. -/
inductive EngineId where
  | rcs | vcs | bcs | vecs | vcs2
  deriving DecidableEq, Repr

def instrClientShift : ℕ := 29
def instrMiClient : BitVec 32 := 0x0
def instrBcClient : BitVec 32 := 0x2
def instrRcClient : BitVec 32 := 0x3
def instrSubclientShift : ℕ := 27
def instrSubclientMask : BitVec 32 := 0x18000000
def instrMediaSubclient : BitVec 32 := 0x2
def instr26To24Mask : BitVec 32 := 0x7000000
def instr26To24Shift : ℕ := 24

def gen7RenderGetCmdLengthMask (cmdHeader : BitVec 32) : BitVec 32 :=
  let client := cmdHeader >>> instrClientShift
  let subclient := (cmdHeader &&& instrSubclientMask) >>> instrSubclientShift
  if client = instrMiClient then 0x3F
  else if client = instrRcClient then
    if subclient = instrMediaSubclient then 0xFFFF else 0xFF
  else 0

/-- The length mask of the gen7 video engines. -/
def gen7BsdGetCmdLengthMask (cmdHeader : BitVec 32) : BitVec 32 :=
  let client := cmdHeader >>> instrClientShift
  let subclient := (cmdHeader &&& instrSubclientMask) >>> instrSubclientShift
  let op := (cmdHeader &&& instr26To24Mask) >>> instr26To24Shift
  if client = instrMiClient then 0x3F
  else if client = instrRcClient then
    if subclient = instrMediaSubclient then
      if op = 6 then 0xFFFF else 0xFFF
    else 0xFF
  else 0

def gen7BltGetCmdLengthMask (cmdHeader : BitVec 32) : BitVec 32 :=
  let client := cmdHeader >>> instrClientShift
  if client = instrMiClient then 0x3F
  else if client = instrBcClient then 0xFF
  else 0

def gen9BltGetCmdLengthMask (cmdHeader : BitVec 32) : BitVec 32 :=
  let client := cmdHeader >>> instrClientShift
  if client = instrMiClient ∨ client = instrBcClient then 0xFF else 0

/-- The tables and the length decoding of an engine. -/
structure EngineTables where
  cmdTables : List (List CmdDescriptor)
  regTables : List (List RegDescriptor) := []
  getCmdLengthMask : BitVec 32 → BitVec 32

/-- The switch of `intel_engine_init_cmd_parser`; `none` where it returns without tables. -/
def engineTables (dev : Device) (id : EngineId) : Option EngineTables :=
  if dev.gen ≠ 7 ∧ ¬(dev.gen = 9 ∧ id = .bcs) then none
  else
    match id with
    | .rcs =>
      if dev.isHaswell then
        some ⟨hswRenderRingCmdTable, hswRenderRegTables, gen7RenderGetCmdLengthMask⟩
      else some ⟨gen7RenderCmdTable, ivbRenderRegTables, gen7RenderGetCmdLengthMask⟩
    | .vcs => some ⟨gen7VideoCmdTable, [], gen7BsdGetCmdLengthMask⟩
    | .bcs =>
      if dev.gen = 9 then some ⟨gen9BltCmdTable, gen9BltRegTables, gen9BltGetCmdLengthMask⟩
      else if dev.isHaswell then
        some ⟨hswBltRingCmdTable, hswBltRegTables, gen7BltGetCmdLengthMask⟩
      else some ⟨gen7BltCmdTable, ivbBltRegTables, gen7BltGetCmdLengthMask⟩
    | .vecs => some ⟨hswVeboxCmdTable, [], gen7BsdGetCmdLengthMask⟩
    | .vcs2 => none

def EngineTables.cmds (t : EngineTables) : List CmdDescriptor := t.cmdTables.flatten

/-- All whitelist entries of an engine. -/
def EngineTables.regs (t : EngineTables) : List RegDescriptor := t.regTables.flatten

/-! ## Installing the tables -/

/-- The loop that compares each entry of a table with the one before it; it goes on after a
failure and reports it in the end. -/
def checkSorted (previous : BitVec 32) (ret : Bool) : List (BitVec 32) → Bool
  | [] => ret
  | curr :: rest => checkSorted curr (ret && !decide (curr < previous)) rest

def validateCmdsSorted (tables : List (List CmdDescriptor)) : Bool :=
  tables.all fun table => checkSorted 0 true (table.map fun d => d.value &&& d.mask)

/-- Every whitelist is sorted. -/
def validateRegsSorted (tables : List (List RegDescriptor)) : Bool :=
  tables.all fun table => checkSorted 0 true (table.map RegDescriptor.addr)

/-- The shift that leaves the opcode of a header, by its client. -/
def cmdHeaderShift (x : BitVec 32) : ℕ :=
  if x >>> instrClientShift = instrRcClient then std3dOpcodeShift
  else if x >>> instrClientShift = instrBcClient then std2dOpcodeShift
  else stdMiOpcodeShift

def cmdHeaderKey (x : BitVec 32) : BitVec 32 := x >>> cmdHeaderShift x

/-- The order of the hash table of an engine. -/
def cmdHashOrder : ℕ := 9

/-- One possible hash function, to evaluate the parser with. -/
def identityHash : BitVec 32 → ℕ → BitVec 32 := fun val _ => val

section Hash

variable (hash32Buf : BitVec 32 → ℕ → BitVec 32)

/-- The bucket of a key. -/
def hash32 (val : BitVec 32) (bits : ℕ) : ℕ := (hash32Buf val bits >>> (32 - bits)).toNat

def cmdBucket (x : BitVec 32) : ℕ := hash32 hash32Buf (cmdHeaderKey x) cmdHashOrder

/-- Add the descriptors to the hash table; allocation `n` of a node may fail. -/
def initHashTable (alloc : ℕ → Bool) :
    ℕ → Buckets CmdDescriptor → List CmdDescriptor → Option (Buckets CmdDescriptor)
  | _, b, [] => some b
  | n, b, desc :: descs =>
    if alloc n then
      initHashTable alloc (n + 1) (b.add (cmdBucket hash32Buf desc.value) desc) descs
    else none

/-- An engine that uses the command parser. -/
structure Engine where
  device : Device
  tables : EngineTables
  cmdHash : Buckets CmdDescriptor

/-- The initialisation `intel_engine_init_cmd_parser`, for an engine that uses the parser
afterwards. -/
def initCmdParser (alloc : ℕ → Bool) (dev : Device) (id : EngineId) : Option Engine := do
  let tables ← engineTables dev id
  if !validateCmdsSorted tables.cmdTables then none
  else if !validateRegsSorted tables.regTables then none
  else do
    let cmdHash ← initHashTable hash32Buf alloc 0 Buckets.empty tables.cmds
    some ⟨dev, tables, cmdHash⟩

/-! ## Lookups -/

/-- The walk over the bucket of a header. -/
def findCmdInTable (e : Engine) (cmdHeader : BitVec 32) : Option CmdDescriptor :=
  (e.cmdHash (cmdBucket hash32Buf cmdHeader)).find? fun desc => desc.fits cmdHeader

/-- The descriptor that is filled in for a header without an entry. -/
def defaultDesc (cmdHeader mask : BitVec 32) : CmdDescriptor :=
  { noopDesc with
    value := cmdHeader
    mask := opcodeMask minOpcodeShift
    length := mask
    flags := cmdDescSkip }

/-- The descriptor of a header; `desc` is the one of the last command. -/
def findCmd (e : Engine) (cmdHeader : BitVec 32) (desc : CmdDescriptor) : Option CmdDescriptor :=
  if desc.fits cmdHeader then some desc
  else
    match findCmdInTable hash32Buf e cmdHeader with
    | some desc => some desc
    | none =>
      let mask := e.tables.getCmdLengthMask cmdHeader
      if mask = 0 then none else some (defaultDesc cmdHeader mask)

/-- The lookup as it is when no descriptor is remembered. -/
def freshCmd (e : Engine) (cmdHeader : BitVec 32) : Option CmdDescriptor :=
  match findCmdInTable hash32Buf e cmdHeader with
  | some desc => some desc
  | none =>
    let mask := e.tables.getCmdLengthMask cmdHeader
    if mask = 0 then none else some (defaultDesc cmdHeader mask)

end Hash

/-- The comparison of the binary search: the sign of `addr - reg` as an `int`. -/
def cmpReg (addr : BitVec 32) (reg : RegDescriptor) : Ordering := compare (addr - reg.addr).toInt 0

/-- The binary search in one whitelist. -/
def findRegIn (table : List RegDescriptor) (addr : BitVec 32) : Option RegDescriptor :=
  BinSearch.find (cmpReg addr) table.toArray

/-- The search in the whitelists of the engine, one after the other. -/
def findReg : List (List RegDescriptor) → BitVec 32 → Option RegDescriptor
  | [], _ => none
  | table :: tables, addr =>
    match findRegIn table addr with
    | some reg => some reg
    | none => findReg tables addr

/-! ## What holds of all tables -/

/-- The facts about the command descriptors of an engine that the parse relies on. They are
decidable and hold of each of the seven table sets. -/
structure CmdsGood (cmds : List CmdDescriptor) : Prop where
  /-- The descriptor the loop starts with is an entry. -/
  noop : noopDesc ∈ cmds
  /-- The identification bits of an entry are the bits from some shift on, at least the upper
  sixteen bits and at least those of the hash key. -/
  masks : ∀ d ∈ cmds, ∃ s ∈ [16, 22, 23], s ≤ cmdHeaderShift d.value ∧ d.mask = opcodeMask s
  /-- Two entries that can fit one header are the same. -/
  coherent : ∀ d ∈ cmds, ∀ d' ∈ cmds,
    (d.value ^^^ d'.value) &&& d.mask &&& d'.mask = 0 → d = d'
  /-- Lengths are positive and length fields have at most sixteen bits. -/
  lengths : ∀ d ∈ cmds, 0 < d.length.toNat ∧ d.length.toNat ≤ 0xFFFF
  /-- The jump has an entry. -/
  bbStart : ∃ d ∈ cmds, d.value = miBatchBufferStart ∧ d.mask = opcodeMask smi
  /-- There are at most three checks, each with a mask and a condition on one of the first two
  dwords. -/
  bits : ∀ d ∈ cmds, d.bits.length ≤ 3 ∧ ∀ b ∈ d.bits, b.mask ≠ 0 ∧ b.conditionOffset ≤ 1
  /-- Of a jump only the header is checked. -/
  jump : ∀ d ∈ cmds, d.value = miBatchBufferStart →
    d.has cmdDescRegister = false ∧ ∀ b ∈ d.bits, b.offset = 0 ∧ b.conditionOffset = 0
  noEnd : ∀ d ∈ cmds, d.fits miBatchBufferEnd = false
  /-- A command that is skipped has no other flag that is checked. -/
  skip : ∀ d ∈ cmds, d.has cmdDescSkip = true →
    d.has cmdDescReject = false ∧ d.has cmdDescRegister = false ∧ d.has cmdDescBitmask = false

instance (cmds : List CmdDescriptor) : Decidable (CmdsGood cmds) :=
  decidable_of_iff
    (noopDesc ∈ cmds ∧
      (∀ d ∈ cmds, ∃ s ∈ [16, 22, 23], s ≤ cmdHeaderShift d.value ∧ d.mask = opcodeMask s) ∧
      (∀ d ∈ cmds, ∀ d' ∈ cmds, (d.value ^^^ d'.value) &&& d.mask &&& d'.mask = 0 → d = d') ∧
      (∀ d ∈ cmds, 0 < d.length.toNat ∧ d.length.toNat ≤ 0xFFFF) ∧
      (∃ d ∈ cmds, d.value = miBatchBufferStart ∧ d.mask = opcodeMask smi) ∧
      (∀ d ∈ cmds, d.bits.length ≤ 3 ∧ ∀ b ∈ d.bits, b.mask ≠ 0 ∧ b.conditionOffset ≤ 1) ∧
      (∀ d ∈ cmds, d.value = miBatchBufferStart →
        d.has cmdDescRegister = false ∧ ∀ b ∈ d.bits, b.offset = 0 ∧ b.conditionOffset = 0) ∧
      (∀ d ∈ cmds, d.fits miBatchBufferEnd = false) ∧
      (∀ d ∈ cmds, d.has cmdDescSkip = true →
        d.has cmdDescReject = false ∧ d.has cmdDescRegister = false ∧
          d.has cmdDescBitmask = false))
    ⟨fun ⟨h₁, h₂, h₃, h₄, h₅, h₆, h₇, h₈, h₉⟩ => ⟨h₁, h₂, h₃, h₄, h₅, h₆, h₇, h₈, h₉⟩,
      fun ⟨h₁, h₂, h₃, h₄, h₅, h₆, h₇, h₈, h₉⟩ => ⟨h₁, h₂, h₃, h₄, h₅, h₆, h₇, h₈, h₉⟩⟩

/-- Each whitelist is strictly sorted, no register is in two of them, and the addresses are far
from the sign bit. -/
def RegsGood (tables : List (List RegDescriptor)) : Prop :=
  (∀ table ∈ tables, table.Pairwise fun r r' => r.addr < r'.addr) ∧
    (tables.flatten.map RegDescriptor.addr).Nodup ∧
    ∀ r ∈ tables.flatten, r.addr < 0x800000

instance (tables : List (List RegDescriptor)) : Decidable (RegsGood tables) :=
  inferInstanceAs (Decidable (_ ∧ _))

/-- A length decoding looks only at the upper sixteen bits and gives at most sixteen bits. -/
def LengthMaskGood (getCmdLengthMask : BitVec 32 → BitVec 32) : Prop :=
  (∀ h h' : BitVec 32, h >>> minOpcodeShift = h' >>> minOpcodeShift →
    getCmdLengthMask h = getCmdLengthMask h') ∧
  ∀ h : BitVec 32, (getCmdLengthMask h).toNat ≤ 0xFFFF

lemma shiftRight_congr {s k : ℕ} (hsk : s ≤ k) (hh : h >>> s = h' >>> s) :
    h >>> k = h' >>> k := by
  rw [← Nat.add_sub_cancel' hsk, shiftRight_add, shiftRight_add, hh]

lemma client_congr (hh : h >>> minOpcodeShift = h' >>> minOpcodeShift) :
    h >>> instrClientShift = h' >>> instrClientShift :=
  shiftRight_congr (by decide) hh

lemma field_congr (mask : BitVec 32) (hm : mask = mask >>> 16 <<< 16)
    (hh : h >>> minOpcodeShift = h' >>> minOpcodeShift) : h &&& mask = h' &&& mask := by
  have e : ∀ x : BitVec 32, x &&& mask = (x >>> 16 &&& mask >>> 16) <<< 16 := by
    intro x
    rw [hm]
    ext i hi
    by_cases hlt : i < 16
    · simp [hlt]
    · simp [hlt, Nat.add_sub_cancel' (Nat.le_of_not_lt hlt), hi]
  rw [e h, e h']
  exact congrArg (fun y => (y &&& mask >>> 16) <<< 16) hh

lemma gen7Render_lengthMaskGood : LengthMaskGood gen7RenderGetCmdLengthMask := by
  refine ⟨fun h h' hh => ?_, fun h => ?_⟩
  · simp only [gen7RenderGetCmdLengthMask, client_congr hh,
      field_congr instrSubclientMask (by decide) hh]
  · simp only [gen7RenderGetCmdLengthMask]
    split_ifs <;> decide

lemma gen7Bsd_lengthMaskGood : LengthMaskGood gen7BsdGetCmdLengthMask := by
  refine ⟨fun h h' hh => ?_, fun h => ?_⟩
  · simp only [gen7BsdGetCmdLengthMask, client_congr hh,
      field_congr instrSubclientMask (by decide) hh, field_congr instr26To24Mask (by decide) hh]
  · simp only [gen7BsdGetCmdLengthMask]
    split_ifs <;> decide

lemma gen7Blt_lengthMaskGood : LengthMaskGood gen7BltGetCmdLengthMask := by
  refine ⟨fun h h' hh => ?_, fun h => ?_⟩
  · simp only [gen7BltGetCmdLengthMask, client_congr hh]
  · simp only [gen7BltGetCmdLengthMask]
    split_ifs <;> decide

lemma gen9Blt_lengthMaskGood : LengthMaskGood gen9BltGetCmdLengthMask := by
  refine ⟨fun h h' hh => ?_, fun h => ?_⟩
  · simp only [gen9BltGetCmdLengthMask, client_congr hh]
  · simp only [gen9BltGetCmdLengthMask]
    split_ifs <;> decide

structure EngineTables.Good (t : EngineTables) : Prop where
  cmds : CmdsGood t.cmds
  regs : RegsGood t.regTables
  lengthMask : LengthMaskGood t.getCmdLengthMask

lemma engineTables_good {dev : Device} {id : EngineId} {t : EngineTables}
    (h : engineTables dev id = some t) : t.Good := by
  unfold engineTables at h
  rw [Option.ite_none_left_eq_some] at h
  replace h := h.2
  cases id with
  | rcs =>
    simp only at h
    split_ifs at h
    · cases h
      exact ⟨by decide +kernel, by decide +kernel, gen7Render_lengthMaskGood⟩
    · cases h
      exact ⟨by decide +kernel, by decide +kernel, gen7Render_lengthMaskGood⟩
  | vcs | vecs =>
    cases h
    exact ⟨by decide +kernel, by decide +kernel, gen7Bsd_lengthMaskGood⟩
  | bcs =>
    simp only at h
    split_ifs at h
    · cases h
      exact ⟨by decide +kernel, by decide +kernel, gen9Blt_lengthMaskGood⟩
    · cases h
      exact ⟨by decide +kernel, by decide +kernel, gen7Blt_lengthMaskGood⟩
    · cases h
      exact ⟨by decide +kernel, by decide +kernel, gen7Blt_lengthMaskGood⟩
  | vcs2 => simp at h

/-! ## The lookup of a command -/

lemma CmdDescriptor.fits_iff {s : ℕ} (hm : d.mask = opcodeMask s) (h : BitVec 32) :
    d.fits h = true ↔ h >>> s = d.value >>> s := by
  rw [CmdDescriptor.fits, hm, opcodeMask, beq_iff_eq]
  constructor
  · intro h0
    ext i hi
    have hbit := congrArg (fun x : BitVec 32 => x.getLsbD (s + i)) h0
    by_cases hlt : s + i < 32
    · simp only [getLsbD_and, getLsbD_shiftLeft, getLsbD_allOnes] at hbit
      simpa [hlt, hi, show ¬s + i < s by omega] using hbit
    · simp [Nat.le_of_not_lt hlt]
  · intro heq
    ext i hi
    by_cases hlt : i < s
    · simp [hlt]
    · have hbit := congrArg (fun x : BitVec 32 => x.getLsbD (i - s)) heq
      simp only [getLsbD_ushiftRight, Nat.add_sub_cancel' (Nat.le_of_not_lt hlt)] at hbit
      simp [← getLsbD_eq_getElem, hbit]

lemma CmdDescriptor.fits_value (d : CmdDescriptor) : d.fits d.value = true := by
  simp [CmdDescriptor.fits]

namespace CmdsGood

variable {cmds : List CmdDescriptor} (hg : CmdsGood cmds)
include hg

lemma unique {d' : CmdDescriptor} (hd : d ∈ cmds) (hd' : d' ∈ cmds) (hf : d.fits h = true)
    (hf' : d'.fits h = true) : d = d' := by
  apply hg.coherent d hd d' hd'
  simp only [CmdDescriptor.fits, beq_iff_eq] at hf hf'
  apply eq_of_getLsbD_eq
  intro i _
  have h1 := congrArg (fun x : BitVec 32 => x.getLsbD i) hf
  have h2 := congrArg (fun x : BitVec 32 => x.getLsbD i) hf'
  simp only [getLsbD_and, getLsbD_xor] at h1 h2 ⊢
  revert h1 h2
  cases d.value.getLsbD i <;> cases d'.value.getLsbD i <;> cases d.mask.getLsbD i <;>
    cases d'.mask.getLsbD i <;> cases h.getLsbD i <;> simp

lemma fits_congr (hd : d ∈ cmds) (hh : h >>> minOpcodeShift = h' >>> minOpcodeShift) :
    d.fits h = d.fits h' := by
  obtain ⟨s, hs, -, hm⟩ := hg.masks d hd
  have hs16 : minOpcodeShift ≤ s := by
    clear hm
    revert s
    decide
  rw [Bool.eq_iff_iff, d.fits_iff hm, d.fits_iff hm, shiftRight_congr hs16 hh]

lemma key_eq (hd : d ∈ cmds) (hf : d.fits h = true) : cmdHeaderKey d.value = cmdHeaderKey h := by
  obtain ⟨s, -, hs, hm⟩ := hg.masks d hd
  have heq := (d.fits_iff hm h).1 hf
  have hshift : cmdHeaderShift h = cmdHeaderShift d.value := by
    have hle : s ≤ instrClientShift := by
      refine hs.trans ?_
      simp only [cmdHeaderShift]
      split_ifs <;> decide
    simp only [cmdHeaderShift, shiftRight_congr hle heq]
  rw [cmdHeaderKey, cmdHeaderKey, hshift]
  exact (shiftRight_congr hs heq).symm

end CmdsGood

/-- A descriptor is the one the tables give to a header: the entry that fits it, or, if no entry
does, the default one, filled in for a header with the same upper sixteen bits. -/
def Describes (t : EngineTables) (d : CmdDescriptor) (h : BitVec 32) : Prop :=
  (d ∈ t.cmds ∧ d.fits h = true) ∨
    (∀ d' ∈ t.cmds, d'.fits h = false) ∧ t.getCmdLengthMask h ≠ 0 ∧
      ∃ h₀ : BitVec 32, h₀ >>> minOpcodeShift = h >>> minOpcodeShift ∧
        d = defaultDesc h₀ (t.getCmdLengthMask h)

section Lookup

variable {hash32Buf : BitVec 32 → ℕ → BitVec 32}

lemma initHashTable_eq_some {alloc : ℕ → Bool} {n : ℕ} {b b' : Buckets CmdDescriptor}
    {descs : List CmdDescriptor} (h : initHashTable hash32Buf alloc n b descs = some b') :
    b' = Buckets.addAll (fun d => cmdBucket hash32Buf d.value) b descs := by
  induction descs generalizing n b with
  | nil => exact (Option.some.inj h).symm
  | cons d descs ih =>
    rw [initHashTable] at h
    split_ifs at h
    exact ih h

variable {alloc : ℕ → Bool} {dev : Device} {id : EngineId} {e : Engine}

lemma initCmdParser_spec (h : initCmdParser hash32Buf alloc dev id = some e) :
    e.device = dev ∧ engineTables dev id = some e.tables ∧
      e.cmdHash =
        Buckets.addAll (fun d => cmdBucket hash32Buf d.value) Buckets.empty e.tables.cmds := by
  obtain ⟨t, ht, h⟩ := Option.bind_eq_some_iff.1 h
  split_ifs at h
  obtain ⟨b, hb, h⟩ := Option.bind_eq_some_iff.1 h
  cases h
  exact ⟨rfl, ht, initHashTable_eq_some hb⟩

lemma initCmdParser_good (h : initCmdParser hash32Buf alloc dev id = some e) : e.tables.Good :=
  engineTables_good (initCmdParser_spec h).2.1

variable (he : initCmdParser hash32Buf alloc dev id = some e)
include he

lemma findCmdInTable_eq (h : BitVec 32) :
    findCmdInTable hash32Buf e h = e.tables.cmds.reverse.find? fun d => d.fits h := by
  rw [findCmdInTable, (initCmdParser_spec he).2.2]
  apply Buckets.find_addAll
  intro d hd hf
  rw [cmdBucket, cmdBucket, (initCmdParser_good he).cmds.key_eq hd hf]

lemma freshCmd_describes (hf : freshCmd hash32Buf e h = some d) : Describes e.tables d h := by
  rw [freshCmd, findCmdInTable_eq he] at hf
  split at hf
  · rename_i d' hd'
    cases hf
    exact .inl ⟨mem_reverse.1 (mem_of_find?_eq_some hd'),
      by simpa using List.find?_some hd'⟩
  · rename_i hnone
    dsimp only at hf
    split_ifs at hf with hmask
    refine .inr ⟨fun d' hd' => ?_, hmask, h, rfl, (Option.some.inj hf).symm⟩
    simpa using List.find?_eq_none.1 hnone d' (mem_reverse.2 hd')

lemma Describes.freshCmd_isSome (hd : Describes e.tables d h) :
    (freshCmd hash32Buf e h).isSome := by
  rw [freshCmd, findCmdInTable_eq he]
  split
  · rfl
  · rename_i hnone
    rcases hd with ⟨hmem, hfit⟩ | ⟨-, hmask, -⟩
    · exact absurd hfit (List.find?_eq_none.1 hnone d (mem_reverse.2 hmem))
    · simpa using hmask

omit he in
/-- A remembered descriptor that fits is a descriptor of the header.

**Proof sketch.** A remembered default descriptor was filled in for a header with the same upper
sixteen bits, for which the tables and the length decoding answer the same. -/
lemma Describes.of_fits (hg : e.tables.Good) {h0 : BitVec 32} (hd : Describes e.tables d h0)
    (hfit : d.fits h = true) : Describes e.tables d h := by
  rcases hd with ⟨hmem, -⟩ | ⟨hnone, hmask, h1, hh, rfl⟩
  · exact .inl ⟨hmem, hfit⟩
  · have hh' : h >>> minOpcodeShift = h0 >>> minOpcodeShift :=
      (((defaultDesc h1 _).fits_iff rfl h).1 hfit).trans hh
    refine .inr ⟨fun d' hd' => ?_, ?_, h1, hh.trans hh'.symm, ?_⟩
    · rw [hg.cmds.fits_congr hd' hh']
      exact hnone d' hd'
    · rwa [hg.lengthMask.1 h h0 hh']
    · rw [hg.lengthMask.1 h h0 hh']

lemma findCmd_describes {desc : CmdDescriptor} {h0 : BitVec 32}
    (hdesc : Describes e.tables desc h0) (hf : findCmd hash32Buf e h desc = some d) :
    Describes e.tables d h := by
  rw [findCmd] at hf
  split_ifs at hf with hfit
  · cases hf
    exact hdesc.of_fits (initCmdParser_good he) hfit
  · exact freshCmd_describes he hf

end Lookup

/-! ## The lookup of a register -/

lemma cmpReg_eq_iff (addr : BitVec 32) (r : RegDescriptor) :
    cmpReg addr r = .eq ↔ r.addr = addr := by
  rw [cmpReg]
  constructor
  · intro h
    have h0 : addr - r.addr = 0 := eq_of_toInt_eq (by simpa using h)
    bv_omega
  · rintro rfl
    simp

lemma cmpReg_eq_compare (ha : addr < 0x800000) (hr : r.addr < 0x800000) :
    cmpReg addr r = compare addr.toNat r.addr.toNat := by
  have hsub : (addr - r.addr).toInt = (addr.toNat : ℤ) - r.addr.toNat := by
    rw [lt_def] at ha hr
    rw [toInt_sub, toInt_eq_toNat_of_lt, toInt_eq_toNat_of_lt,
      Int.bmod_eq_of_le]
    all_goals simp at ha hr ⊢
    all_goals omega
  rw [cmpReg]
  rcases Nat.lt_trichotomy addr.toNat r.addr.toNat with h | h | h
  · rw [compare_lt_iff_lt.2 h, compare_lt_iff_lt]
    omega
  · rw [compare_eq_iff_eq.2 h, compare_eq_iff_eq]
    omega
  · rw [compare_gt_iff_gt.2 h, compare_gt_iff_gt]
    omega

lemma findRegIn_isSome_iff {table : List RegDescriptor}
    (hs : table.Pairwise fun r r' => r.addr < r'.addr) (hb : ∀ r ∈ table, r.addr < 0x800000)
    (ha : addr < 0x800000) : (findRegIn table addr).isSome ↔ ∃ r ∈ table, r.addr = addr := by
  have ho : BinSearch.Ordered (cmpReg addr) table.toArray := by
    refine hs.imp_of_mem ?_
    intro r r' hr hr' hlt
    rw [cmpReg_eq_compare ha (hb r hr), cmpReg_eq_compare ha (hb r' hr')]
    rw [lt_def] at hlt
    simp only [compare_lt_iff_lt, compare_gt_iff_gt]
    omega
  rw [findRegIn, BinSearch.find_isSome_iff ho]
  simp [cmpReg_eq_iff]

lemma findReg_sound {tables : List (List RegDescriptor)} (h : findReg tables addr = some r) :
    r ∈ tables.flatten ∧ r.addr = addr := by
  induction tables with
  | nil => simp [findReg] at h
  | cons table tables ih =>
    rw [findReg] at h
    split at h
    · rename_i hr'
      cases h
      obtain ⟨hmem, heq⟩ := BinSearch.search_sound hr'
      exact ⟨by simpa using Or.inl hmem, (cmpReg_eq_iff addr r).1 heq⟩
    · obtain ⟨hmem, heq⟩ := ih h
      exact ⟨by simpa using Or.inr (by simpa using hmem), heq⟩

/-- **Lookup of a register.** -/
theorem findReg_eq_some_iff {tables : List (List RegDescriptor)} (hg : RegsGood tables)
    (ha : addr < 0x800000) :
    findReg tables addr = some r ↔ r ∈ tables.flatten ∧ r.addr = addr := by
  refine ⟨findReg_sound, ?_⟩
  rintro ⟨hr, hra⟩
  have hsome : (findReg tables addr).isSome := by
    obtain ⟨hs, -, hb⟩ := hg
    induction tables with
    | nil => simp at hr
    | cons table tables ih =>
      rw [findReg]
      split
      · rfl
      · rename_i hnone
        rw [flatten_cons, mem_append] at hr
        rcases hr with hr | hr
        · have := (findRegIn_isSome_iff (hs table mem_cons_self)
            (fun r hr => hb r (by simp [hr])) ha).2 ⟨r, hr, hra⟩
          simp [hnone] at this
        · exact ih hr (fun t ht => hs t (.tail _ ht))
            fun r hr => hb r (by rw [flatten_cons]; exact mem_append_right _ hr)
  obtain ⟨r', hr'⟩ := Option.isSome_iff_exists.1 hsome
  obtain ⟨hmem, hra'⟩ := findReg_sound hr'
  rw [hr', inj_on_of_nodup_map hg.2.1 hmem hr (hra'.trans hra.symm)]

theorem findReg_bcsTimestamp : findReg [gen7BltRegs] 0x22358 = some ⟨0x22358, 0, 0⟩ :=
  (findReg_eq_some_iff (by decide) (by decide)).2 (by decide)

end KmsDrm.I915
