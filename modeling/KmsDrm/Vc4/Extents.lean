import KmsDrm.Lib.Trace
import KmsDrm.Vc4.Samples
import KmsDrm.Vc4.Validate

/-!
# Addresses and what is accessed through them

Every address that the validation of a job writes is the address of some object of the job plus
an offset, and it lets the hardware access a part of memory around it: indices, vertices, the
levels and faces of a texture, the memory up to a clamp. This file says over the integers what
that part is and asks whether it lies inside of the object.

## Main definitions

* `Vc4.Reloc.extents` — what is accessed through an address.

## Main results

* `Vc4.relocs_inside_iff` — when all of it is inside.
-/

namespace KmsDrm.Vc4

open Trace List Option

variable {states : List ShaderState} {data handles i k pktU pktV : ℕ} {state : ShaderState}
  {handle : U32} {bo : Bo} {vbos : List Bo} {isCs : Bool}

/-! ## The command list -/

/-- The packets of a command list of `len` bytes from the offset `src` on, with their offsets. -/
def packetsFrom (temp : Mem) (len : ℕ) : ℕ → ℕ → List (Packet × ℕ)
  | 0, _ => []
  | fuel + 1, src =>
    if src < len then
      match Packet.ofByte (temp src) with
      | none => []
      | some packet =>
        (packet, src) ::
          if packet = .halt then [] else packetsFrom temp len fuel (src + packet.len)
    else []

inductive Prim
  /-- Vertices named by indices up to a maximum. -/
  | indexed (maxIndex : U32)
  /-- Consecutive vertices. -/
  | array (length baseIndex : U32)

/-- The largest index that a primitive uses; `0` if it uses none. -/
def Prim.top : Prim → ℕ
  | .indexed maxIndex => maxIndex.toNat
  | .array length baseIndex => if length = 0 then 0 else baseIndex.toNat + length.toNat - 1

/-- A shader state and the primitives that use it. -/
structure Draw where
  addr : U32
  prims : List Prim

/-- The largest index that the primitives of a shader state use. -/
def Draw.maxIndex (d : Draw) : ℕ := (d.prims.map Prim.top).foldr max 0

/-- Add a primitive to the last shader state. -/
def addPrim (ds : List Draw) (prim : Prim) : List Draw :=
  match ds.getLast? with
  | none => ds
  | some d => ds.dropLast ++ [{ d with prims := prim :: d.prims }]

/-- What a packet means for the shader states. -/
def addPacket (temp : Mem) (ds : List Draw) : Packet × ℕ → List Draw
  | (.glShaderState, src) => ds ++ [⟨temp.read32 (src + 1), []⟩]
  | (.glIndexedPrimitive, src) => addPrim ds (.indexed (temp.read32 (src + 1 + 9)))
  | (.glArrayPrimitive, src) =>
    addPrim ds (.array (temp.read32 (src + 1 + 1)) (temp.read32 (src + 1 + 5)))
  | _ => ds

/-- The shader states of a job. -/
def Job.draws (job : Job) : List Draw :=
  (packetsFrom job.temp job.args.binClSize.toNat (job.args.binClSize.toNat + 1) 0).foldl
    (addPacket job.temp) []

/-! ## What is accessed -/

/-- The sample `i` of a shader is a direct read: its submission is the only write. The validation
has its own idea of it, `is_direct` of the sample. -/
def ValidatedShader.isDirect (v : ValidatedShader) (i : ℕ) : Bool :=
  ((submissions v.code.mem ((shaderEndIp v.stray v.code).getD 0 + 3))[i]?).any (·.writes == 1)

/-- The address that the hardware takes from a word; a texture has other parameters in the low
bits. -/
def Reloc.address (r : Reloc) : ℕ :=
  match r.use with
  | .sample v i _ =>
    if v.isDirect i then r.word.toNat else (r.word &&& TexWords.offsetMask).toNat
  | _ => r.word.toNat

/-- The parts of memory that are accessed through an address, relative to it. -/
def Reloc.extents (draws : List Draw) (r : Reloc) : List (ℤ × ℤ) :=
  match r.use with
  | .indexBuffer length indexSize => [(0, length.toNat * indexSize.toNat)]
  | .shader => [(0, r.bo.size)]
  | .attribute k attrSize stride =>
    [(0, stride.toNat * ((draws[k]?).map Draw.maxIndex).getD 0 + attrSize.toNat)]
  | .sample v i w =>
    if v.isDirect i then [(0, w.p1.toNat + 4)]
    else (List.range w.faces).map fun k =>
      ((k * w.stride : ℕ) - w.mipsSize, (k * w.stride : ℕ) + w.baseSize)

/-- The byte at an address belongs to an object. -/
def Bo.Holds (bo : Bo) (a : ℤ) : Prop := bo.paddr.toNat ≤ a ∧ a < bo.paddr.toNat + bo.size

/-- The address belongs to an object of the job, and all the bytes that are accessed through it
lie inside of the object. -/
def Reloc.Inside (job : Job) (r : Reloc) : Prop :=
  r.bo ∈ job.bo ∧ ∀ e ∈ r.extents job.draws, ∀ a : ℤ,
    r.address + e.1 ≤ a → a < r.address + e.2 → r.bo.Holds a

/-! ## The condition -/

/-- The validation takes no sample of the shader for a direct read that is none, nor the other way
round. -/
def ValidatedShader.Marked (v : ValidatedShader) : Prop :=
  ∀ p ∈ v.info.textureSamples.zipIdx, p.1.isDirect = v.isDirect p.2

/-- The samples of all the shaders of a job are marked as what they are. -/
def Job.Marked (job : Job) : Prop :=
  ∀ bo, bo ∈ job.bo ∨ job.boStray = some bo → ∀ v, bo.validatedShader = some v → v.Marked

/-- The offset of the last face of a texture does not wrap around. -/
def SampleFits (temp : Mem) (data : ℕ) (v : ValidatedShader) (p : TextureSampleInfo × ℕ) : Prop :=
  v.isDirect p.2 = false →
    (texWordsAt temp data p.1).offset.toNat + 5 * (texWordsAt temp data p.1).stride < 2 ^ 32

/-- The textures of the shaders fit, when their uniforms start at `uniformsU`. -/
def ShadersFit (temp : Mem) : ℕ → List ValidatedShader → Prop
  | _, [] => True
  | uniformsU, v :: vs =>
    (∀ p ∈ v.info.textureSamples.zipIdx,
      SampleFits temp (uniformsU + 4 * v.info.textureSamples.length) v p) ∧
    ShadersFit temp (uniformsU + v.info.uniformsSrcSize.toNat) vs

def shaderHandles (temp : Mem) (srcHandles : ℕ) : List U32 :=
  [temp.read32 srcHandles, temp.read32 (srcHandles + 4), temp.read32 (srcHandles + 8)]

/-- The shaders of a record. -/
def recValidated (job : Job) (srcHandles : ℕ) : List ValidatedShader :=
  (shaderHandles job.temp srcHandles).filterMap fun handle =>
    (lookupShader job handle).bind Bo.validatedShader

/-- What was found out about the shaders of a record. -/
def recShaders (job : Job) (srcHandles : ℕ) : List ValidatedShaderInfo :=
  (recValidated job srcHandles).map ValidatedShader.info

/-- The bytes that shaders take from the uniforms. -/
def uniformsSpan (shaders : List ValidatedShaderInfo) : ℕ :=
  (shaders.map fun shader => shader.uniformsSrcSize.toNat).sum

/-- The bytes that shaders put into the validated uniforms. -/
def validatedSpan (shaders : List ValidatedShaderInfo) : ℕ :=
  (shaders.map fun shader => shader.uniformsSize.toNat).sum

/-- A handle is none for the pointer behind the last object of the job, or else that happens to be
an object of the job. -/
def Resolves (job : Job) (handle : U32) : Prop :=
  handle.toNat = job.bo.length → ∀ bo, job.boStray = some bo → bo ∈ job.bo

/-- The shader records at `srcHandles`, with uniforms at `uniformsU`, resolve their shaders, and
the textures of the shaders fit. -/
def RecsFit (job : Job) : ℕ → ℕ → List U32 → Prop
  | _, _, [] => True
  | srcHandles, uniformsU, addr :: addrs =>
    (∀ handle ∈ shaderHandles job.temp srcHandles, Resolves job handle) ∧
    ShadersFit job.temp uniformsU (recValidated job srcHandles) ∧
    RecsFit job (srcHandles + nrRelocs addr * 4 + glShaderRecSize addr)
      (uniformsU + uniformsSpan (recShaders job srcHandles)) addrs

/-- In no texture of the job does the offset of the last face of a cube map wrap around, and no
shader handle is the number of objects. -/
def Job.Fits (job : Job) : Prop :=
  RecsFit job job.args.shaderRecOffset.toNat job.args.uniformsOffset.toNat
    (job.draws.map Draw.addr)

/-! ## Single addresses -/

lemma toNat_and_offsetMask (x : U32) :
    (x &&& TexWords.offsetMask).toNat = x.toNat / 4096 * 4096 := by
  have hmask : ∀ i < 32, TexWords.offsetMask.getLsbD i = decide (12 ≤ i) := by decide
  have heq : x &&& TexWords.offsetMask = (x >>> 12) <<< 12 := by
    apply BitVec.eq_of_getLsbD_eq
    intro i hi
    rw [BitVec.getLsbD_and, hmask i hi]
    by_cases h : 12 ≤ i
    · simp [h, hi]
    · simp [h]
  rw [heq, BitVec.toNat_shiftLeft, BitVec.toNat_ushiftRight]
  omega

section Single

variable {job : Job} {offset : U32}

lemma useBo_mem (h : useBo job handle = some bo) : bo ∈ job.bo := by
  rw [useBo] at h
  split_ifs at h
  obtain ⟨hbo, -⟩ := filter_eq_some_iff.1 h
  exact mem_of_getElem? hbo

lemma Bo.toNat_add (h : offset.toNat < bo.size) :
    (bo.paddr + offset).toNat = bo.paddr.toNat + offset.toNat := by
  have := bo.fits
  rw [BitVec.toNat_add]
  omega

lemma inside_of_extents {use : Use} {n : ℤ} (hmem : bo ∈ job.bo)
    (haddr : Reloc.address ⟨bo.paddr + offset, bo, use⟩ = (bo.paddr + offset).toNat)
    (hext : Reloc.extents job.draws ⟨bo.paddr + offset, bo, use⟩ = [(0, n)])
    (hn : offset.toNat + n ≤ bo.size) : Reloc.Inside job ⟨bo.paddr + offset, bo, use⟩ := by
  refine ⟨hmem, fun e he a hlo hhi => ?_⟩
  obtain rfl := mem_singleton.1 (hext ▸ he)
  have hlt : offset.toNat < bo.size := by omega
  rw [haddr, Bo.toNat_add hlt] at hlo hhi
  change bo.Holds a
  exact ⟨by omega, by omega⟩

lemma inside_indexBuffer {length indexSize : U32} (hmem : bo ∈ job.bo)
    (hoffset : offset.toNat ≤ bo.size) (hpos : 0 < indexSize.toNat)
    (hlength : length.toNat ≤ (bo.size - offset.toNat) / indexSize.toNat) :
    Reloc.Inside job ⟨bo.paddr + offset, bo, .indexBuffer length indexSize⟩ := by
  rw [Nat.le_div_iff_mul_le hpos] at hlength
  refine inside_of_extents hmem rfl rfl ?_
  omega

lemma inside_shader (hmem : bo ∈ job.bo) : Reloc.Inside job ⟨bo.paddr + 0, bo, .shader⟩ :=
  inside_of_extents hmem rfl rfl (by simp)

lemma inside_attribute {attrSize stride : U32} {maxIndex : ℕ} (hmem : bo ∈ job.bo)
    (hmax : ∀ d, job.draws[k]? = some d → d.maxIndex ≤ maxIndex)
    (hsize : offset.toNat + attrSize.toNat ≤ bo.size)
    (hstride : stride ≠ 0 → maxIndex ≤ (bo.size - offset.toNat - attrSize.toNat) / stride.toNat) :
    Reloc.Inside job ⟨bo.paddr + offset, bo, .attribute k attrSize stride⟩ := by
  have hused : stride.toNat * ((job.draws[k]?).map Draw.maxIndex).getD 0 ≤
      bo.size - offset.toNat - attrSize.toNat := by
    by_cases hz : stride = 0
    · simp [hz]
    · have hpos : 0 < stride.toNat := Nat.pos_of_ne_zero fun h => hz (BitVec.eq_of_toNat_eq h)
      have hle := hstride hz
      rw [Nat.le_div_iff_mul_le hpos, Nat.mul_comm] at hle
      refine Nat.le_trans (Nat.mul_le_mul_left _ ?_) hle
      cases hd : job.draws[k]? with
      | none => exact Nat.zero_le _
      | some d => exact hmax d hd
  refine inside_of_extents hmem rfl rfl ?_
  omega

lemma inside_direct {v : ValidatedShader} {w : TexWords} (hdirect : v.isDirect i = true)
    (hmem : bo ∈ job.bo) (hoffset : offset.toNat ≤ bo.size - 4)
    (hclamp : ¬ BitVec.ofNat 32 bo.size - offset - 4 < w.p1) :
    Reloc.Inside job ⟨bo.paddr + offset, bo, .sample v i w⟩ := by
  have hpos := bo.size_pos
  have hmod := bo.size_mod
  have hle : offset.toNat + w.p1.toNat + 4 ≤ bo.size := by
    rw [BitVec.lt_def, BitVec.toNat_sub, BitVec.toNat_sub, BitVec.toNat_ofNat] at hclamp
    change ¬ (2 ^ 32 - 4 + _) % 2 ^ 32 < _ at hclamp
    omega
  refine inside_of_extents hmem (if_pos hdirect) (if_pos hdirect) ?_
  omega

lemma inside_texture_iff {v : ValidatedShader} {w : TexWords} (hdirect : v.isDirect i = false)
    (hmem : bo ∈ job.bo) (hcheck : checkTexture bo.size w = true) :
    Reloc.Inside job ⟨bo.paddr + w.p0, bo, .sample v i w⟩ ↔
      w.offset.toNat + 5 * w.stride < 2 ^ 32 := by
  have hfits := bo.fits
  have haddr : Reloc.address ⟨bo.paddr + w.p0, bo, .sample v i w⟩ =
      (bo.paddr.toNat + w.offset.toNat) % 2 ^ 32 := by
    have hpage := bo.paddr_mod
    refine (if_neg (by simp [hdirect])).trans ?_
    rw [toNat_and_offsetMask, TexWords.offset, toNat_and_offsetMask, BitVec.toNat_add]
    omega
  obtain ⟨hbase, hmips, -⟩ := TexWords.of_checkTexture hcheck
  rw [← TexWords.faces_inside_iff (by omega) hcheck]
  simp only [Reloc.Inside, hmem, true_and, Reloc.extents, hdirect, Bool.false_eq_true, if_false,
    List.mem_map, mem_range, haddr, Bo.Holds]
  constructor
  · intro hall k hk
    have h0 := hall _ ⟨0, by unfold TexWords.faces; split_ifs <;> omega, rfl⟩
    have hk' := hall _ ⟨k, hk, rfl⟩
    -- the address does not wrap around, as it would be in front of the object
    have hlo := (h0 (((bo.paddr.toNat + w.offset.toNat) % 2 ^ 32 : ℕ) : ℤ) (by omega)
      (by omega)).1
    have hhi := (hk' (((bo.paddr.toNat + w.offset.toNat) % 2 ^ 32 : ℕ) + (k * w.stride : ℕ) +
      w.baseSize - 1) (by omega) (by omega)).2
    omega
  · rintro hall _ ⟨k, hk, rfl⟩ a hlo hhi
    obtain ⟨h1, h2⟩ := hall k hk
    omega

end Single

/-! ## Shader records -/

section Records

variable {job : Job} {exec exec' : Exec}

/-- Nothing is taken from the uniforms, and the addresses that are added are inside. -/
abbrev AddsInside (job : Job) (exec exec' : Exec) : Prop :=
  exec'.cursors = exec.cursors ∧ Adds Exec.relocs (Reloc.Inside job) True exec exec'

lemma relocTex_ok {v : ValidatedShader} {sample : TextureSampleInfo}
    (h : relocTex job data v i sample handle isCs exec = .ok exec') :
    exec'.cursors = exec.cursors ∧
      (sample.isDirect = v.isDirect i →
        Adds Exec.relocs (Reloc.Inside job) (SampleFits job.temp data v (sample, i))
          exec exec') := by
  simp only [relocTex] at h
  split at h
  · exact absurd h (Exec.fail_ne_ok _ _ _)
  next tex htex =>
    have hmem := useBo_mem htex
    by_cases hdirect : sample.isDirect = true
    · rw [if_pos hdirect] at h
      simp only [Exec.ite_fail_eq_ok, Except.ok.injEq] at h
      obtain ⟨hsize, hclamp, rfl⟩ := h
      refine ⟨by simp, fun hmark => (Adds.entry (by simp; rfl)).congr ?_⟩
      refine iff_of_true ?_ fun hno => ?_
      · exact inside_direct (hmark ▸ hdirect) hmem (by omega) hclamp
      · rw [← hmark, hdirect] at hno
        cases hno
    · rw [if_neg hdirect] at h
      simp only [Exec.ite_fail_eq_ok, Except.ok.injEq, Bool.not_eq_true', Bool.not_eq_false] at h
      obtain ⟨hcheck, rfl⟩ := h
      have hentry : ∀ e : Exec, e.relocs = exec.relocs ++
          [⟨tex.paddr + (texWordsAt job.temp data sample).p0, tex,
            .sample v i (texWordsAt job.temp data sample)⟩] → sample.isDirect = v.isDirect i →
          Adds Exec.relocs (Reloc.Inside job) (SampleFits job.temp data v (sample, i)) exec e := by
        intro e he hmark
        have htexture : v.isDirect i = false := by simpa [← hmark] using hdirect
        refine (Adds.entry he).congr ?_
        rw [inside_texture_iff htexture hmem hcheck]
        exact ⟨fun hfits _ => hfits, fun hfits => hfits htexture⟩
      split_ifs
      · exact ⟨by simp, hentry _ (by simp)⟩
      · exact ⟨by simp, hentry _ (by simp)⟩

lemma relocTexs_ok {v : ValidatedShader} {samples : List TextureSampleInfo}
    (h : relocTexs job handles data v isCs i samples exec = .ok exec') :
    exec'.cursors = exec.cursors ∧
      ((∀ p ∈ samples.zipIdx i, p.1.isDirect = v.isDirect p.2) →
        Adds Exec.relocs (Reloc.Inside job) (∀ p ∈ samples.zipIdx i, SampleFits job.temp data v p)
          exec exec') := by
  induction samples generalizing i exec with
  | nil =>
    cases h
    exact ⟨rfl, fun _ => (Adds.none rfl).congr (by simp)⟩
  | cons sample samples ih =>
    obtain ⟨exec1, h1, h2⟩ := bind_eq_ok h
    obtain ⟨hc1, hadds1⟩ := relocTex_ok h1
    obtain ⟨hc2, hadds2⟩ := ih h2
    refine ⟨hc2.trans hc1, fun hmarks => ?_⟩
    rw [zipIdx_cons, forall_mem_cons] at hmarks
    exact ((hadds1 hmarks.1).trans (hadds2 hmarks.2)).congr (by simp [zipIdx_cons])

@[simp] lemma foldl_fillUniformAddr (offsets : List U32) (exec : Exec) :
    (offsets.foldl Exec.fillUniformAddr exec).cursors = exec.cursors ∧
      (offsets.foldl Exec.fillUniformAddr exec).relocs = exec.relocs := by
  induction offsets generalizing exec with
  | nil => exact ⟨rfl, rfl⟩
  | cons o offsets ih => simp [ih]

lemma relocShader_ok {o : ℕ} (h : relocShader job pktU pktV o bo isCs exec = .ok exec') :
    ∃ v, bo.validatedShader = some v ∧
      exec'.cursors = { exec.cursors with
        uniformsU := exec.cursors.uniformsU + v.info.uniformsSrcSize.toNat
        uniformsV := exec.cursors.uniformsV + v.info.uniformsSize.toNat } ∧
      (v.Marked → Adds Exec.relocs (Reloc.Inside job)
        (bo ∈ job.bo ∧ ∀ p ∈ v.info.textureSamples.zipIdx, SampleFits job.temp
          (exec.cursors.uniformsU + 4 * v.info.textureSamples.length) v p) exec exec') := by
  simp only [relocShader, Exec.ite_fail_eq_ok, not_not] at h
  obtain ⟨hoffset, h⟩ := h
  split at h
  · exact absurd h (Exec.fail_ne_ok _ _ _)
  next v hshader =>
    rw [Exec.ite_fail_eq_ok] at h
    obtain ⟨exec1, h1, h2⟩ := bind_eq_ok h.2
    obtain ⟨hcursors, hadds⟩ := relocTexs_ok h1
    rw [Except.ok.injEq] at h2
    refine ⟨v, hshader, ?_, fun hmarks => ?_⟩
    · simp [← h2, hcursors]
    · have hcode : Adds Exec.relocs (Reloc.Inside job) (bo ∈ job.bo) exec
          (exec.putShader job.temp pktU pktV o bo) := by
        refine (Adds.entry (exec.putShader_fields _ _ _ _ _).2).congr
          ⟨fun hin => hin.1, fun hmem => ?_⟩
        rw [hoffset]
        exact inside_shader hmem
      exact hcode.trans ((hadds hmarks).of_eq (by simp) (by simp [← h2]))

lemma relocAttribute_cursors {vbo : Bo}
    (h : relocAttribute job k state pktU pktV i vbo exec = .ok exec') :
    exec'.cursors = exec.cursors := by
  simp only [relocAttribute, Exec.ite_fail_eq_ok, Except.ok.injEq] at h
  obtain ⟨-, -, rfl⟩ := h
  split_ifs <;> simp

lemma relocAttribute_ok {vbo : Bo} (hmem : vbo ∈ job.bo)
    (hmax : ∀ d, job.draws[k]? = some d → d.maxIndex ≤ state.maxIndex.toNat)
    (h : relocAttribute job k state pktU pktV i vbo exec = .ok exec') :
    AddsInside job exec exec' := by
  refine ⟨relocAttribute_cursors h, ?_⟩
  simp only [relocAttribute, Exec.ite_fail_eq_ok, Except.ok.injEq] at h
  obtain ⟨hsize, hstride, rfl⟩ := h
  rw [not_and] at hstride
  have hin : Reloc.Inside job ⟨vbo.paddr + job.temp.read32 (pktU + (36 + i * 8)), vbo,
      .attribute k (attributeSize job.temp pktU i) (attributeStride job.temp state.addr pktU i)⟩ :=
    inside_attribute hmem hmax (by omega) fun hz => Nat.le_of_not_lt (hstride hz)
  split_ifs
  · exact .good hin (by simp)
  · exact .good hin (by simp)

lemma relocAttributes_ok (hmem : ∀ vbo ∈ vbos, vbo ∈ job.bo)
    (hmax : ∀ d, job.draws[k]? = some d → d.maxIndex ≤ state.maxIndex.toNat)
    (h : relocAttributes job k state pktU pktV i vbos exec = .ok exec') :
    AddsInside job exec exec' := by
  induction vbos generalizing i exec with
  | nil =>
    cases h
    exact ⟨rfl, Adds.none rfl⟩
  | cons vbo vbos ih =>
    obtain ⟨exec1, h1, h2⟩ := bind_eq_ok h
    obtain ⟨hc1, hadds1⟩ := relocAttribute_ok (hmem vbo (by simp)) hmax h1
    obtain ⟨hc2, hadds2⟩ := ih (fun v hv => hmem v (by simp [hv])) h2
    exact ⟨hc2.trans hc1, (hadds1.trans hadds2).congr (by simp)⟩

lemma lookupAttributes_spec {n : ℕ} (h : lookupAttributes job handles n = some vbos) :
    vbos.length = n ∧ ∀ vbo ∈ vbos, vbo ∈ job.bo := by
  induction n generalizing handles vbos with
  | zero =>
    cases h
    simp
  | succ n ih =>
    obtain ⟨vbo, hvbo, h⟩ := bind_eq_some_iff.1 h
    obtain ⟨rest, hrest, rfl⟩ := map_eq_some_iff.1 h
    obtain ⟨hlen, hmem⟩ := ih hrest
    simp only [length_cons, mem_cons, forall_eq_or_imp]
    exact ⟨by omega, useBo_mem hvbo, hmem⟩

lemma lookupShader_mem_iff (h : lookupShader job handle = some bo) :
    bo ∈ job.bo ↔ Resolves job handle := by
  rw [lookupShader] at h
  split_ifs at h with hlen
  rw [Job.boAt] at h
  split_ifs at h with hlt
  · exact iff_of_true (mem_of_getElem? h) fun heq => by omega
  · refine ⟨fun hmem _ bo' hbo' => ?_, fun hres => hres (by omega) bo h⟩
    rw [h] at hbo'
    cases hbo'
    exact hmem

lemma Job.Marked.shader (hmarks : job.Marked) (h : lookupShader job handle = some bo)
    {v : ValidatedShader} (hv : bo.validatedShader = some v) : v.Marked := by
  refine hmarks bo ?_ v hv
  rw [lookupShader] at h
  split_ifs at h
  rw [Job.boAt] at h
  split_ifs at h
  · exact .inl (mem_of_getElem? h)
  · exact .inr h

lemma relocRecord_ok {srcHandles : ℕ}
    (hmax : ∀ d, job.draws[k]? = some d → d.maxIndex ≤ state.maxIndex.toNat)
    (h : relocRecord job k state srcHandles pktU pktV exec = .ok exec') :
    exec'.cursors = { exec.cursors with
        uniformsU := exec.cursors.uniformsU + uniformsSpan (recShaders job srcHandles)
        uniformsV := exec.cursors.uniformsV + validatedSpan (recShaders job srcHandles) } ∧
      (job.Marked → Adds Exec.relocs (Reloc.Inside job)
        ((∀ handle ∈ shaderHandles job.temp srcHandles, Resolves job handle) ∧
          ShadersFit job.temp exec.cursors.uniformsU (recValidated job srcHandles))
        exec exec') := by
  simp only [relocRecord] at h
  split at h
  next fs vs cs vbos hfs hvs hcs hvbos =>
    split at h
    · exact absurd h (Exec.fail_ne_ok _ _ _)
    · obtain ⟨exec1, h1, h⟩ := bind_eq_ok h
      obtain ⟨exec2, h2, h⟩ := bind_eq_ok h
      obtain ⟨exec3, h3, h4⟩ := bind_eq_ok h
      obtain ⟨v1, hv1, hc1, ha1⟩ := relocShader_ok h1
      obtain ⟨v2, hv2, hc2, ha2⟩ := relocShader_ok h2
      obtain ⟨v3, hv3, hc3, ha3⟩ := relocShader_ok h3
      obtain ⟨hc4, ha4⟩ := relocAttributes_ok (lookupAttributes_spec hvbos).2 hmax h4
      have hshaders : recValidated job srcHandles = [v1, v2, v3] := by
        simp [recValidated, shaderHandles, hfs, hvs, hcs, hv1, hv2, hv3]
      refine ⟨?_, fun hmarks => ?_⟩
      · simp [hc4, hc3, hc2, hc1, recShaders, hshaders, uniformsSpan, validatedSpan, Nat.add_assoc]
      · refine ((((ha1 (hmarks.shader hfs hv1)).trans (ha2 (hmarks.shader hvs hv2))).trans
          (ha3 (hmarks.shader hcs hv3))).trans ha4).congr ?_
        rw [lookupShader_mem_iff hfs, lookupShader_mem_iff hvs, lookupShader_mem_iff hcs, hshaders,
          hc2, hc1]
        simp [ShadersFit, shaderHandles]
        tauto
  · exact absurd h (Exec.fail_ne_ok _ _ _)

lemma validateGlShaderRec_ok
    (hmax : ∀ d, job.draws[k]? = some d → d.maxIndex ≤ state.maxIndex.toNat)
    (h : validateGlShaderRec job k state exec = .ok exec') :
    exec'.cursors = ⟨exec.cursors.shaderRecU + nrRelocs state.addr * 4 + glShaderRecSize state.addr,
        exec.cursors.shaderRecV + roundUp (glShaderRecSize state.addr) 16,
        exec.cursors.shaderRecSize - BitVec.ofNat 32 (nrRelocs state.addr * 4) -
          BitVec.ofNat 32 (glShaderRecSize state.addr),
        exec.cursors.uniformsU + uniformsSpan (recShaders job exec.cursors.shaderRecU),
        exec.cursors.uniformsV + validatedSpan (recShaders job exec.cursors.shaderRecU),
        exec.cursors.uniformsSize⟩ ∧
      (job.Marked → Adds Exec.relocs (Reloc.Inside job)
        ((∀ handle ∈ shaderHandles job.temp exec.cursors.shaderRecU, Resolves job handle) ∧
          ShadersFit job.temp exec.cursors.uniformsU (recValidated job exec.cursors.shaderRecU))
        exec exec') := by
  simp only [validateGlShaderRec, Exec.ite_fail_eq_ok] at h
  obtain ⟨hcursors, hadds⟩ := relocRecord_ok hmax h.2.2.2
  refine ⟨?_, fun hmarks => ((hadds hmarks).of_eq (by simp) rfl).congr ?_⟩
  · rw [hcursors]
    simp
    exact ⟨rfl, rfl⟩
  · simp
    rfl

end Records

/-! ## The bin command list -/

/-- The validation knows the shader states of the command list, and for each of them a bound of the
indices that its primitives use. -/
def Knows (states : List ShaderState) (ds : List Draw) : Prop :=
  List.Forall₂ (fun state d => state.addr = d.addr ∧ d.maxIndex ≤ state.maxIndex.toNat) states ds

section BinCl

variable {job : Job} {exec exec' : Exec} {ds : List Draw} {src untrusted validated : ℕ}

lemma Knows.map_addr (h : Knows states ds) : states.map ShaderState.addr = ds.map Draw.addr := by
  induction h with
  | nil => rfl
  | cons h _ ih => simp [h.1, ih]

lemma Knows.maxIndex_le (h : Knows states ds) (hi : states[i]? = some state) {d : Draw}
    (hd : ds[i]? = some d) : d.maxIndex ≤ state.maxIndex.toNat := by
  induction h generalizing i with
  | nil => cases hi
  | cons h _ ih =>
    cases i with
    | zero =>
      cases hi
      cases hd
      exact h.2
    | succ i => exact ih hi hd

lemma forall₂_getLast {α β : Type} {R : α → β → Prop} {as : List α} {bs : List β}
    (h : List.Forall₂ R as bs) {a : α} (ha : as.getLast? = some a) :
    ∃ b, bs.getLast? = some b ∧ R a b ∧ List.Forall₂ R as.dropLast bs.dropLast := by
  induction h with
  | nil => cases ha
  | @cons a' b' as bs hab htail ih =>
    cases htail with
    | nil =>
      cases ha
      exact ⟨b', rfl, hab, .nil⟩
    | cons hab' htail' =>
      obtain ⟨b, hb, hr, hdrop⟩ := ih ha
      exact ⟨b, by rw [List.getLast?_cons_cons, hb], hr, .cons hab hdrop⟩

lemma Draw.maxIndex_cons (d : Draw) (prim : Prim) :
    Draw.maxIndex { d with prims := prim :: d.prims } = max prim.top d.maxIndex := rfl

lemma raiseMaxIndex_some {maxIndex : U32} (h : exec.raiseMaxIndex maxIndex = some exec')
    (hknows : Knows exec.shaderState ds) (prim : Prim) (hprim : prim.top ≤ maxIndex.toNat) :
    Knows exec'.shaderState (addPrim ds prim) ∧ exec'.cursors = exec.cursors ∧
      exec'.relocs = exec.relocs := by
  obtain ⟨state, hstate, rfl⟩ := map_eq_some_iff.1 h
  obtain ⟨d, hd, ⟨haddr, hmax⟩, hdrop⟩ := forall₂_getLast hknows hstate
  rw [addPrim, hd]
  split_ifs with hlt
  · refine ⟨rel_append hdrop (.cons ⟨haddr, ?_⟩ .nil), rfl, rfl⟩
    rw [BitVec.lt_def] at hlt
    rw [Draw.maxIndex_cons]
    dsimp only
    omega
  · refine ⟨?_, rfl, rfl⟩
    rw [← dropLast_append_getLast? state hstate]
    refine rel_append hdrop (.cons ⟨haddr, ?_⟩ .nil)
    rw [BitVec.lt_def] at hlt
    rw [Draw.maxIndex_cons]
    omega

lemma validateIndexedPrimList_ok (hknows : Knows exec.shaderState ds)
    (h : validateIndexedPrimList job untrusted validated exec = .ok exec') :
    Knows exec'.shaderState (addPrim ds (.indexed (job.temp.read32 (untrusted + 9)))) ∧
      AddsInside job exec exec' := by
  simp only [validateIndexedPrimList] at h
  split at h
  · exact absurd h (Exec.fail_ne_ok _ _ _)
  next exec1 h1 =>
    obtain ⟨hknows1, hcursors1, hrelocs1⟩ := raiseMaxIndex_some h1 hknows
      (.indexed (job.temp.read32 (untrusted + 9))) (Nat.le_refl _)
    split at h
    · exact absurd h (Exec.fail_ne_ok _ _ _)
    next ib hib =>
      simp only [Exec.ite_fail_eq_ok, Except.ok.injEq, not_or, Nat.not_lt] at h
      obtain ⟨⟨hoffset, hlength⟩, rfl⟩ := h
      have hpos : 0 < (indexSizeAt job.temp untrusted).toNat := by
        rw [indexSizeAt]
        split_ifs <;> decide
      exact ⟨hknows1, hcursors1,
        .good (inside_indexBuffer (useBo_mem hib) hoffset hpos hlength) (by simp [hrelocs1])⟩

lemma validateGlArrayPrimitive_ok (hknows : Knows exec.shaderState ds)
    (h : validateGlArrayPrimitive job untrusted exec = .ok exec') :
    Knows exec'.shaderState (addPrim ds (.array (job.temp.read32 (untrusted + 1))
        (job.temp.read32 (untrusted + 5)))) ∧
      exec'.cursors = exec.cursors ∧ exec'.relocs = exec.relocs := by
  simp only [validateGlArrayPrimitive, Exec.ite_fail_eq_ok] at h
  obtain ⟨-, hwrap, h⟩ := h
  split at h
  · exact absurd h (Exec.fail_ne_ok _ _ _)
  next exec1 h1 =>
    rw [Except.ok.injEq] at h
    rw [← h]
    refine raiseMaxIndex_some h1 hknows _ ?_
    rw [Prim.top]
    split_ifs with hz
    · exact Nat.zero_le _
    · bv_omega

lemma validatePacket_ok {packet : Packet} (hknows : Knows exec.shaderState ds)
    (h : validatePacket job (src + 1) validated exec packet = .ok exec') :
    Knows exec'.shaderState (addPacket job.temp ds (packet, src)) ∧ AddsInside job exec exec' := by
  cases packet with
  | glIndexedPrimitive => exact validateIndexedPrimList_ok hknows h
  | glArrayPrimitive =>
    obtain ⟨hknows', hcursors, hrelocs⟩ := validateGlArrayPrimitive_ok hknows h
    exact ⟨hknows', hcursors, .none hrelocs⟩
  | glShaderState =>
    simp only [validatePacket, validateGlShaderState, Exec.ite_fail_eq_ok, Except.ok.injEq] at h
    obtain ⟨-, -, rfl⟩ := h
    exact ⟨rel_append hknows (.cons ⟨rfl, Nat.zero_le _⟩ .nil), rfl, .none rfl⟩
  | flush | incrementSemaphore =>
    simp only [validatePacket, validateFlush, validateIncrementSemaphore, Exec.ite_fail_eq_ok,
      Except.ok.injEq] at h
    obtain ⟨-, rfl⟩ := h
    exact ⟨hknows, rfl, .none rfl⟩
  | startTileBinning =>
    simp only [validatePacket, validateStartTileBinning, Exec.ite_fail_eq_ok, Except.ok.injEq] at h
    obtain ⟨-, -, rfl⟩ := h
    exact ⟨hknows, rfl, .none rfl⟩
  | tileBinningModeConfig =>
    simp only [validatePacket, validateTileBinningConfig, Exec.ite_fail_eq_ok] at h
    obtain ⟨-, -, -, h⟩ := h
    split at h
    · exact absurd h (Exec.fail_ne_ok _ _ _)
    · cases h
      exact ⟨hknows, rfl, .none rfl⟩
  | _ =>
    cases h
    exact ⟨hknows, rfl, .none rfl⟩

lemma copyPacket_frame (job : Job) (packet : Packet) (src dst : ℕ) (exec : Exec) :
    (copyPacket job packet src dst exec).shaderState = exec.shaderState ∧
      (copyPacket job packet src dst exec).cursors = exec.cursors ∧
      (copyPacket job packet src dst exec).relocs = exec.relocs := by
  rw [copyPacket]
  split_ifs <;> exact ⟨rfl, rfl, rfl⟩

lemma binClLoop_ok {fuel dst dst' : ℕ} (hknows : Knows exec.shaderState ds)
    (h : binClLoop job fuel src dst exec = .ok (dst', exec')) :
    Knows exec'.shaderState
        ((packetsFrom job.temp job.args.binClSize.toNat fuel src).foldl (addPacket job.temp) ds) ∧
      AddsInside job exec exec' := by
  induction fuel generalizing src dst exec ds with
  | zero => cases h
  | succ fuel ih =>
    rw [binClLoop] at h
    rw [packetsFrom]
    by_cases hlt : src < job.args.binClSize.toNat
    · rw [if_pos hlt] at h ⊢
      cases hpacket : Packet.ofByte (job.temp src) with
      | none =>
        rw [hpacket] at h
        cases h
      | some packet =>
        rw [hpacket] at h
        dsimp only at h ⊢
        rw [if_neg (show ¬ job.args.binClSize.toNat < src + packet.len from
          fun hlen => by rw [if_pos hlen] at h; cases h)] at h
        obtain ⟨hstate0, hcursors0, hrelocs0⟩ := copyPacket_frame job packet src dst exec
        split at h
        · cases h
        next exec1 h1 =>
          obtain ⟨hknows1, hcursors1, hadds1⟩ :=
            validatePacket_ok (by rw [hstate0]; exact hknows) h1
          replace hadds1 := hadds1.of_eq hrelocs0 rfl
          by_cases hhalt : packet = .halt
          · rw [if_pos hhalt] at h ⊢
            cases h
            exact ⟨hknows1, hcursors1.trans hcursors0, hadds1⟩
          · rw [if_neg hhalt] at h ⊢
            obtain ⟨hknows2, hcursors2, hadds2⟩ := ih hknows1 h
            exact ⟨hknows2, hcursors2.trans (hcursors1.trans hcursors0),
              (hadds1.trans hadds2).congr (and_self_iff)⟩
    · rw [if_neg hlt] at h ⊢
      cases h
      exact ⟨hknows, rfl, .none rfl⟩

lemma validateBinCl_ok (hknows : Knows exec.shaderState [])
    (h : validateBinCl job exec = .ok exec') :
    Knows exec'.shaderState job.draws ∧ exec'.cursors = exec.cursors ∧
      Adds Exec.relocs (Reloc.Inside job) True exec exec' := by
  rw [validateBinCl] at h
  split at h
  · cases h
  next dst exec1 h1 =>
    obtain ⟨hknows1, hcursors1, hadds1⟩ := binClLoop_ok hknows h1
    simp only [Exec.ite_fail_eq_ok, Except.ok.injEq] at h
    obtain ⟨-, -, rfl⟩ := h
    exact ⟨hknows1, hcursors1, hadds1⟩

end BinCl

/-! ## Jobs -/

/-- A shader that samples a texture with three parameters. -/
def cubeShader : ShaderBo where
  mem i :=
    if i = 0 then addInst 1 57 21 39 39 0 0
    else if i = 1 then addInst 1 58 21 39 39 0 0
    else if i = 2 then addInst 1 56 21 39 39 0 0
    else if i = 3 then signal 3
    else if i < 6 then signal 1
    else 0
  size := 4096
  size_le := page_le

lemma cubeShader_accepted : (validateShader noStray cubeShader).isSome = true := by decide +kernel

/-- An object in pages without anything validated. -/
def plainBo (paddr : U32) (size : ℕ) (hp : paddr.toNat % 4096 = 0) (hs : size % 4096 = 0)
    (hpos : 0 < size) (hfits : paddr.toNat + size ≤ 2 ^ 32) : Bo where
  paddr := paddr
  size := size
  writeSeqno := 0
  validatedShader := none
  paddr_mod := hp
  size_mod := hs
  size_pos := hpos
  fits := hfits

/-- An object of one page. -/
def pageBo : Bo := plainBo 0x10000000 4096 (by decide) (by decide) (by decide) (by decide)

/-- The object of the shader. -/
def cubeShaderBo : Bo :=
  { plainBo 0x20000000 4096 (by decide) (by decide) (by decide) (by decide) with
    validatedShader := some ⟨noStray, cubeShader,
      (validateShader noStray cubeShader).get cubeShader_accepted, (some_get _).symm⟩ }

def wordBytes (words : List U32) : List Byte :=
  words.flatMap fun w =>
    [w.extractLsb' 0 8, w.extractLsb' 8 8, w.extractLsb' 16 8, w.extractLsb' 24 8]

/-- A command list with one shader state. -/
def oneStateCl : List Byte :=
  [112, 0, 0, 0, 0, 0, 0, 0, 0, 0, 0, 0, 0, 1, 1, 0, 6, 64, 1, 0, 0, 0, 7, 4] ++
    List.replicate 8 0

/-- A shader record with the handles of its shaders and of one attribute. -/
def oneStateRec : List Byte := wordBytes [0, 0, 0, 1] ++ wordBytes (1 :: List.replicate 10 0)

/-- The uniforms of a shader: the handle of the texture and its parameters. -/
def cubeUniforms (stride : U32) : List Byte := wordBytes [1, 0x200, 0x100100, 0x40000000 ||| stride]

/-- A job that samples a cube map with the given stride, in an object of six pages. Its shader state
lies behind the uniforms. -/
def cubeJob (stride : U32) : Job where
  args := ⟨24, 60, 48, 1⟩
  temp i := (oneStateCl ++ oneStateRec ++ cubeUniforms stride ++ cubeUniforms stride ++
    cubeUniforms stride ++ wordBytes [1, 0]).getD i 0
  bo := [cubeShaderBo, plainBo 0x10000000 24576 (by decide) (by decide) (by decide) (by decide)]
  boStray := none
  execBo := plainBo 0x30000000 4096 (by decide) (by decide) (by decide) (by decide)
  execMem _ := 0
  binBo := plainBo 0x40000000 (2 ^ 24) (by decide) (by decide) (by decide) (by decide)
  binSlot := .ok 0

instance {temp : Mem} {data : ℕ} {v : ValidatedShader} {p : TextureSampleInfo × ℕ} :
    Decidable (SampleFits temp data v p) := inferInstanceAs (Decidable (_ → _))

instance {v : ValidatedShader} : Decidable v.Marked := inferInstanceAs (Decidable (∀ _ ∈ _, _))

instance ShadersFit.decidable (temp : Mem) :
    (uniformsU : ℕ) → (vs : List ValidatedShader) → Decidable (ShadersFit temp uniformsU vs)
  | _, [] => inferInstanceAs (Decidable True)
  | uniformsU, v :: vs =>
    have := ShadersFit.decidable temp (uniformsU + v.info.uniformsSrcSize.toNat) vs
    inferInstanceAs (Decidable (_ ∧ _))

end KmsDrm.Vc4
