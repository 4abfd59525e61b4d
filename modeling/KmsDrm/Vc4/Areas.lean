import KmsDrm.Vc4.Extents

/-!
# The areas of shader records and uniforms

The validation of the shader records walks through the shader records and the uniforms that were
copied in, and writes validated ones into areas of the same size. What is left of the shader
records is counted down, so that no record can go beyond them. What is left of the uniforms is
not: each shader is only compared with the size of all the uniforms.

## Main definitions

* `Vc4.Job.UniformsFit` — the uniforms of the shaders fit into the area one after the other.
* `Vc4.Job.UniformsFitTo` — they do, as far as the validation comes.

## Main results

* `Vc4.accesses_within` — when the accesses stay inside of the areas.
-/

namespace KmsDrm.Vc4

open Trace List

variable {I : Access → Prop} {handles hi i k lo m n o pktU pktV size u v : ℕ}
  {state : ShaderState} {vbos : List Bo} {args : SubmitCl}

/-! ## Areas -/

/-- All of the `length` bytes from `start` on lie between `lo` and `hi`. -/
def InArea (lo hi start length : ℕ) : Prop := length = 0 ∨ lo ≤ start ∧ start + length ≤ hi

instance {lo hi start length : ℕ} : Decidable (InArea lo hi start length) :=
  inferInstanceAs (Decidable (_ ∨ _))

/-- The area belongs to the shader records. -/
def Area.isRec : Area → Bool
  | .shaderRecU | .shaderRecV => true
  | .uniformsU | .uniformsV => false

def Area.start (args : SubmitCl) (area : Area) : ℕ :=
  if area.isRec then args.shaderRecOffset.toNat else args.uniformsOffset.toNat

/-- The end of an area: it is as large as the arguments say. -/
def Area.stop (args : SubmitCl) (area : Area) : ℕ :=
  if area.isRec then args.shaderRecOffset.toNat + args.shaderRecSize.toNat
  else args.uniformsOffset.toNat + args.uniformsSize.toNat

def Access.Within (args : SubmitCl) (a : Access) : Prop :=
  InArea (a.area.start args) (a.area.stop args) a.start a.length

instance {args : SubmitCl} {a : Access} : Decidable (a.Within args) :=
  inferInstanceAs (Decidable (InArea _ _ _ _))

/-- The bytes lie in the uniforms. -/
abbrev InUniforms (args : SubmitCl) (start length : ℕ) : Prop :=
  InArea (Area.uniformsU.start args) (Area.uniformsU.stop args) start length

/-! ## How far a shader reaches -/

attribute [local instance] neZero_four

/-- The parameters of samples that are read. -/
def readOffsets (samples : List TextureSampleInfo) : List ℕ :=
  samples.flatMap fun sample =>
    ([0, 1, 2, 3].filter fun i : Fin 4 => i.val < 2 ∨ sample.pOffset i ≠ unused).map fun i =>
      (sample.pOffset i).toNat

/-- The parameters that are written: addresses of textures and of the uniforms themselves. -/
def writtenOffsets (samples : List TextureSampleInfo) (addrOffsets : List U32) : List ℕ :=
  samples.map (fun sample => (sample.pOffset 0).toNat) ++ addrOffsets.map fun o => 4 * o.toNat

namespace ValidatedShaderInfo

variable (shader : ValidatedShaderInfo)

/-- How far the reads for a shader go in the uniforms: over the handles of its textures, its
uniforms, and the parameters of its samples. -/
def readReach : ℕ :=
  4 * shader.textureSamples.length +
    ((readOffsets shader.textureSamples).map (· + 4)).foldr max shader.uniformsSize.toNat

/-- How far the writes for a shader go in the validated uniforms. -/
def writeReach : ℕ :=
  ((writtenOffsets shader.textureSamples shader.uniformAddrOffsets).map (· + 4)).foldr max
    shader.uniformsSize.toNat

/-- How far the reads go until the sample `j` is refused: its parameters have been read. -/
def readReachAt (j : ℕ) : ℕ :=
  4 * shader.textureSamples.length +
    ((readOffsets (shader.textureSamples.take (j + 1))).map (· + 4)).foldr max
      shader.uniformsSize.toNat

/-- How far the writes go until the sample `j` is refused. -/
def writeReachAt (j : ℕ) : ℕ :=
  ((writtenOffsets (shader.textureSamples.take j) []).map (· + 4)).foldr max
    shader.uniformsSize.toNat

end ValidatedShaderInfo

/-- The uniforms of the shaders, read from `u` and written to `v` on, stay between `lo` and
`hi`. -/
def UniformsFit (lo hi : ℕ) : ℕ → ℕ → List ValidatedShaderInfo → Prop
  | _, _, [] => True
  | u, v, shader :: shaders =>
    InArea lo hi u shader.readReach ∧ InArea lo hi v shader.writeReach ∧
      UniformsFit lo hi (u + shader.uniformsSrcSize.toNat) (v + shader.uniformsSize.toNat) shaders

/-- As `UniformsFit`, when the validation stops behind `n` of the shaders, or then at the sample `j`
of the next one. -/
def UniformsFitTo (lo hi u v : ℕ) (shaders : List ValidatedShaderInfo) (n : ℕ)
    (sample : Option ℕ) : Prop :=
  UniformsFit lo hi u v (shaders.take n) ∧
    ∀ j ∈ sample, ∀ shader ∈ shaders[n]?,
      InArea lo hi (u + uniformsSpan (shaders.take n)) (shader.readReachAt j) ∧
        InArea lo hi (v + validatedSpan (shaders.take n)) (shader.writeReachAt j)

/-- The shaders of the records at `srcHandles`. -/
def recsShaders (job : Job) : ℕ → List U32 → List ValidatedShaderInfo
  | _, [] => []
  | srcHandles, addr :: addrs =>
    recShaders job srcHandles ++
      recsShaders job (srcHandles + nrRelocs addr * 4 + glShaderRecSize addr) addrs

/-- The shaders of a job. -/
def Job.shaders (job : Job) : List ValidatedShaderInfo :=
  recsShaders job job.args.shaderRecOffset.toNat (job.draws.map Draw.addr)

/-- The uniforms of all the shaders of a job, one behind the other, are not more than there are. -/
def Job.UniformsFit (job : Job) : Prop :=
  Vc4.UniformsFit (Area.uniformsU.start job.args) (Area.uniformsU.stop job.args)
    job.args.uniformsOffset.toNat job.args.uniformsOffset.toNat job.shaders

/-- The uniforms are not more than there are until the validation stops, behind `n` of the shaders
of a job or then at a sample of the next one. -/
def Job.UniformsFitTo (job : Job) : ℕ → Option ℕ → Prop :=
  Vc4.UniformsFitTo (Area.uniformsU.start job.args) (Area.uniformsU.stop job.args)
    job.args.uniformsOffset.toNat job.args.uniformsOffset.toNat job.shaders

/-! ## The accesses for a shader -/

/-- The accesses for samples of which the first is the number `i` are good: reads of their handles
and parameters, and writes for those that were accepted. -/
def SamplesGood (I : Access → Prop) (handles data v i : ℕ)
    (read written : List TextureSampleInfo) : Prop :=
  (∀ k < read.length, I ⟨.uniformsU, handles + 4 * (i + k), 4⟩) ∧
  (∀ sample ∈ read, ∀ a ∈ texAccesses data sample, I a) ∧
  ∀ sample ∈ written, I ⟨.uniformsV, v + (sample.pOffset 0).toNat, 4⟩

/-- The accesses for a shader to the uniforms, at the positions `u` and `v`, are good as far as they
were made for some of its samples and addresses. -/
def PartGood (I : Access → Prop) (u v : ℕ) (shader : ValidatedShaderInfo)
    (read written : List TextureSampleInfo) (addrOffsets : List U32) : Prop :=
  (I ⟨.uniformsU, u + 4 * shader.textureSamples.length, shader.uniformsSize.toNat⟩ ∧
    I ⟨.uniformsV, v, shader.uniformsSize.toNat⟩) ∧
  SamplesGood I u (u + 4 * shader.textureSamples.length) v 0 read written ∧
  ∀ o ∈ addrOffsets, I ⟨.uniformsV, v + 4 * o.toNat, 4⟩

/-- The accesses for a shader to the uniforms, at the positions `u` and `v`, are good. -/
def ShaderGood (I : Access → Prop) (u v : ℕ) (shader : ValidatedShaderInfo) : Prop :=
  PartGood I u v shader shader.textureSamples shader.textureSamples shader.uniformAddrOffsets

/-- So are those that were made until the sample `j` was refused. -/
def RefusedGood (I : Access → Prop) (u v : ℕ) (shader : ValidatedShaderInfo) (j : ℕ) : Prop :=
  PartGood I u v shader (shader.textureSamples.take (j + 1)) (shader.textureSamples.take j) []

/-- The accesses for shaders to the uniforms are good, when the first one is at `u` and `v`. -/
def ShadersGood (I : Access → Prop) : ℕ → ℕ → List ValidatedShaderInfo → Prop
  | _, _, [] => True
  | u, v, shader :: shaders =>
    ShaderGood I u v shader ∧
      ShadersGood I (u + shader.uniformsSrcSize.toNat) (v + shader.uniformsSize.toNat) shaders

lemma shadersGood_append (I : Access → Prop) (l l' : List ValidatedShaderInfo) (u v : ℕ) :
    ShadersGood I u v (l ++ l') ↔ ShadersGood I u v l ∧
      ShadersGood I (u + uniformsSpan l) (v + validatedSpan l) l' := by
  induction l generalizing u v with
  | nil => simp [ShadersGood, uniformsSpan, validatedSpan]
  | cons shader l ih =>
    simp only [cons_append, ShadersGood, ih, uniformsSpan, validatedSpan, map_cons,
      sum_cons, Nat.add_assoc, and_assoc]

/-- Where the validation of the uniforms of `shaders`, which begin at `u` and `v`, has stopped, and
under which condition the accesses until then are good. -/
inductive Stops (I : Access → Prop) : ℕ → ℕ → List ValidatedShaderInfo → Exec → Prop → Prop
  /-- Before the uniforms of the next shader. -/
  | here {u v : ℕ} {shaders : List ValidatedShaderInfo} {exec : Exec} (hU : exec.uniformsU = u)
      (hV : exec.uniformsV = v) : Stops I u v shaders exec True
  /-- At a sample of the next shader. -/
  | inside {u v j : ℕ} {shader : ValidatedShaderInfo} {shaders : List ValidatedShaderInfo}
      {exec : Exec} {P : Prop} (hU : exec.uniformsU = u) (hV : exec.uniformsV = v)
      (hj : j < shader.textureSamples.length) (hP : P ↔ RefusedGood I u v shader j) :
      Stops I u v (shader :: shaders) exec P
  /-- Behind the next shader. -/
  | behind {u v : ℕ} {shader : ValidatedShaderInfo} {shaders : List ValidatedShaderInfo}
      {exec : Exec} {P : Prop}
      (h : Stops I (u + shader.uniformsSrcSize.toNat) (v + shader.uniformsSize.toNat) shaders
        exec P) :
      Stops I u v (shader :: shaders) exec (ShaderGood I u v shader ∧ P)

namespace Stops

variable {exec : Exec} {P : Prop} {l l' : List ValidatedShaderInfo}

/-- More shaders behind it do not matter. -/
lemma append_left (h : Stops I u v l exec P) : Stops I u v (l ++ l') exec P := by
  induction h with
  | here hU hV => exact .here hU hV
  | inside hU hV hj hP => exact .inside hU hV hj hP
  | behind _ ih => exact .behind ih

/-- The same for shaders before it, which are then all done. -/
lemma append_right (h : Stops I (u + uniformsSpan l) (v + validatedSpan l) l' exec P) :
    Stops I u v (l ++ l') exec (ShadersGood I u v l ∧ P) := by
  induction l generalizing u v with
  | nil =>
    rw [ShadersGood, true_and]
    exact h
  | cons shader l ih =>
    rw [ShadersGood, and_assoc]
    refine .behind (ih ?_)
    simpa only [uniformsSpan, validatedSpan, map_cons, sum_cons, Nat.add_assoc] using h

lemma of_shadersGood (h : Stops I u v l exec P) (hall : ShadersGood I u v l) : P := by
  induction h with
  | here => trivial
  | inside _ _ hj hP =>
    obtain ⟨⟨hcopy, ⟨hhandles, hreads, hwrites⟩, -⟩, -⟩ := hall
    refine hP.2 ⟨hcopy, ⟨fun k hk => hhandles k (hk.trans_le (length_take_le' _ _)),
      fun sample hs => hreads sample (mem_of_mem_take hs),
      fun sample hs => hwrites sample (mem_of_mem_take hs)⟩, by simp⟩
  | behind _ ih => exact ⟨hall.1, ih hall.2⟩

end Stops

lemma samplesGood_cons {data : ℕ} {sample : TextureSampleInfo}
    {read written : List TextureSampleInfo} :
    SamplesGood I handles data v i (sample :: read) written ↔
      I ⟨.uniformsU, handles + 4 * i, 4⟩ ∧ (∀ a ∈ texAccesses data sample, I a) ∧
        SamplesGood I handles data v (i + 1) read written := by
  simp only [SamplesGood, length_cons, Nat.forall_lt_succ_left, forall_mem_cons, Nat.add_zero,
    Nat.add_right_comm i 1, ← Nat.add_assoc i]
  tauto

lemma samplesGood_written {data : ℕ} {sample : TextureSampleInfo}
    {read written : List TextureSampleInfo} :
    SamplesGood I handles data v i read (sample :: written) ↔
      I ⟨.uniformsV, v + (sample.pOffset 0).toNat, 4⟩ ∧
        SamplesGood I handles data v i read written := by
  simp only [SamplesGood, forall_mem_cons]
  tauto

lemma shadersGood_of_uniforms (hI : ∀ a : Access, a.area.isRec = false → I a)
    (shaders : List ValidatedShaderInfo) (u v : ℕ) : ShadersGood I u v shaders := by
  induction shaders generalizing u v with
  | nil => trivial
  | cons shader shaders ih =>
    refine ⟨⟨⟨hI _ rfl, hI _ rfl⟩, ⟨fun j _ => hI _ rfl, fun sample _ a ha => ?_,
      fun sample _ => hI _ rfl⟩, fun o _ => hI _ rfl⟩, ih _ _⟩
    obtain ⟨i, -, rfl⟩ := mem_map.1 ha
    exact hI _ rfl

lemma inArea_foldr_max {start : ℕ} {l : List ℕ} (hlo : lo ≤ start) :
    InArea lo hi start ((l.map (· + 4)).foldr max m) ↔
      InArea lo hi start m ∧ ∀ x ∈ l, InArea lo hi (start + x) 4 := by
  induction l with
  | nil => simp
  | cons x l ih =>
    have hmax : InArea lo hi start (max (x + 4) ((l.map (· + 4)).foldr max m)) ↔
        InArea lo hi (start + x) 4 ∧ InArea lo hi start ((l.map (· + 4)).foldr max m) := by
      unfold InArea
      omega
    rw [map_cons, foldr_cons, hmax, ih, forall_mem_cons, and_left_comm]

lemma inArea_add {start : ℕ} (hlo : lo ≤ start) :
    InArea lo hi start (m + n) ↔ InArea lo hi start m ∧ InArea lo hi (start + m) n := by
  unfold InArea
  omega

lemma inArea_words {start : ℕ} (hlo : lo ≤ start) :
    InArea lo hi start (4 * n) ↔ ∀ j < n, InArea lo hi (start + 4 * j) 4 := by
  unfold InArea
  constructor
  · intro h j hj
    exact .inr ⟨by omega, by omega⟩
  · intro h
    cases n with
    | zero => exact .inl rfl
    | succ n =>
      have := h n (by omega)
      exact .inr ⟨hlo, by omega⟩

section Reach

variable {shader : ValidatedShaderInfo} {shaders : List ValidatedShaderInfo}
  (hu : Area.uniformsU.start args ≤ u) (hv : Area.uniformsU.start args ≤ v)

include hu hv

lemma partGood_within_iff {read written : List TextureSampleInfo} {addrOffsets : List U32} :
    PartGood (Access.Within args) u v shader read written addrOffsets ↔
      ((∀ k < read.length, InUniforms args (u + 4 * k) 4) ∧
      InUniforms args (u + 4 * shader.textureSamples.length)
        (((readOffsets read).map (· + 4)).foldr max shader.uniformsSize.toNat)) ∧
      InUniforms args v (((writtenOffsets written addrOffsets).map (· + 4)).foldr max
        shader.uniformsSize.toNat) := by
  have hdata : Area.uniformsU.start args ≤ u + 4 * shader.textureSamples.length := by omega
  have hreads : (∀ sample ∈ read,
      ∀ a ∈ texAccesses (u + 4 * shader.textureSamples.length) sample, a.Within args) ↔
      ∀ x ∈ readOffsets read,
        InUniforms args (u + 4 * shader.textureSamples.length + x) 4 := by
    simp only [texAccesses, readOffsets, mem_flatMap, mem_map, forall_exists_index, and_imp]
    constructor
    · rintro h _ sample hs i hi rfl
      exact h sample hs _ i hi rfl
    · rintro h sample hs _ i hi rfl
      exact h _ sample hs i hi rfl
  rw [PartGood, SamplesGood, hreads, InUniforms, inArea_foldr_max hdata, InUniforms,
    inArea_foldr_max hv, writtenOffsets]
  simp only [Nat.zero_add, forall_mem_append, forall_mem_map]
  constructor
  · rintro ⟨⟨h1, h2⟩, ⟨h3, h4, h5⟩, h6⟩
    exact ⟨⟨h3, h1, h4⟩, h2, h5, h6⟩
  · rintro ⟨⟨h3, h1, h4⟩, h2, h5, h6⟩
    exact ⟨⟨h1, h2⟩, ⟨h3, h4, h5⟩, h6⟩

lemma shaderGood_within_iff :
    ShaderGood (Access.Within args) u v shader ↔
      InUniforms args u shader.readReach ∧ InUniforms args v shader.writeReach := by
  rw [ShaderGood, partGood_within_iff hu hv, ← inArea_words hu, ← inArea_add hu]
  exact Iff.rfl

/-- The parameters of the refused sample lie behind the handles, so that they decide how far the
reads go. -/
lemma refusedGood_within_iff {j : ℕ} (hj : j < shader.textureSamples.length) :
    RefusedGood (Access.Within args) u v shader j ↔
      InUniforms args u (shader.readReachAt j) ∧ InUniforms args v (shader.writeReachAt j) := by
  have hdata : Area.uniformsU.start args ≤ u + 4 * shader.textureSamples.length := by omega
  rw [RefusedGood, partGood_within_iff hu hv, ValidatedShaderInfo.readReachAt,
    InUniforms.eq_1 args u, inArea_add hu, inArea_words hu]
  refine and_congr_left fun _ => and_congr_left fun hreads => ?_
  have hmem : (shader.textureSamples[j].pOffset 0).toNat ∈
      readOffsets (shader.textureSamples.take (j + 1)) :=
    mem_flatMap.2 ⟨_, mem_take_iff_getElem.2 ⟨j, by omega, rfl⟩, mem_map_of_mem (by simp)⟩
  have hread := (((inArea_foldr_max hdata).1 hreads).2 _ hmem).resolve_left (by omega)
  refine iff_of_true (fun k hk => ?_) fun k hk => ?_
  · rw [length_take] at hk
    exact .inr ⟨by omega, by omega⟩
  · exact .inr ⟨by omega, by omega⟩

lemma shadersGood_within_iff :
    ShadersGood (Access.Within args) u v shaders ↔
      UniformsFit (Area.uniformsU.start args) (Area.uniformsU.stop args) u v shaders := by
  induction shaders generalizing u v with
  | nil => exact Iff.rfl
  | cons shader shaders ih =>
    rw [ShadersGood, UniformsFit, shaderGood_within_iff hu hv, ih (by omega) (by omega), and_assoc]

/-- The condition under which the accesses until a stop are inside, by the sizes of the shaders. -/
lemma Stops.exists_fitTo {exec : Exec} {P : Prop}
    (h : Stops (Access.Within args) u v shaders exec P) :
    ∃ n ≤ shaders.length, exec.uniformsU = u + uniformsSpan (shaders.take n) ∧
      exec.uniformsV = v + validatedSpan (shaders.take n) ∧
      ∃ sample : Option ℕ,
        (∀ j ∈ sample, ∃ shader ∈ shaders[n]?, j < shader.textureSamples.length) ∧
        (P ↔ UniformsFitTo (Area.uniformsU.start args) (Area.uniformsU.stop args) u v shaders n
          sample) := by
  induction h with
  | here hU hV => exact ⟨0, Nat.zero_le _, hU, hV, none, by simp [UniformsFitTo, UniformsFit]⟩
  | inside hU hV hj hP =>
    refine ⟨0, Nat.zero_le _, hU, hV, some _, by simpa using hj, ?_⟩
    rw [hP, refusedGood_within_iff hu hv hj]
    simp [UniformsFitTo, UniformsFit, uniformsSpan, validatedSpan]
  | behind _ ih =>
    obtain ⟨n, hn, hU, hV, sample, hsample, hiff⟩ := ih (by omega) (by omega)
    refine ⟨n + 1, by simpa using hn, ?_, ?_, sample, by simpa using hsample, ?_⟩
    · simpa [uniformsSpan, Nat.add_assoc] using hU
    · simpa [validatedSpan, Nat.add_assoc] using hV
    · rw [shaderGood_within_iff hu hv, hiff]
      simp only [UniformsFitTo, UniformsFit, take_succ_cons, getElem?_cons_succ, uniformsSpan,
        validatedSpan, map_cons, sum_cons, Nat.add_assoc, and_assoc]

end Reach

/-! ## The validation -/

section Validation

variable {job : Job} {exec : Exec} {I : Access → Prop}

lemma relocTex_accesses (data : ℕ) (v : ValidatedShader) (i : ℕ) (sample : TextureSampleInfo)
    (handle : U32) (isCs : Bool) :
    Logs Exec.accesses I
      ((∀ a ∈ texAccesses data sample, I a) ∧
        I ⟨.uniformsV, exec.cursors.uniformsV + (sample.pOffset 0).toNat, 4⟩)
      (fun exec' P => exec'.cursors = exec.cursors ∧ (P ↔ ∀ a ∈ texAccesses data sample, I a))
      exec (relocTex job data v i sample handle isCs exec) := by
  have hread : Adds Exec.accesses I (∀ a ∈ texAccesses data sample, I a) exec
      (exec.readTexWords data sample) := .entries (by simp)
  refine Logs.after (S := fun exec' P => exec'.cursors = exec.cursors ∧ P) hread ?_
    fun exec' P h => ⟨h.1, and_iff_left h.2⟩
  simp only [relocTex]
  split
  · exact .fail rfl ⟨rfl, trivial⟩
  · split_ifs
    · exact .fail rfl ⟨rfl, trivial⟩
    · exact .fail rfl ⟨rfl, trivial⟩
    · exact Adds.entry (by simp; rfl)
    · exact .fail rfl ⟨rfl, trivial⟩
    · exact Adds.entry (by simp; rfl)
    · exact Adds.entry (by simp; rfl)

/-- The loop over `samples` has stopped at one of them, and the accesses until then are good. -/
def SamplesStop (I : Access → Prop) (handles data : ℕ) (c : Cursors) (i : ℕ)
    (samples : List TextureSampleInfo) (exec : Exec) (P : Prop) : Prop :=
  exec.cursors = c ∧ ∃ j < samples.length,
    (P ↔ SamplesGood I handles data c.uniformsV i (samples.take (j + 1)) (samples.take j))

/-- Induction over the samples: the loop stops at the first, or at one of the rest. -/
lemma relocTexs_accesses (handles data : ℕ) (v : ValidatedShader) (isCs : Bool) (i : ℕ)
    (samples : List TextureSampleInfo) :
    Logs Exec.accesses I (SamplesGood I handles data exec.cursors.uniformsV i samples samples)
      (SamplesStop I handles data exec.cursors i samples) exec
      (relocTexs job handles data v isCs i samples exec) := by
  induction samples generalizing i exec with
  | nil => exact (Adds.none rfl).congr (by simp [SamplesGood])
  | cons sample samples ih =>
    have hhandle : Adds Exec.accesses I (I ⟨.uniformsU, handles + 4 * i, 4⟩) exec
      (exec.access .uniformsU (handles + 4 * i) 4) := .entry (by simp)
    have htex := @relocTex_accesses job (exec.access .uniformsU (handles + 4 * i) 4) I data v i
      sample (job.temp.read32 (handles + 4 * i)) isCs
    -- the loop stops at this sample, or at one of the rest
    have hfirst := htex.mono Iff.rfl (T := fun exec' P => SamplesStop I handles data exec.cursors i
        (sample :: samples) exec' (I ⟨.uniformsU, handles + 4 * i, 4⟩ ∧ P))
      fun exec' P h => ⟨h.1, 0, by simp, by simp [h.2, SamplesGood]⟩
    refine (Logs.after hhandle (Logs.bind hfirst
      (Q := SamplesGood I handles data exec.cursors.uniformsV (i + 1) samples samples)
      (T := SamplesStop I handles data exec.cursors (i + 1) samples) (fun exec' hok => ?_) ?_)
      fun _ _ h => h).mono ?_ fun _ _ h => h
    · rw [← show exec'.cursors = exec.cursors from (relocTex_ok hok).1]
      exact ih (i + 1)
    · rintro exec' P ⟨hc, j, hj, hP⟩
      refine ⟨hc, j + 1, by simpa using hj, ?_⟩
      rw [take_succ_cons, take_succ_cons, samplesGood_cons, samplesGood_written, ← hP, and_assoc]
      exact Iff.rfl
    · rw [samplesGood_cons, samplesGood_written, and_assoc]
      exact Iff.rfl

lemma foldl_fillUniformAddr_accesses (offsets : List U32) :
    Adds Exec.accesses I
      (∀ o ∈ offsets, I ⟨.uniformsV, exec.cursors.uniformsV + 4 * o.toNat, 4⟩) exec
      (offsets.foldl Exec.fillUniformAddr exec) := by
  induction offsets generalizing exec with
  | nil => exact (Adds.none rfl).congr (by simp)
  | cons o offsets ih =>
    have hfirst : Adds Exec.accesses I
        (I ⟨.uniformsV, exec.cursors.uniformsV + 4 * o.toNat, 4⟩) exec
      (exec.fillUniformAddr o) := .entry rfl
    refine (hfirst.trans (@ih (exec.fillUniformAddr o))).congr ?_
    rw [forall_mem_cons, (Exec.fillUniformAddr_fields ..).1]

/-- The record at `pktU`, which is validated to `pktV`, lies in the shader records. -/
structure RecWithin (args : SubmitCl) (pktU pktV size : ℕ) : Prop where
  startU : args.shaderRecOffset.toNat ≤ pktU
  stopU : pktU + size ≤ args.shaderRecOffset.toNat + args.shaderRecSize.toNat
  startV : args.shaderRecOffset.toNat ≤ pktV
  stopV : pktV + size ≤ args.shaderRecOffset.toNat + args.shaderRecSize.toNat

/-- The property holds of what stays in the shader records. -/
def RecsGood (args : SubmitCl) (I : Access → Prop) : Prop :=
  ∀ a : Access, a.area.isRec = true → a.Within args → I a

lemma RecWithin.readGood (h : RecWithin args pktU pktV size) (hI : RecsGood args I)
    (ho : o + n ≤ size) : I ⟨.shaderRecU, pktU + o, n⟩ := by
  obtain ⟨h1, h2, -, -⟩ := h
  exact hI _ rfl (.inr ⟨by simp [Area.start, Area.isRec]; omega, by
    simp [Area.stop, Area.isRec]; omega⟩)

lemma RecWithin.writeGood (h : RecWithin args pktU pktV size) (hI : RecsGood args I)
    (ho : o + n ≤ size) : I ⟨.shaderRecV, pktV + o, n⟩ := by
  obtain ⟨-, -, h1, h2⟩ := h
  exact hI _ rfl (.inr ⟨by simp [Area.start, Area.isRec]; omega, by
    simp [Area.stop, Area.isRec]; omega⟩)

lemma relocShader_accesses {bo : Bo} {v : ValidatedShader} {isCs : Bool}
    (hrec : RecWithin job.args pktU pktV size) (hI : RecsGood job.args I) (ho : o + 8 ≤ size)
    (hv : bo.validatedShader = some v) :
    Logs Exec.accesses I (ShaderGood I exec.cursors.uniformsU exec.cursors.uniformsV v.info)
      (Stops I exec.cursors.uniformsU exec.cursors.uniformsV [v.info]) exec
      (relocShader job pktU pktV o bo isCs exec) := by
  have hput : Adds Exec.accesses I True exec (exec.putShader job.temp pktU pktV o bo) :=
    ⟨[⟨.shaderRecU, pktU + o, 4⟩, ⟨.shaderRecV, pktV + o, 4⟩],
      by simp [Exec.putShader],
      by simp [hrec.readGood hI (show o + 4 ≤ size by omega),
        hrec.writeGood hI (show o + 4 ≤ size by omega)]⟩
  refine Logs.after_good hput ?_
  simp only [relocShader, hv]
  split_ifs
  · exact .fail rfl (.here rfl rfl)
  · exact .fail rfl (.here rfl rfl)
  · have hcopy : Adds Exec.accesses I
        (I ⟨.uniformsU, exec.cursors.uniformsU + 4 * v.info.textureSamples.length,
            v.info.uniformsSize.toNat⟩ ∧
          I ⟨.uniformsV, exec.cursors.uniformsV, v.info.uniformsSize.toNat⟩)
        (exec.putShader job.temp pktU pktV o bo)
        ((exec.putShader job.temp pktU pktV o bo).copyUniforms job.temp v.info) := by
      refine (Adds.entries (Exec.copyUniforms_fields _ _ _).2.2).congr ?_
      simp
    have htexs := @relocTexs_accesses job
      ((exec.putShader job.temp pktU pktV o bo).copyUniforms job.temp v.info)
        I exec.cursors.uniformsU
      (exec.cursors.uniformsU + 4 * v.info.textureSamples.length) v isCs 0 v.info.textureSamples
    rw [(Exec.copyUniforms_fields ..).1] at htexs
    refine Logs.after hcopy (Logs.bind (T := fun _ _ => False) htexs (fun exec1 hok => ?_)
      fun _ _ => False.elim) ?_
    swap
    · rintro exec1 P ⟨hc, j, hj, hP⟩
      refine .inside (congrArg Cursors.uniformsU hc) (congrArg Cursors.uniformsV hc) hj ?_
      exact and_congr_right' (hP.trans (and_iff_left (by simp)).symm)
    have hcursors : exec1.cursors = exec.cursors := by simpa using (relocTexs_ok hok).1
    have hfill := @foldl_fillUniformAddr_accesses exec1 I v.info.uniformAddrOffsets
    rw [hcursors] at hfill
    have hlast : Adds Exec.accesses I True
      (v.info.uniformAddrOffsets.foldl Exec.fillUniformAddr exec1)
        (((v.info.uniformAddrOffsets.foldl Exec.fillUniformAddr exec1).putUniforms pktV
          o).advanceUniforms v.info) :=
      .good (hrec.writeGood hI (show (o + 4) + 4 ≤ size by omega)) rfl
    exact (hfill.trans hlast).congr (iff_of_eq (and_true _))

lemma nrAttributes_le (addr : U32) : nrAttributes addr ≤ 8 := by
  rw [nrAttributes]
  split_ifs
  · exact Nat.le_refl _
  · have : (addr &&& 7).toNat ≤ 7 := by
      exact Nat.and_le_right
    omega

lemma attribute_le {addr : U32} (hi : i < nrAttributes addr) :
    36 + i * 8 + 6 ≤ glShaderRecSize addr ∧
      (addr &&& 8 ≠ 0 → 100 + i * 4 + 4 ≤ glShaderRecSize addr) := by
  have h8 := nrAttributes_le addr
  rw [glShaderRecSize]
  split_ifs with hext
  · exact ⟨by omega, fun _ => by omega⟩
  · exact ⟨by omega, fun h => absurd h hext⟩

section

variable (hrec : RecWithin job.args pktU pktV (glShaderRecSize state.addr))
  (hI : RecsGood job.args I)

include hrec hI

lemma relocAttribute_accesses {vbo : Bo} (hi : i < nrAttributes state.addr) :
    Logs Exec.accesses I True (fun exec' P => exec'.cursors = exec.cursors ∧ P) exec
      (relocAttribute job k state pktU pktV i vbo exec) := by
  obtain ⟨hbase, hextra⟩ := attribute_le hi
  have hread : Adds Exec.accesses I True exec
      ((exec.access .shaderRecU (pktU + (36 + i * 8)) 6).depend vbo) :=
    .good (hrec.readGood hI hbase) rfl
  have hwrite : I ⟨.shaderRecV, pktV + (36 + i * 8), 4⟩ := hrec.writeGood hI (by omega)
  refine Logs.after_good hread ?_
  simp only [relocAttribute]
  by_cases hext : state.addr &&& 8 ≠ 0
  · have hstride : Adds Exec.accesses I True
        ((exec.access .shaderRecU (pktU + (36 + i * 8)) 6).depend vbo)
        (((exec.access .shaderRecU (pktU + (36 + i * 8)) 6).depend vbo).access
          .shaderRecU (pktU + 100 + i * 4) 4) := by
      rw [show pktU + 100 + i * 4 = pktU + (100 + i * 4) by omega]
      exact .good (hrec.readGood hI (hextra hext)) rfl
    refine Logs.after_good hstride ?_
    split_ifs
    · exact .fail rfl ⟨rfl, trivial⟩
    · exact .fail rfl ⟨rfl, trivial⟩
    · exact Adds.good hwrite rfl
  · split_ifs
    · exact .fail rfl ⟨rfl, trivial⟩
    · exact .fail rfl ⟨rfl, trivial⟩
    · exact Adds.good hwrite rfl

lemma relocAttributes_accesses (hi : i + vbos.length = nrAttributes state.addr) :
    Logs Exec.accesses I True (fun exec' P => exec'.cursors = exec.cursors ∧ P) exec
      (relocAttributes job k state pktU pktV i vbos exec) := by
  induction vbos generalizing i exec with
  | nil => exact Adds.none rfl
  | cons vbo vbos ih =>
    rw [length_cons] at hi
    refine (Logs.bind (T := fun exec' P => exec'.cursors = exec.cursors ∧ P)
      (relocAttribute_accesses hrec hI (by omega)) (fun exec' h => ?_)
      fun _ _ h => ⟨h.1, trivial, h.2⟩).mono (iff_of_eq (and_true _)) fun _ _ h => h
    rw [← relocAttribute_cursors h]
    exact ih (by omega)

end

lemma checkThreads_none {fs vs cs : Bo} (h : checkThreads job pktU fs vs cs = none) :
    ∃ v1 v2 v3, fs.validatedShader = some v1 ∧ vs.validatedShader = some v2 ∧
      cs.validatedShader = some v3 := by
  have hsome : ∀ (bo : Bo) (t : Bool), bo.isThreaded = some t → ∃ v, bo.validatedShader = some v :=
    fun bo t ht => by
      obtain ⟨v, hv, -⟩ := Option.map_eq_some_iff.1 ht
      exact ⟨v, hv⟩
  rw [checkThreads] at h
  split at h
  · cases h
  next t1 h1 =>
    split_ifs at h
    split at h
    · cases h
    · cases h
    next h2 =>
      split at h
      · cases h
      · cases h
      next h3 =>
        obtain ⟨v1, hv1⟩ := hsome _ _ h1
        obtain ⟨v2, hv2⟩ := hsome _ _ h2
        obtain ⟨v3, hv3⟩ := hsome _ _ h3
        exact ⟨v1, v2, v3, hv1, hv2, hv3⟩

lemma relocRecord_accesses {srcHandles : ℕ}
    (hrec : RecWithin job.args pktU pktV (glShaderRecSize state.addr)) (hI : RecsGood job.args I)
    (hhandles : I ⟨.shaderRecU, srcHandles, nrRelocs state.addr * 4⟩) :
    Logs Exec.accesses I
      (ShadersGood I exec.cursors.uniformsU exec.cursors.uniformsV (recShaders job srcHandles))
      (Stops I exec.cursors.uniformsU exec.cursors.uniformsV (recShaders job srcHandles))
      exec (relocRecord job k state srcHandles pktU pktV exec) := by
  have h36 : 36 ≤ glShaderRecSize state.addr := by
    rw [glShaderRecSize]
    split_ifs <;> omega
  have htake : Adds Exec.accesses I True exec
      (exec.access .shaderRecU srcHandles (nrRelocs state.addr * 4)) := .good hhandles rfl
  refine Logs.after_good htake ?_
  simp only [relocRecord]
  split
  next fs vs cs vbos hfs hvs hcs hvbos =>
    have hflags : Adds Exec.accesses I True
        (exec.access .shaderRecU srcHandles (nrRelocs state.addr * 4))
        ((exec.access .shaderRecU srcHandles (nrRelocs state.addr * 4)).access
          .shaderRecU pktU 2) :=
      .good (hrec.readGood hI (show 0 + 2 ≤ _ by omega)) rfl
    refine Logs.after_good hflags ?_
    split
    · exact .fail rfl (.here rfl rfl)
    next hthreads =>
      obtain ⟨v1, v2, v3, hv1, hv2, hv3⟩ := checkThreads_none hthreads
      have hshaders : recShaders job srcHandles = [v1.info, v2.info, v3.info] := by
        simp [recShaders, recValidated, shaderHandles, hfs, hvs, hcs, hv1, hv2, hv3]
      rw [hshaders]
      refine Logs.bind ((relocShader_accesses hrec hI (by omega) hv1).mono Iff.rfl
        fun _ _ h => h.append_left) (fun exec1 h1 => ?_) fun _ _ h => .behind h
      obtain ⟨v1', hv1', hc1, -⟩ := relocShader_ok h1
      cases hv1.symm.trans hv1'
      have hvs2 : Logs Exec.accesses I _ _ exec1 (relocShader job pktU pktV 16 vs false exec1) :=
        relocShader_accesses hrec hI (by omega) hv2
      rw [hc1] at hvs2
      refine Logs.bind (hvs2.mono Iff.rfl fun _ _ h => h.append_left) (fun exec2 h2 => ?_)
        fun _ _ h => .behind h
      obtain ⟨v2', hv2', hc2, -⟩ := relocShader_ok h2
      cases hv2.symm.trans hv2'
      have hcs3 : Logs Exec.accesses I _ _ exec2 (relocShader job pktU pktV 28 cs true exec2) :=
        relocShader_accesses hrec hI (by omega) hv3
      rw [hc2, hc1] at hcs3
      refine Logs.bind hcs3 (fun exec3 h3 => ?_) fun _ _ h => .behind h
      obtain ⟨v3', hv3', hc3, -⟩ := relocShader_ok h3
      cases hv3.symm.trans hv3'
      refine (relocAttributes_accesses hrec hI
        (by rw [(lookupAttributes_spec hvbos).1, Nat.zero_add])).mono Iff.rfl fun exec4 P h => ?_
      obtain ⟨hc4, hP⟩ := h
      rw [hc3, hc2, hc1] at hc4
      rw [eq_true hP]
      exact .here (congrArg Cursors.uniformsU hc4) (congrArg Cursors.uniformsV hc4)
  · exact .fail rfl (.here rfl rfl)

/-- What is known of the position in the shader records: what is left of them is there, and the
validated ones are not ahead. -/
structure RecCursor (args : SubmitCl) (c : Cursors) : Prop where
  left : c.shaderRecU + c.shaderRecSize.toNat =
    args.shaderRecOffset.toNat + args.shaderRecSize.toNat
  start : args.shaderRecOffset.toNat ≤ c.shaderRecV
  behind : c.shaderRecV ≤ c.shaderRecU

lemma roundUp_recSize_le (addr : U32) :
    roundUp (glShaderRecSize addr) 16 ≤ glShaderRecSize addr + nrRelocs addr * 4 := by
  have hlt := roundUp_lt (x := glShaderRecSize addr) (y := 16) (by decide)
  have hpos : 0 < nrAttributes addr := by
    rw [nrAttributes]
    split_ifs with h
    · decide
    · exact Nat.pos_of_ne_zero fun h0 => h (BitVec.eq_of_toNat_eq h0)
  rw [nrRelocs]
  omega

lemma recSize_lt (addr : U32) : nrRelocs addr * 4 < 2 ^ 32 ∧ glShaderRecSize addr < 2 ^ 32 := by
  have h8 := nrAttributes_le addr
  rw [nrRelocs, glShaderRecSize]
  split_ifs <;> omega

lemma toNat_sub_ofNat {x : U32} (hlt : n < 2 ^ 32) (hle : n ≤ x.toNat) :
    (x - BitVec.ofNat 32 n).toNat = x.toNat - n := by
  have hn : (BitVec.ofNat 32 n).toNat = n := by rw [BitVec.toNat_ofNat, Nat.mod_eq_of_lt hlt]
  rw [BitVec.toNat_sub_of_le (by rwa [BitVec.le_def, hn]), hn]

section Record

variable {k : ℕ} {state : ShaderState} (hcursor : RecCursor job.args exec.cursors)
  (hhandles : ¬ exec.shaderRecSize.toNat < nrRelocs state.addr * 4)
  (hpacket : ¬ (exec.takeHandles (nrRelocs state.addr * 4)).shaderRecSize.toNat <
    glShaderRecSize state.addr)

include hhandles in
lemma takeHandles_size :
    (exec.takeHandles (nrRelocs state.addr * 4)).shaderRecSize.toNat =
      exec.cursors.shaderRecSize.toNat - nrRelocs state.addr * 4 :=
  toNat_sub_ofNat (recSize_lt state.addr).1 (Nat.le_of_not_lt hhandles)

include hcursor hhandles hpacket in
lemma RecCursor.recWithin :
    RecWithin job.args (exec.takeHandles (nrRelocs state.addr * 4)).shaderRecU
      (exec.takeHandles (nrRelocs state.addr * 4)).shaderRecV (glShaderRecSize state.addr) := by
  obtain ⟨hleft, hstart, hbehind⟩ := hcursor
  rw [takeHandles_size hhandles] at hpacket
  simp only [Exec.cursors] at hleft hstart hbehind hpacket
  constructor <;> simp only [Exec.takeHandles] <;> omega

include hcursor hhandles hpacket in
lemma RecCursor.next {c : Cursors} (hU : c.shaderRecU =
      exec.cursors.shaderRecU + nrRelocs state.addr * 4 + glShaderRecSize state.addr)
    (hV : c.shaderRecV = exec.cursors.shaderRecV + roundUp (glShaderRecSize state.addr) 16)
    (hsize : c.shaderRecSize = exec.cursors.shaderRecSize -
      BitVec.ofNat 32 (nrRelocs state.addr * 4) - BitVec.ofNat 32 (glShaderRecSize state.addr)) :
    RecCursor job.args c := by
  obtain ⟨hleft, hstart, hbehind⟩ := hcursor
  have hround := roundUp_recSize_le state.addr
  have htake := takeHandles_size hhandles
  have hsize' : c.shaderRecSize.toNat = exec.cursors.shaderRecSize.toNat -
      nrRelocs state.addr * 4 - glShaderRecSize state.addr := by
    rw [← htake, hsize]
    exact toNat_sub_ofNat (recSize_lt state.addr).2 (Nat.le_of_not_lt hpacket)
  change ¬ exec.cursors.shaderRecSize.toNat < _ at hhandles
  exact ⟨by omega, by omega, by omega⟩

end Record

/-- Within a shader record only the uniforms can be left. -/
lemma validateGlShaderRec_accesses (hcursor : RecCursor job.args exec.cursors)
    (hI : RecsGood job.args I) :
    Logs Exec.accesses I
      (ShadersGood I exec.cursors.uniformsU exec.cursors.uniformsV
        (recShaders job exec.cursors.shaderRecU))
      (Stops I exec.cursors.uniformsU exec.cursors.uniformsV
        (recShaders job exec.cursors.shaderRecU))
      exec (validateGlShaderRec job k state exec) := by
  simp only [validateGlShaderRec]
  by_cases hhandles : exec.shaderRecSize.toNat < nrRelocs state.addr * 4
  · rw [if_pos hhandles]
    exact .fail rfl (.here rfl rfl)
  rw [if_neg hhandles]
  by_cases hpacket : (exec.takeHandles (nrRelocs state.addr * 4)).shaderRecSize.toNat <
      glShaderRecSize state.addr
  · rw [if_pos hpacket]
    exact .fail rfl (.here rfl rfl)
  have hround := roundUp_recSize_le state.addr
  rw [if_neg hpacket, if_neg (by omega)]
  have hrec := hcursor.recWithin hhandles hpacket
  have hcopy : Adds Exec.accesses I True exec
      (((exec.takeHandles (nrRelocs state.addr * 4)).copyRecord job.temp
        (glShaderRecSize state.addr)).finishRecord (glShaderRecSize state.addr)) := by
    have hread := hrec.readGood hI (show 0 + glShaderRecSize state.addr ≤ _ by omega)
    have hwrite := hrec.writeGood hI (show 0 + glShaderRecSize state.addr ≤ _ by omega)
    rw [Nat.add_zero] at hread hwrite
    exact ⟨_, (Exec.copyRecord_fields _ _ _).2.2, by simp [hread, hwrite]⟩
  refine Logs.after_good hcopy ?_
  have hhandlesGood : I ⟨.shaderRecU, exec.shaderRecU, nrRelocs state.addr * 4⟩ := by
    obtain ⟨hleft, hstart, hbehind⟩ := hcursor
    simp only [Exec.cursors] at hleft hstart hbehind
    exact hI _ rfl (.inr ⟨by simp [Area.start, Area.isRec]; omega, by
      simp [Area.stop, Area.isRec]; omega⟩)
  have hlogs := @relocRecord_accesses k _ _ state job
    (((exec.takeHandles (nrRelocs state.addr * 4)).copyRecord job.temp
      (glShaderRecSize state.addr)).finishRecord (glShaderRecSize state.addr)) I exec.shaderRecU
    hrec hI hhandlesGood
  simp only [Exec.finishRecord_fields] at hlogs
  exact hlogs

/-- Induction over the records, with what is left of them as the invariant. -/
lemma shaderRecsLoop_accesses {states : List ShaderState}
    (hmax : ∀ i state, states[i]? = some state → ∀ d, job.draws[k + i]? = some d →
      d.maxIndex ≤ state.maxIndex.toNat)
    (hcursor : RecCursor job.args exec.cursors) (hI : RecsGood job.args I) :
    Logs Exec.accesses I
      (ShadersGood I exec.cursors.uniformsU exec.cursors.uniformsV
        (recsShaders job exec.cursors.shaderRecU (states.map ShaderState.addr)))
      (Stops I exec.cursors.uniformsU exec.cursors.uniformsV
        (recsShaders job exec.cursors.shaderRecU (states.map ShaderState.addr)))
      exec (shaderRecsLoop job k states exec) := by
  induction states generalizing k exec with
  | nil => exact Adds.none rfl
  | cons state states ih =>
    rw [map_cons, recsShaders, shadersGood_append]
    refine Logs.bind ((validateGlShaderRec_accesses hcursor hI).mono Iff.rfl
      fun _ _ h => h.append_left) (fun exec1 h1 => ?_) fun _ _ => Stops.append_right
    obtain ⟨hc1, -⟩ := validateGlShaderRec_ok (fun d hd => hmax 0 state rfl d hd) h1
    simp only [validateGlShaderRec, Exec.ite_fail_eq_ok] at h1
    have hnext := hcursor.next h1.1 h1.2.1 (congrArg Cursors.shaderRecU hc1)
      (congrArg Cursors.shaderRecV hc1) (congrArg Cursors.shaderRecSize hc1)
    have hrest := ih (k := k + 1)
      (fun i s hs d hd => hmax (i + 1) s hs d (by rw [← hd]; congr 1; omega)) hnext
    rw [hc1] at hrest
    exact hrest

end Validation

/-! ## The command list makes no such access -/

section BinCl

variable (job : Job)

/-- What the command list leaves alone: the accesses and the positions in the uniforms. -/
def Exec.trail (exec : Exec) : List Access × ℕ × ℕ :=
  (exec.accesses, exec.uniformsU, exec.uniformsV)

lemma raiseMaxIndex_trail {exec exec' : Exec} {maxIndex : U32}
    (h : exec.raiseMaxIndex maxIndex = some exec') : exec'.trail = exec.trail := by
  obtain ⟨state, -, rfl⟩ := Option.map_eq_some_iff.1 h
  split_ifs <;> rfl

lemma validatePacket_trail (untrusted validated : ℕ) (exec : Exec) (packet : Packet) :
    (final (validatePacket job untrusted validated exec packet)).trail = exec.trail := by
  cases packet with
  | glIndexedPrimitive =>
    simp only [validatePacket, validateIndexedPrimList]
    split
    · rfl
    next exec1 h1 =>
      rw [← raiseMaxIndex_trail h1]
      split
      · rfl
      · split_ifs <;> rfl
  | glArrayPrimitive =>
    simp only [validatePacket, validateGlArrayPrimitive]
    split_ifs
    · rfl
    · rfl
    · split
      · rfl
      next exec1 h1 => exact raiseMaxIndex_trail h1
  | tileBinningModeConfig =>
    simp only [validatePacket, validateTileBinningConfig]
    split_ifs
    · rfl
    · rfl
    · rfl
    · split <;> rfl
  | glShaderState | flush | startTileBinning | incrementSemaphore =>
    simp only [validatePacket, validateGlShaderState, validateFlush, validateStartTileBinning,
      validateIncrementSemaphore]
    split_ifs <;> rfl
  | _ => rfl

/-- The state that the loop over the packets has left. -/
def loopFinal : Except (Fault × Exec) (ℕ × Exec) → Exec
  | .ok (_, exec) => exec
  | .error (_, exec) => exec

lemma binClLoop_trail (fuel src dst : ℕ) (exec : Exec) :
    (loopFinal (binClLoop job fuel src dst exec)).trail = exec.trail := by
  induction fuel generalizing src dst exec with
  | zero => rfl
  | succ fuel ih =>
    have hcopy : ∀ packet, (copyPacket job packet src dst exec).trail = exec.trail := by
      intro packet
      rw [copyPacket]
      split_ifs <;> rfl
    rw [binClLoop]
    by_cases hlt : src < job.args.binClSize.toNat
    · rw [if_pos hlt]
      split
      · rfl
      next packet hpacket =>
        have hvalid := validatePacket_trail job (src + 1) (dst + 1)
          (copyPacket job packet src dst exec) packet
        rw [hcopy] at hvalid
        split_ifs
        · rfl
        · split
          next h =>
            rw [h] at hvalid
            exact hvalid
          next h =>
            rw [h] at hvalid
            exact hvalid
        · split
          next h =>
            rw [h] at hvalid
            exact hvalid
          next h =>
            rw [h] at hvalid
            rw [ih]
            exact hvalid
    · rw [if_neg hlt]
      rfl

lemma validateBinCl_trail (exec : Exec) :
    (final (validateBinCl job exec)).trail = exec.trail := by
  have hloop := binClLoop_trail job (job.args.binClSize.toNat + 1) 0 0 exec
  rw [validateBinCl]
  split
  next h =>
    rw [h] at hloop
    exact hloop
  next h =>
    rw [h] at hloop
    dsimp only
    split_ifs <;> exact hloop

end BinCl

/-! ## Jobs -/

lemma getBcl_accesses (job : Job) (hI : RecsGood job.args I) :
    Logs Exec.accesses I
      (ShadersGood I job.args.uniformsOffset.toNat job.args.uniformsOffset.toNat job.shaders)
      (Stops I job.args.uniformsOffset.toNat job.args.uniformsOffset.toNat job.shaders)
      (initExec job) (getBcl job) := by
  rw [getBcl]
  split_ifs
  · exact .fail rfl (.here rfl rfl)
  · have htrail := validateBinCl_trail job (initExec job)
    have hnothing : Logs Exec.accesses I True (Stops I job.args.uniformsOffset.toNat
        job.args.uniformsOffset.toNat job.shaders) (initExec job)
        (validateBinCl job (initExec job)) :=
      .none (congrArg (·.1) htrail) (.here (congrArg (·.2.1) htrail) (congrArg (·.2.2) htrail))
    refine (Logs.bind hnothing (fun exec1 h1 => ?_) fun _ _ h => by rwa [true_and]).mono
      (iff_of_eq (true_and _)) fun _ _ h => h
    have hnone : Knows (initExec job).shaderState [] := List.Forall₂.nil
    obtain ⟨hknows, hcursors, -⟩ := validateBinCl_ok hnone h1
    have hcursor : RecCursor job.args exec1.cursors := by
      rw [hcursors]
      exact ⟨rfl, Nat.le_refl _, Nat.le_refl _⟩
    have hlogs := shaderRecsLoop_accesses (k := 0)
      (fun i state hi d hd => hknows.maxIndex_le hi (by rwa [Nat.zero_add] at hd)) hcursor hI
    rw [hknows.map_addr, hcursors] at hlogs
    exact hlogs

/-- The accesses of a job to its shader records never go beyond them. Those to its uniforms do
not if the uniforms of its shaders, one behind the other, are not more than there are; and a job
that is accepted without that has gone beyond them. If a job is refused, only the shaders before the
positions in the uniforms that the validation has come to count, and the next one as far as the
sample at which it was refused.

**Proof sketch.** All this is read off the trace of the accesses (`getBcl_accesses`). What is left
of the shader records is an invariant of the loop over them (`RecCursor.next`), which bounds every
record (`RecCursor.recWithin`). For the uniforms, nothing but the positions is known, so the
condition is about the positions that the shaders get to and how far each of them reaches. -/
theorem accesses_within (job : Job) :
    (∀ a ∈ (final (getBcl job)).accesses, a.area.isRec = true → a.Within job.args) ∧
      (job.UniformsFit → ∀ a ∈ (final (getBcl job)).accesses, a.Within job.args) ∧
      (∀ exec, getBcl job = .ok exec →
        ((∀ a ∈ exec.accesses, a.Within job.args) ↔ job.UniformsFit)) ∧
      ∀ e exec, getBcl job = .error (e, exec) →
        ∃ n ≤ job.shaders.length,
          exec.uniformsU = job.args.uniformsOffset.toNat + uniformsSpan (job.shaders.take n) ∧
          exec.uniformsV = job.args.uniformsOffset.toNat + validatedSpan (job.shaders.take n) ∧
          ∃ sample : Option ℕ,
            (∀ j ∈ sample, ∃ shader ∈ job.shaders[n]?, j < shader.textureSamples.length) ∧
            ((∀ a ∈ exec.accesses, a.Within job.args) ↔ job.UniformsFitTo n sample) := by
  have hstart : Area.uniformsU.start job.args ≤ job.args.uniformsOffset.toNat := Nat.le_refl _
  have hall := getBcl_accesses job (fun a _ ha => ha : RecsGood job.args (Access.Within job.args))
  refine ⟨?_, fun hfits => ?_, fun exec h => ?_, fun e exec h => ?_⟩
  · have hrec := getBcl_accesses job (I := fun a => a.area.isRec = true → a.Within job.args)
      (fun a _ ha _ => ha)
    have hgood := shadersGood_of_uniforms (I := fun a => a.area.isRec = true → a.Within job.args)
      (fun a ha hno => by rw [ha] at hno; cases hno) job.shaders
      job.args.uniformsOffset.toNat job.args.uniformsOffset.toNat
    exact hrec.forall_final rfl (fun _ _ h => h.of_shadersGood hgood) hgood
  · have hgood := (shadersGood_within_iff hstart hstart).2 hfits
    exact hall.forall_final rfl (fun _ _ h => h.of_shadersGood hgood) hgood
  · rw [h] at hall
    exact (Adds.forall_iff hall rfl).trans (shadersGood_within_iff hstart hstart)
  · rw [h] at hall
    obtain ⟨P, hstops, hadds⟩ := hall
    rw [hadds.forall_iff rfl]
    exact hstops.exists_fitTo hstart hstart

/-- The job with a cube map, with uniforms for one of its three shaders only. The second one then
finds the shader state, and what lies behind it. -/
def shortJob : Job :=
  { cubeJob 0x1000 with
    args := ⟨24, 60, 16, 1⟩
    temp i := (oneStateCl ++ oneStateRec ++ cubeUniforms 0x1000 ++ wordBytes [1, 0, 0x100100, 0] ++
      cubeUniforms 0x1000).getD i 0 }

/-- The job is accepted, as each shader is compared with all the uniforms. -/
theorem accesses_beyond : ∃ exec, getBcl shortJob = .ok exec ∧
    ⟨.uniformsU, 108, 4⟩ ∈ exec.accesses ∧ ⟨.uniformsV, 104, 12⟩ ∈ exec.accesses ∧
    ¬ Access.Within shortJob.args ⟨.uniformsU, 108, 4⟩ ∧
    ¬ Access.Within shortJob.args ⟨.uniformsV, 104, 12⟩ := by
  have hok : (getBcl shortJob).isOk = true := by decide +kernel
  have hmem : ⟨.uniformsU, 108, 4⟩ ∈ (final (getBcl shortJob)).accesses ∧
      ⟨.uniformsV, 104, 12⟩ ∈ (final (getBcl shortJob)).accesses := by decide +kernel
  cases h : getBcl shortJob with
  | error e =>
    rw [h] at hok
    cases hok
  | ok exec =>
    rw [h] at hmem
    exact ⟨exec, rfl, hmem.1, hmem.2, by decide, by decide⟩

end KmsDrm.Vc4
