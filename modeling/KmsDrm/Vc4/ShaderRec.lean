import KmsDrm.Vc4.Areas

/-!
# The lookups of a shader record

`validate_gl_shader_rec` takes three shaders and some attributes from `exec->bo`. Only the
attributes, like the textures, go through `vc4_use_bo`. The index of a shader may be
`exec->bo_count`, and the thread modes are compared before it is known that the three objects are
validated shaders.

## Main results

* `Vc4.lookups_safe_iff` — when no lookup leaves the table or follows a wrong pointer.
-/

namespace KmsDrm.Vc4

/-- The indices of `exec->bo` that `lookupShader` uses for these handles, up to the first one for
which it fails. -/
def shaderIndices (job : Job) : List U32 → List ℕ
  | [] => []
  | handle :: handles =>
    (if job.bo.length < handle.toNat then [] else [handle.toNat]) ++
      if (lookupShader job handle).isSome then shaderIndices job handles else []

/-- The indices of `exec->bo` that `vc4_use_bo` uses. -/
def useBoIndices (job : Job) (hindex : U32) : List ℕ :=
  if job.bo.length ≤ hindex.toNat then [] else [hindex.toNat]

/-- No handle is the number of objects, up to the first one that is beyond. -/
def InBounds (job : Job) : List U32 → Prop
  | [] => True
  | handle :: handles => handle.toNat ≠ job.bo.length ∧
    (handle.toNat < job.bo.length → InBounds job handles)

section

variable (job : Job) (k : ℕ) (state : ShaderState) (exec : Exec)

/-- The handles of the three shaders of the next record. -/
def recordHandles : List U32 :=
  [job.temp.read32 exec.shaderRecU, job.temp.read32 (exec.shaderRecU + 4),
    job.temp.read32 (exec.shaderRecU + 8)]

/-- The objects of a record, whose handles are at `handles`. -/
structure RecordObjects (handles : ℕ) (fs vs cs : Bo) (vbos : List Bo) : Prop where
  fs : lookupShader job (job.temp.read32 handles) = some fs
  vs : lookupShader job (job.temp.read32 (handles + 4)) = some vs
  cs : lookupShader job (job.temp.read32 (handles + 8)) = some cs
  vbos : lookupAttributes job (handles + 12) (nrAttributes state.addr) = some vbos

/-- There are bytes enough left for the handles and the record. -/
def HasRecord : Prop :=
  nrRelocs state.addr * 4 ≤ exec.shaderRecSize.toNat ∧
    glShaderRecSize state.addr ≤ (exec.takeHandles (nrRelocs state.addr * 4)).shaderRecSize.toNat

/-- The record of a shader state is looked up safely: only indices of objects are used, and the
validated shader of an object is used only if there is one, also where the record is rejected. -/
structure LookupsSafe : Prop where
  shaders : HasRecord state exec → ∀ i ∈ shaderIndices job (recordHandles job exec),
    i < job.bo.length
  others : ∀ hindex, ∀ i ∈ useBoIndices job hindex, i < job.bo.length
  validated : ∀ exec', validateGlShaderRec job k state exec ≠ .error (.oops, exec')

/-- The handles of a record are good: no handle of a shader that is looked at is the number of
objects, and if they all resolve, each object that is asked for its thread mode is a validated
shader. -/
structure HandlesGood : Prop where
  bounds : InBounds job (recordHandles job exec)
  threads : ∀ fs vs cs vbos, RecordObjects job state exec.shaderRecU fs vs cs vbos →
    fs.validatedShader.isSome ∧
      (fs.isThreaded = some
          (job.temp.read16 (exec.shaderRecU + nrRelocs state.addr * 4) &&& 1 == 0) →
        vs.validatedShader.isSome ∧ (vs.isThreaded = some false → cs.validatedShader.isSome))

end

variable {job : Job} {state : ShaderState} {exec : Exec}

lemma shaderIndices_lt_iff (handles : List U32) :
    (∀ i ∈ shaderIndices job handles, i < job.bo.length) ↔ InBounds job handles := by
  induction handles with
  | nil => simp [shaderIndices, InBounds]
  | cons handle handles ih =>
    rw [shaderIndices, InBounds, ← ih, lookupShader, Job.boAt]
    rcases Nat.lt_trichotomy handle.toNat job.bo.length with hlt | heq | hgt
    · simp [hlt, Nat.ne_of_lt hlt, Nat.not_lt_of_gt hlt]
    · simp [heq]
    · simp [hgt, Nat.ne_of_gt hgt, Nat.not_lt_of_gt hgt]

lemma useBoIndices_lt (hindex : U32) : ∀ i ∈ useBoIndices job hindex, i < job.bo.length := by
  rw [useBoIndices]
  split_ifs <;> simp_all

/-! ## Null pointers -/

/-- A computation follows no null pointer. -/
def NoOops (r : Result) : Prop := ∀ exec, r ≠ .error (.oops, exec)

lemma NoOops.ok : NoOops (.ok exec) := fun _ h => by cases h

lemma NoOops.einval : NoOops (exec.fail einval) := fun _ h => by cases h

lemma NoOops.bind {r : Result} {f : Exec → Result} (hr : NoOops r)
    (hf : ∀ exec, NoOops (f exec)) : NoOops (r.bind f) := by
  cases r with
  | ok exec => exact hf exec
  | error e => exact fun exec h => hr exec h

lemma relocTexs_noOops (handles data : ℕ) (v : ValidatedShader) (isCs : Bool) (i : ℕ)
    (samples : List TextureSampleInfo) :
    NoOops (relocTexs job handles data v isCs i samples exec) := by
  induction samples generalizing i exec with
  | nil => exact .ok
  | cons sample samples ih =>
    refine .bind ?_ fun _ => ih _
    unfold relocTex
    dsimp only
    repeat' split
    all_goals first | exact .einval | exact .ok

lemma relocShader_noOops (pktU pktV o : ℕ) (bo : Bo) (isCs : Bool) :
    NoOops (relocShader job pktU pktV o bo isCs exec) := by
  unfold relocShader
  dsimp only
  repeat' split
  · exact .einval
  · exact .einval
  · exact .einval
  · exact .bind (relocTexs_noOops _ _ _ _ _ _) fun _ => .ok

lemma relocAttributes_noOops (k pktU pktV i : ℕ) (vbos : List Bo) :
    NoOops (relocAttributes job k state pktU pktV i vbos exec) := by
  induction vbos generalizing i exec with
  | nil => exact .ok
  | cons vbo vbos ih =>
    refine .bind ?_ fun _ => ih _
    unfold relocAttribute
    dsimp only
    repeat' split
    all_goals first | exact .einval | exact .ok

lemma checkThreads_ne_oops_iff (pktU : ℕ) (fs vs cs : Bo) :
    checkThreads job pktU fs vs cs ≠ some .oops ↔ fs.validatedShader.isSome ∧
      (fs.isThreaded = some (job.temp.read16 pktU &&& 1 == 0) →
        vs.validatedShader.isSome ∧ (vs.isThreaded = some false → cs.validatedShader.isSome)) := by
  have hiff (bo : Bo) : bo.validatedShader.isSome = bo.isThreaded.isSome := by simp [Bo.isThreaded]
  rw [hiff, hiff, hiff, checkThreads]
  generalize (job.temp.read16 pktU &&& 1 == 0) = mode
  rcases fs.isThreaded with _ | _ | _ <;> rcases vs.isThreaded with _ | _ | _ <;>
    rcases cs.isThreaded with _ | _ | _ <;> cases mode <;> simp [einval]

lemma relocRecord_noOops_iff (k handles pktU pktV : ℕ) :
    NoOops (relocRecord job k state handles pktU pktV exec) ↔ ∀ fs vs cs vbos,
      RecordObjects job state handles fs vs cs vbos →
        checkThreads job pktU fs vs cs ≠ some .oops := by
  unfold relocRecord
  split
  · rename_i fs vs cs vbos hfs hvs hcs hvbos
    have hiff : (∀ fs vs cs vbos, RecordObjects job state handles fs vs cs vbos →
        checkThreads job pktU fs vs cs ≠ some .oops) ↔
        checkThreads job pktU fs vs cs ≠ some .oops := by
      refine ⟨fun h => h fs vs cs vbos ⟨hfs, hvs, hcs, hvbos⟩, fun h _ _ _ _ hobj => ?_⟩
      rwa [← Option.mem_unique hfs hobj.fs, ← Option.mem_unique hvs hobj.vs,
        ← Option.mem_unique hcs hobj.cs]
    rw [hiff]
    cases checkThreads job pktU fs vs cs with
    | some fault => simp [NoOops, Exec.fail]
    | none =>
      refine iff_of_true (.bind (relocShader_noOops _ _ _ _ _) fun _ => ?_) (by simp)
      exact .bind (relocShader_noOops _ _ _ _ _) fun _ =>
        .bind (relocShader_noOops _ _ _ _ _) fun _ => relocAttributes_noOops _ _ _ _ _
  · rename_i hnone
    exact iff_of_true .einval fun fs vs cs vbos h => (hnone fs vs cs vbos h.1 h.2 h.3 h.4).elim

/-- **A shader record is looked up safely exactly if its handles are good**: no handle of a shader
is the number of objects, and the objects whose thread modes are compared are validated shaders.

**Proof sketch.** Every lookup but that of a shader goes through `vc4_use_bo`, and every use of a
validated shader but that of its thread mode follows a check (`relocShader_noOops`). -/
theorem lookups_safe_iff (k : ℕ) :
    LookupsSafe job k state exec ↔ (HasRecord state exec → HandlesGood job state exec) := by
  by_cases hrec : HasRecord state exec
  · have hround := roundUp_recSize_le state.addr
    have hnull : NoOops (validateGlShaderRec job k state exec) ↔ ∀ fs vs cs vbos,
        RecordObjects job state exec.shaderRecU fs vs cs vbos →
          checkThreads job (exec.shaderRecU + nrRelocs state.addr * 4) fs vs cs ≠ some .oops := by
      rw [validateGlShaderRec, if_neg (Nat.not_lt.2 hrec.1), if_neg (Nat.not_lt.2 hrec.2),
        if_neg (by omega)]
      exact relocRecord_noOops_iff k _ _ _
    simp only [checkThreads_ne_oops_iff] at hnull
    exact ⟨fun h _ => ⟨(shaderIndices_lt_iff _).1 (h.shaders hrec), hnull.1 h.validated⟩,
      fun h => ⟨fun _ => (shaderIndices_lt_iff _).2 (h hrec).bounds, useBoIndices_lt,
        hnull.2 (h hrec).threads⟩⟩
  · refine iff_of_true ⟨fun h => (hrec h).elim, useBoIndices_lt, ?_⟩ fun h => (hrec h).elim
    rw [HasRecord] at hrec
    unfold validateGlShaderRec
    dsimp only
    split_ifs
    · exact NoOops.einval
    · exact NoOops.einval
    all_goals omega

/-- The job of one record whose shaders are objects without a validated shader. -/
def plainShaderJob : Job :=
  { cubeJob 0 with
    bo := List.replicate 2 pageBo }

/-- The thread mode of an object that is no shader is asked for. -/
theorem plain_shader_followed :
    ¬ LookupsSafe plainShaderJob 0 ⟨1, 0⟩ (initExec plainShaderJob) := by
  intro h
  have hfault : (match validateGlShaderRec plainShaderJob 0 ⟨1, 0⟩ (initExec plainShaderJob) with
      | .error e => some e.1 | .ok _ => none) = some .oops := by
    decide +kernel
  split at hfault
  · rename_i e he
    obtain ⟨fault, exec⟩ := e
    cases Option.some.inj hfault
    exact h.validated exec he
  · cases hfault

end KmsDrm.Vc4
