import KmsDrm.Lib.Int32
import KmsDrm.Vmwgfx.Room

/-!
# The walk over a command buffer

`vmw_cmd_check_all` goes through a command buffer, command by command. `vmw_cmd_check` reads the
header of a command, looks up its verifier and calls it. It checks that the command, as long as its
header says, fits into the rest of the buffer, but not that the header itself does, nor that the
command is as long as its verifier takes it to be; and the sum of the header's size and the size of
the header may wrap around.

## Main definitions

* `Vmwgfx.cmdCheckAll` — the walk.
* `Vmwgfx.Reached` — the commands that it comes to.

## Main results

* `Vmwgfx.cmd_check_all_inside_iff` — when it stays in the buffer.
-/

namespace KmsDrm.Vmwgfx

open Lib List

/-! ## The command table -/

/-- `struct vmw_cmd_entry`. -/
structure CmdEntry where
  /-- The verifier. -/
  func : Verifier
  userAllow : Bool
  /-- The command is not allowed with guest-backed objects. -/
  gbDisable : Bool
  /-- The command is allowed with guest-backed objects only. -/
  gbEnable : Bool
  deriving DecidableEq, Repr

/-- `VMW_CMD_DEF` for commands that share an entry. -/
def cmdDef (func : Verifier) (userAllow gbDisable gbEnable : Bool) (ids : List ℕ) :
    List (ℕ × CmdEntry) :=
  ids.map fun id => (id, ⟨func, userAllow, gbDisable, gbEnable⟩)

/-- `vmw_cmd_entries`, by the ids of the commands (`SVGA_3D_CMD_…`). -/
def vmwCmdEntries : List (ℕ × CmdEntry) :=
  -- SURFACE_DEFINE SURFACE_DESTROY CONTEXT_DEFINE CONTEXT_DESTROY SURFACE_DEFINE_V2
  -- GENERATE_MIPMAPS ACTIVATE_SURFACE DEACTIVATE_SURFACE SCREEN_DMA SET_UNITY_SURFACE_COOKIE
  -- OPEN_CONTEXT_SURFACE LOGICOPS_BITBLT LOGICOPS_TRANSBLT LOGICOPS_STRETCHBLT
  -- LOGICOPS_COLORFILL LOGICOPS_ALPHABLEND LOGICOPS_CLEARTYPEBLEND SET_OTABLE_BASE64
  cmdDef .invalid false false false [
    1040, 1041, 1045, 1046, 1070, 1071, 1080, 1081, 1082, 1083, 1084, 1085, 1086, 1087, 1088,
    1089, 1090, 1115] ++
  -- SURFACE_COPY
  cmdDef .surfaceCopyCheck true false false [1042] ++
  -- SURFACE_STRETCHBLT
  cmdDef .stretchBltCheck true false false [1043] ++
  -- SURFACE_DMA
  cmdDef .dma true false false [1044] ++
  -- SETTRANSFORM SETZRANGE SETRENDERSTATE SETMATERIAL SETLIGHTDATA SETLIGHTENABLED SETVIEWPORT
  -- SETCLIPPLANE CLEAR SETSCISSORRECT
  cmdDef .cidCheck true false false [
    1047, 1048, 1049, 1052, 1053, 1054, 1055, 1056, 1057, 1064] ++
  -- SETRENDERTARGET
  cmdDef .setRenderTargetCheck true false false [1050] ++
  -- SETTEXTURESTATE
  cmdDef .texState true false false [1051] ++
  -- PRESENT
  cmdDef .presentCheck false false false [1058] ++
  -- SHADER_DEFINE
  cmdDef .shaderDefine true false false [1059] ++
  -- SHADER_DESTROY
  cmdDef .shaderDestroy true false false [1060] ++
  -- SET_SHADER
  cmdDef .setShader true false false [1061] ++
  -- SET_SHADER_CONST
  cmdDef .setShaderConst true false false [1062] ++
  -- DRAW_PRIMITIVES
  cmdDef .draw true false false [1063] ++
  -- BEGIN_QUERY
  cmdDef .beginQuery true false false [1065] ++
  -- END_QUERY
  cmdDef .endQuery true false false [1066] ++
  -- WAIT_FOR_QUERY
  cmdDef .waitQuery true false false [1067] ++
  -- PRESENT_READBACK
  cmdDef .ok true false false [1068] ++
  -- BLIT_SURFACE_TO_SCREEN
  cmdDef .bltSurfScreenCheck false false false [1069] ++
  -- SET_OTABLE_BASE READBACK_OTABLE DEFINE_GB_MOB DESTROY_GB_MOB UPDATE_GB_MOB_MAPPING
  -- DEFINE_GB_SURFACE DESTROY_GB_SURFACE COND_BIND_GB_SURFACE DEFINE_GB_CONTEXT
  -- DESTROY_GB_CONTEXT BIND_GB_CONTEXT READBACK_GB_CONTEXT INVALIDATE_GB_CONTEXT
  -- DEFINE_GB_SHADER DESTROY_GB_SHADER ENABLE_GART DISABLE_GART MAP_MOB_INTO_GART
  -- UNMAP_GART_RANGE DEFINE_GB_SCREENTARGET DESTROY_GB_SCREENTARGET BIND_GB_SCREENTARGET
  -- UPDATE_GB_SCREENTARGET READBACK_GB_IMAGE_PARTIAL INVALIDATE_GB_IMAGE_PARTIAL GB_SCREEN_DMA
  -- BIND_GB_SURFACE_WITH_PITCH GB_MOB_FENCE DEFINE_GB_SURFACE_V2 REDEFINE_GB_MOB64
  -- DX_DEFINE_CONTEXT DX_DESTROY_CONTEXT DX_BIND_CONTEXT DX_READBACK_CONTEXT
  -- DX_INVALIDATE_CONTEXT
  cmdDef .invalid false false true [
    1091, 1092, 1093, 1094, 1096, 1097, 1098, 1100, 1107, 1108, 1109, 1110, 1111, 1112, 1113,
    1120, 1121, 1122, 1123, 1124, 1125, 1126, 1127, 1128, 1129, 1131, 1132, 1133, 1134, 1136,
    1143, 1144, 1145, 1146, 1147] ++
  -- BIND_GB_SURFACE
  cmdDef .bindGbSurface true false true [1099] ++
  -- UPDATE_GB_IMAGE
  cmdDef .updateGbImage true false true [1101] ++
  -- UPDATE_GB_SURFACE
  cmdDef .updateGbSurface true false true [1102] ++
  -- READBACK_GB_IMAGE
  cmdDef .readbackGbImage true false true [1103] ++
  -- READBACK_GB_SURFACE
  cmdDef .readbackGbSurface true false true [1104] ++
  -- INVALIDATE_GB_IMAGE
  cmdDef .invalidateGbImage true false true [1105] ++
  -- INVALIDATE_GB_SURFACE
  cmdDef .invalidateGbSurface true false true [1106] ++
  -- BIND_GB_SHADER
  cmdDef .bindGbShader true false true [1114] ++
  -- BEGIN_GB_QUERY
  cmdDef .beginGbQuery true false true [1116] ++
  -- END_GB_QUERY
  cmdDef .endGbQuery true false true [1117] ++
  -- WAIT_FOR_GB_QUERY
  cmdDef .waitGbQuery true false true [1118] ++
  -- NOP NOP_ERROR
  cmdDef .ok true false true [1119, 1137] ++
  -- SET_GB_SHADERCONSTS_INLINE
  cmdDef .cidCheck true false true [1130] ++
  -- DX_SET_SINGLE_CONSTANT_BUFFER
  cmdDef .dxSetSingleConstantBuffer true false true [1148] ++
  -- DX_SET_SHADER_RESOURCES
  cmdDef .dxSetShaderRes true false true [1149] ++
  -- DX_SET_SHADER
  cmdDef .dxSetShader true false true [1150] ++
  -- DX_SET_SAMPLERS DX_DRAW DX_DRAW_INDEXED DX_DRAW_INSTANCED DX_DRAW_INDEXED_INSTANCED
  -- DX_DRAW_AUTO DX_SET_INPUT_LAYOUT DX_SET_TOPOLOGY DX_SET_BLEND_STATE
  -- DX_SET_DEPTHSTENCIL_STATE DX_SET_RASTERIZER_STATE DX_DESTROY_QUERY DX_SET_QUERY_OFFSET
  -- DX_BEGIN_QUERY DX_END_QUERY DX_SET_PREDICATION DX_SET_VIEWPORTS DX_SET_SCISSORRECTS
  -- DX_DESTROY_ELEMENTLAYOUT DX_DESTROY_BLEND_STATE DX_DESTROY_DEPTHSTENCIL_STATE
  -- DX_DESTROY_RASTERIZER_STATE DX_DESTROY_SAMPLER_STATE DX_DESTROY_STREAMOUTPUT
  -- DX_SET_STREAMOUTPUT
  cmdDef .dxCidCheck true false true [
    1151, 1152, 1153, 1154, 1155, 1156, 1157, 1160, 1162, 1163, 1164, 1166, 1168, 1169, 1170,
    1172, 1174, 1175, 1192, 1194, 1196, 1198, 1200, 1205, 1206] ++
  -- DX_SET_VERTEX_BUFFERS
  cmdDef .dxSetVertexBuffers true false true [1158] ++
  -- DX_SET_INDEX_BUFFER
  cmdDef .dxSetIndexBuffer true false true [1159] ++
  -- DX_SET_RENDERTARGETS
  cmdDef .dxSetRendertargets true false true [1161] ++
  -- DX_DEFINE_QUERY
  cmdDef .dxDefineQuery true false true [1165] ++
  -- DX_BIND_QUERY
  cmdDef .dxBindQuery true false true [1167] ++
  -- DX_READBACK_QUERY DX_PRED_COPY
  cmdDef .invalid true false true [1171, 1179] ++
  -- DX_CLEAR_RENDERTARGET_VIEW
  cmdDef .dxClearRendertargetView true false true [1176] ++
  -- DX_CLEAR_DEPTHSTENCIL_VIEW
  cmdDef .dxClearDepthstencilView true false true [1177] ++
  -- DX_GENMIPS
  cmdDef .dxGenmips true false true [1181] ++
  -- DX_UPDATE_SUBRESOURCE DX_READBACK_SUBRESOURCE DX_INVALIDATE_SUBRESOURCE
  cmdDef .dxCheckSubresource true false true [1182, 1183, 1184] ++
  -- DX_DEFINE_SHADERRESOURCE_VIEW DX_DEFINE_RENDERTARGET_VIEW DX_DEFINE_DEPTHSTENCIL_VIEW
  cmdDef .dxViewDefine true false true [1185, 1187, 1189] ++
  -- DX_DESTROY_SHADERRESOURCE_VIEW DX_DESTROY_RENDERTARGET_VIEW DX_DESTROY_DEPTHSTENCIL_VIEW
  cmdDef .dxViewRemove true false true [1186, 1188, 1190] ++
  -- DX_DEFINE_ELEMENTLAYOUT DX_DEFINE_BLEND_STATE DX_DEFINE_DEPTHSTENCIL_STATE
  -- DX_DEFINE_RASTERIZER_STATE DX_DEFINE_SAMPLER_STATE DX_DEFINE_STREAMOUTPUT
  cmdDef .dxSoDefine true false true [1191, 1193, 1195, 1197, 1199, 1204] ++
  -- DX_DEFINE_SHADER
  cmdDef .dxDefineShader true false true [1201] ++
  -- DX_DESTROY_SHADER
  cmdDef .dxDestroyShader true false true [1202] ++
  -- DX_BIND_SHADER
  cmdDef .dxBindShader true false true [1203] ++
  -- DX_SET_SOTARGETS
  cmdDef .dxSetSoTargets true false true [1173] ++
  -- DX_BUFFER_COPY
  cmdDef .bufferCopyCheck true false true [1209] ++
  -- DX_PRED_COPY_REGION
  cmdDef .predCopyCheck true false true [1178] ++
  -- DX_TRANSFER_FROM_BUFFER
  cmdDef .dxTransferFromBuffer true false true [1210]

/-- The part of `vmw_cmd_check` between the reading of the header and the call of the verifier. -/
def dispatch (dev : Device) (id size rem : ℕ) : Except Fault Verifier :=
  if size > rem then .error (.errno (-22))
  else if (id + 2 ^ 32 - 1040) % 2 ^ 32 ≥ 1226 - 1040 then .error (.errno (-22))
  else match vmwCmdEntries.lookup id with
    | none => .error (.errno (-22))
    | some entry =>
      if entry.userAllow = false ∧ dev.kernel = false then .error (.errno (-1))
      else if entry.gbDisable = true ∧ dev.gbObjects = true then .error (.errno (-22))
      else if entry.gbEnable = true ∧ dev.gbObjects = false then .error (.errno (-22))
      else .ok entry.func

/-- `if (ret != 0) goto out_invalid;` -/
def outInvalid : Fault → Fault
  | .errno _ => .errno (-22)
  | .oops => .oops

/-- The sizes of the commands that `vmw_cmd_check_not_3d` knows. -/
def not3dSize : ℕ → Option ℕ
  | 1 => some 20
  | 36 => some 20
  | 37 => some 32
  | 38 => some 32
  | _ => none

/-- `vmw_cmd_check_not_3d`: returns the size of the command. -/
def cmdCheckNot3d (dev : Device) (rem : ℕ) : Check ℕ := do
  let cmdId ← u32 0
  match not3dSize cmdId with
  | none => reject
  | some size =>
    if size > rem then reject
    else if dev.kernel = false then Prog.fail (.errno (-1))
    else if cmdId = 36 then do
      -- `vmw_cmd_check_define_gmrfb`
      translateGuestPtr 4
      pure size
    else pure size

/-- `vmw_cmd_check` with `rem` bytes left: returns the size of the command. -/
def cmdCheck (dev : Device) (rem : ℕ) : Check ℕ := do
  let cmdId ← u32 0
  -- `SVGA_CMD_MAX`
  if cmdId < 47 then cmdCheckNot3d dev rem
  else do
    let headerSize ← u32 4
    match dispatch dev cmdId ((headerSize + 8) % 2 ^ 32) rem with
    | .error e => Prog.fail e
    | .ok v => do
      (v.check dev).mapFail outInvalid
      pure ((headerSize + 8) % 2 ^ 32)

/-! ## The walk -/

/-- Where the command ends, relative to its header. -/
def cmdEnd (m : Buffer) : ℕ :=
  if u32At m 0 < 47 then (not3dSize (u32At m 0)).getD 4 else 8 + u32At m 4

/-- An access in the log of the walk. -/
structure Entry where
  /-- Where in the buffer the command starts. -/
  cmd : ℕ
  stop : ℕ
  /-- The access, relative to the start of the command. -/
  access : Access
  deriving DecidableEq, Repr

/-- The access lies inside its command and inside a buffer of `total` bytes. -/
def Entry.Inside (total : ℕ) (e : Entry) : Prop :=
  e.access.Inside (min e.stop ((total : ℤ) - e.cmd))

instance Entry.instDecidableInside (total : ℕ) (e : Entry) : Decidable (e.Inside total) :=
  inferInstanceAs (Decidable (Access.Inside _ _))

/-- The log of the walk and what it returned, if it did. -/
structure Walk where
  /-- The accesses. -/
  log : List Entry
  /-- What was returned, if the walk came to an end. -/
  ret : Option (Except Fault Unit)

/-- The loop of `vmw_cmd_check_all`, at offset `off` with `curSize` bytes left, for at most so many
commands. -/
def checkLoop (dev : Device) : ℕ → ℕ → ℤ → List ℤ → Buffer → Walk
  | 0, _, _, _, _ => ⟨[], none⟩
  | fuel + 1, off, curSize, env, m =>
    if 0 < curSize then
      let o := (cmdCheck dev curSize.toNat).exec env m
      let log := o.log.map fun a => (⟨off, cmdEnd m, a⟩ : Entry)
      match o.result with
      | .error e => ⟨log, some (.error e)⟩
      | .ok size =>
        let w := checkLoop dev fuel (off + size) (toInt32 (curSize - size)) o.rest
          (o.mem.drop size)
        ⟨log ++ w.log, w.ret⟩
    else if curSize ≠ 0 then ⟨[], some (.error (.errno (-22)))⟩
    else ⟨[], some (.ok ())⟩

/-- `vmw_cmd_check_all` on a buffer of `size` bytes. -/
def cmdCheckAll (dev : Device) (fuel size : ℕ) (env : List ℤ) (m : Buffer) : Walk :=
  checkLoop dev fuel 0 (toInt32 size) env m

/-! ## The check of one command -/

/-- The command with `rem` bytes left in the buffer has room: for its id; where it is no 2D command
for its header; and for its verifier, if one is called, before the end of the command and of the
buffer. -/
def HasRoom (dev : Device) (m : Buffer) (rem : ℕ) : Prop :=
  4 ≤ rem ∧ (47 ≤ u32At m 0 → 8 ≤ rem ∧
    ∀ v, dispatch dev (u32At m 0) ((u32At m 4 + 8) % 2 ^ 32) rem = .ok v →
      v.Room dev m (min (8 + u32At m 4) rem))

section OneCommand

variable {dev : Device} {m m' : Buffer} {rem n : ℕ}

lemma not3dSize_ge {id : ℕ} (h : not3dSize id = some n) : 20 ≤ n := by
  unfold not3dSize at h
  split at h <;> simp only [Option.some.injEq, reduceCtorEq] at h <;> omega

lemma cmdCheckNot3d_safe (h : u32At m 0 < 47) :
    (cmdCheckNot3d dev rem).Safe (min (cmdEnd m) rem) m ↔ 4 ≤ rem := by
  unfold cmdCheckNot3d cmdEnd
  rw [safe_u32_bind, if_pos h]
  cases hsize : not3dSize (u32At m 0) with
  | none =>
    simp only [Option.getD_none, safe_reject, and_true]
    omega
  | some n =>
    have hn := not3dSize_ge hsize
    simp only [Option.getD_some, safe_ite, translateGuestPtr_eq, safe_translateMobPtr_bind]
    constructor
    · rintro ⟨h, -⟩
      omega
    · intro hrem
      refine ⟨by omega, fun _ => trivial, fun hle => ⟨fun _ => trivial, fun _ => ?_⟩⟩
      exact ⟨fun _ => ⟨by omega, trivial⟩, fun _ => trivial⟩

/-- **What the check of one command accesses.**  Its accesses lie inside the command and inside the
buffer, for all answers of the lookups, if and only if the command has room. -/
theorem cmdCheck_safe_iff : (cmdCheck dev rem).Safe (min (cmdEnd m) rem) m ↔ HasRoom dev m rem := by
  unfold cmdCheck HasRoom
  rw [safe_u32_bind, safe_ite]
  by_cases hid : u32At m 0 < 47
  · have hpos : 4 ≤ cmdEnd m := by
      unfold cmdEnd
      rw [if_pos hid]
      cases hsize : not3dSize (u32At m 0) with
      | none => exact Nat.le_refl 4
      | some n => exact Nat.le_trans (by decide) (not3dSize_ge hsize)
    simp only [hid, forall_const, not_true_eq_false, false_implies, and_true,
      cmdCheckNot3d_safe hid]
    omega
  · have hend : cmdEnd m = 8 + u32At m 4 := if_neg hid
    have hle : 47 ≤ u32At m 0 := Nat.not_lt.1 hid
    simp only [hid, hle, false_implies, true_and, not_false_eq_true, forall_const, safe_u32_bind,
      hend]
    cases hdis : dispatch dev (u32At m 0) ((u32At m 4 + 8) % 2 ^ 32) rem with
    | error e =>
      simp only [safe_fail, reduceCtorEq, false_implies, implies_true, and_true]
      omega
    | ok v =>
      simp only [Except.ok.injEq, forall_eq']
      rw [Prog.safe_bind, Prog.safe_mapFail, Verifier.safe_iff]
      constructor
      · rintro ⟨h1, h2, h3, -⟩
        exact ⟨by omega, by omega, h3⟩
      · rintro ⟨h1, h2, h3⟩
        exact ⟨by omega, by omega, h3, fun _ _ _ => trivial⟩

lemma dispatch_le {id size : ℕ} {v : Verifier} (h : dispatch dev id size rem = .ok v) :
    size ≤ rem := by
  unfold dispatch at h
  by_cases hsize : size > rem
  · rw [if_pos hsize] at h
    cases h
  · exact Nat.not_lt.1 hsize

lemma cmdCheck_returns_le (h : (cmdCheck dev rem).Returns m n m') : n ≤ rem := by
  obtain ⟨cmdId, m1, -, h⟩ := (Prog.returns_bind _ _ _ _ _).1 h
  rcases (returns_ite _ _ _).1 h with ⟨-, h⟩ | ⟨-, h⟩
  · -- A 2D command.
    obtain ⟨cmdId, m2, -, h⟩ := (Prog.returns_bind _ _ _ _ _).1 h
    cases hsize : not3dSize cmdId with
    | none =>
      simp only [hsize] at h
      exact h.elim
    | some size =>
      simp only [hsize] at h
      rcases (returns_ite _ _ _).1 h with ⟨-, h⟩ | ⟨hle, h⟩
      · exact h.elim
      rcases (returns_ite _ _ _).1 h with ⟨-, h⟩ | ⟨-, h⟩
      · exact h.elim
      rcases (returns_ite _ _ _).1 h with ⟨-, h⟩ | ⟨-, h⟩
      · obtain ⟨-, m3, -, rfl, -⟩ := (Prog.returns_bind _ _ _ _ _).1 h
        exact Nat.not_lt.1 hle
      · obtain ⟨rfl, -⟩ := h
        exact Nat.not_lt.1 hle
  · obtain ⟨headerSize, m2, -, h⟩ := (Prog.returns_bind _ _ _ _ _).1 h
    cases hdis : dispatch dev cmdId ((headerSize + 8) % 2 ^ 32) rem with
    | error e =>
      simp only [hdis] at h
      exact h.elim
    | ok v =>
      simp only [hdis] at h
      obtain ⟨-, m3, -, rfl, -⟩ := (Prog.returns_bind _ _ _ _ _).1 h
      exact dispatch_le hdis

end OneCommand

/-! ## All accesses of the walk -/

section AllCommands

variable {dev : Device} {size : ℕ} {m view : Buffer} {off rem : ℕ}

/-- **The commands the walk can get to**: where they start, how many bytes are left, and the memory
there. The walk goes on after a command that can be accepted, with the memory that its verifier
leaves. -/
inductive Reached (dev : Device) (size : ℕ) (m : Buffer) : ℕ → ℕ → Buffer → Prop
  /-- The first command. -/
  | start (h : 0 < toInt32 size) : Reached dev size m 0 size m
  /-- The command after one that can be accepted. -/
  | next {off rem n : ℕ} {view view' : Buffer} (h : Reached dev size m off rem view)
      (hret : (cmdCheck dev rem).Returns view n view') (hn : n < rem) :
      Reached dev size m (off + n) (rem - n) (view'.drop n)

lemma toInt32_pos (hsize : size < 2 ^ 32) (h : 0 < toInt32 size) :
    size < 2 ^ 31 ∧ toInt32 size = size := by
  have hlt : size < 2 ^ 31 := by
    by_contra hge
    have hneg : toInt32 size = (size : ℤ) - 2 ^ 32 := by
      unfold toInt32
      rw [Int.bmod_def]
      omega
    omega
  exact ⟨hlt, toInt32_eq (by omega) (by omega)⟩

lemma Reached.rem_pos (hsize : size < 2 ^ 32) (h : Reached dev size m off rem view) :
    0 < rem ∧ off + rem = size ∧ rem < 2 ^ 31 := by
  induction h with
  | start h =>
    obtain ⟨hlt, heq⟩ := toInt32_pos hsize h
    omega
  | next h hret hn ih => omega

lemma toInt32_sub {n : ℕ} (hrem : rem < 2 ^ 31) (hn : n ≤ rem) :
    toInt32 ((rem : ℤ) - n) = ((rem - n : ℕ) : ℤ) := by
  rw [toInt32_eq (by omega) (by omega)]
  omega

/-- From a command the walk can get to, all accesses lie inside.

**Proof sketch.**  Induction on the number of commands. The accesses of the check lie inside as
the command has room; if the command is accepted, the next one can be got to. -/
lemma checkLoop_inside (hsize : size < 2 ^ 32)
    (hroom : ∀ off rem view, Reached dev size m off rem view → HasRoom dev view rem)
    (fuel : ℕ) (h : Reached dev size m off rem view) (env : List ℤ) :
    ∀ e ∈ (checkLoop dev fuel off rem env view).log, e.Inside size := by
  induction fuel generalizing off rem env view with
  | zero => exact fun e he => absurd he not_mem_nil
  | succ fuel ih =>
    obtain ⟨hpos, hoff, hrem⟩ := h.rem_pos hsize
    have hlog : ∀ e ∈ ((cmdCheck dev rem).exec env view).log.map
        (fun a => (⟨off, cmdEnd view, a⟩ : Entry)), e.Inside size := by
      intro e he
      obtain ⟨a, ha, rfl⟩ := mem_map.1 he
      have hin := (Prog.safe_iff_exec _ _).1 (cmdCheck_safe_iff.2 (hroom off rem view h)) env a ha
      have hlim : min (cmdEnd view : ℤ) ((size : ℤ) - off) = min (cmdEnd view : ℤ) rem := by omega
      change a.Inside (min (cmdEnd view : ℤ) ((size : ℤ) - off))
      rw [hlim]
      exact hin
    unfold checkLoop
    rw [if_pos (by omega)]
    simp only [Int.toNat_natCast]
    cases hres : ((cmdCheck dev rem).exec env view).result with
    | error e => exact hlog
    | ok n =>
      have hret := Prog.returns_of_exec hres
      have hn := cmdCheck_returns_le hret
      simp only [mem_append]
      rintro e (he | he)
      · exact hlog e he
      · rw [toInt32_sub hrem hn] at he
        by_cases hlt : n < rem
        · exact ih (h.next hret hlt) _ e he
        · -- The buffer ends with this command.
          have hzero : rem - n = 0 := by omega
          rw [hzero] at he
          cases fuel with
          | zero => exact absurd he not_mem_nil
          | succ fuel =>
            exact absurd he not_mem_nil

lemma Reached.exists_env (hsize : size < 2 ^ 32) (h : Reached dev size m off rem view) :
    ∃ n env, ∀ fuel env', ∀ e ∈ (checkLoop dev fuel off rem env' view).log,
      e ∈ (cmdCheckAll dev (n + fuel) size (env ++ env') m).log := by
  induction h with
  | start h =>
    refine ⟨0, [], fun fuel env' e he => ?_⟩
    rw [cmdCheckAll, (toInt32_pos hsize h).2, Nat.zero_add]
    exact he
  | @next off rem n view view' h hret hn ih =>
    obtain ⟨k, env, henv⟩ := ih
    obtain ⟨hpos, -, hrem⟩ := h.rem_pos hsize
    obtain ⟨env1, henv1⟩ := Prog.exec_of_returns hret
    refine ⟨k + 1, env ++ env1, fun fuel env' e he => ?_⟩
    rw [Nat.add_assoc, append_assoc]
    refine henv (1 + fuel) (env1 ++ env') e ?_
    obtain ⟨hres, hmem, hrest⟩ := henv1 env'
    rw [Nat.add_comm 1 fuel]
    unfold checkLoop
    rw [if_pos (by omega)]
    simp only [Int.toNat_natCast, hres, hmem, hrest, toInt32_sub hrem (Nat.le_of_lt hn)]
    exact mem_append_right _ he

/-- **The accesses of `vmw_cmd_check_all`.**  For every buffer: all bytes that the walk and the
verifiers read or write, for all answers of the lookups, lie inside the command being verified and
inside the buffer, if and only if every command the walk can get to has room.

**Proof sketch.**  If a command without room can be got to, some answers lead there; the check of
that command then has an access outside, on some answers. -/
theorem cmd_check_all_inside_iff (dev : Device) (m : Buffer) (size : BitVec 32) :
    (∀ fuel env, ∀ e ∈ (cmdCheckAll dev fuel size.toNat env m).log, e.Inside size.toNat) ↔
      ∀ off rem view, Reached dev size.toNat m off rem view → HasRoom dev view rem := by
  have hsize : size.toNat < 2 ^ 32 := size.isLt
  constructor
  · intro hin off rem view h
    obtain ⟨hpos, hoff, hrem⟩ := h.rem_pos hsize
    obtain ⟨n, env, henv⟩ := h.exists_env hsize
    refine cmdCheck_safe_iff.1 ((Prog.safe_iff_exec _ _).2 fun env' a ha => ?_)
    -- The first command of the walk that goes on from here has this access in its log.
    have hmem : (⟨off, cmdEnd view, a⟩ : Entry) ∈ (checkLoop dev 1 off rem env' view).log := by
      unfold checkLoop
      rw [if_pos (by omega)]
      simp only [Int.toNat_natCast]
      cases ((cmdCheck dev rem).exec env' view).result with
      | error e => exact mem_map_of_mem ha
      | ok k => exact mem_append_left _ (mem_map_of_mem ha)
    have hentry := hin (n + 1) (env ++ env') _ (henv 1 env' _ hmem)
    have hlim : min (cmdEnd view : ℤ) ((size.toNat : ℤ) - off) = min (cmdEnd view : ℤ) rem := by
      omega
    exact hlim ▸ hentry
  · intro hroom fuel env e he
    unfold cmdCheckAll at he
    by_cases hpos : 0 < toInt32 size.toNat
    · rw [(toInt32_pos hsize hpos).2] at he
      exact checkLoop_inside hsize hroom fuel (.start hpos) env e he
    · -- A size that is negative as an `int32_t` ends the walk at once.
      cases fuel with
      | zero => exact absurd he not_mem_nil
      | succ fuel =>
        unfold checkLoop at he
        rw [if_neg hpos] at he
        split at he <;> exact absurd he not_mem_nil

/-- A buffer whose first command is `SVGA_3D_CMD_SETTRANSFORM` with `header->size` zero. -/
def shortBuffer : Buffer := fun x => if x = 0 then 0x17 else if x = 1 then 0x04 else 0

/-- A user's buffer of eight bytes: the header of the command fills it, and `vmw_cmd_cid_check`
reads the four bytes after it. -/
theorem short_command_outside :
    ∃ e ∈ (cmdCheckAll ⟨false, false, false, false⟩ 1 8 [] shortBuffer).log, ¬ e.Inside 8 :=
  ⟨⟨0, 8, ⟨8, 4, false⟩⟩, by decide +kernel, by decide⟩

end AllCommands

end KmsDrm.Vmwgfx
