import KmsDrm.Lib.Access

/-!
# The command verifiers of vmwgfx

The functions of `vmwgfx_execbuf.c` that check one command of a command buffer, as programs that
read and write the buffer. A verifier gets a pointer to the header of its command; addresses here
are relative to that pointer, so that `0` is the header's `id`, `4` its `size` and `8` the first
byte of the command's body.

## Main definitions

* `Vmwgfx.Check` — programs over the buffer.
* `Vmwgfx.Verifier.check` — the program of each verifier.

## Implementation notes

What the verifiers do beyond the buffer is left to answers from outside: looking up resources,
views, shaders and buffer objects, adding relocations and validation nodes, allocating memory.
`call` is such a call, whose answer is its return value. The names and the sizes of the structures
are those of `svga3d_cmd.h` and `svga3d_dx.h`; all of them are packed and, as far as they are read
here, made of 32-bit words. A field that is read several times in a row is read once.
`size_t` and pointers have 64 bits.
-/

namespace KmsDrm.Vmwgfx

open Lib

/-! ## Words of the buffer -/

/-- Bytes of the command buffer and around it, seen from a command's header. -/
abbrev Buffer : Type := Mem (BitVec 8)

/-- Why a verifier stopped. -/
inductive Fault : Type where
  /-- It returned an error. -/
  | errno (code : ℤ)
  /-- It followed a null pointer. -/
  | oops
  deriving DecidableEq, Repr

/-- Programs of the verifiers. -/
abbrev Check : Type → Type := Prog (BitVec 8) ℤ Fault

/-- The number that bytes stand for, the lowest first. -/
def word (bytes : List (BitVec 8)) : ℕ := bytes.foldr (fun b n => b.toNat + 256 * n) 0

def wordBytes (n : ℕ) : List (BitVec 8) :=
  [.ofNat 8 n, .ofNat 8 (n / 256), .ofNat 8 (n / 65536), .ofNat 8 (n / 16777216)]

/-- The 32-bit word at an address. -/
def u32At (m : Buffer) (off : ℤ) : ℕ := word (m.read off 4)

def u32 (off : ℤ) : Check ℕ := .read off 4 fun bytes => .ret (word bytes)

def store (off : ℤ) (bytes : List (BitVec 8)) : Check Unit := .write off bytes (.ret ())

/-- Copy bytes out of the buffer. -/
def copyFrom (off : ℤ) (len : ℕ) : Check Unit := .read off len fun _ => .ret ()

/-- An answer from outside. -/
def ask : Check ℤ := .ask .ret

/-- `-EINVAL`. -/
def reject {α : Type} : Check α := .fail (.errno (-22))

/-- `ret = …; if (ret) return ret;` -/
def call : Check Unit := .ask fun ret => if ret = 0 then .ret () else .fail (.errno ret)

/-- The `i`-th word of a command's body. -/
def body (i : ℕ) : ℤ := 8 + 4 * i

/-- `SVGA3D_INVALID_ID`. -/
def invalidId : ℕ := 4294967295

/-- `(size_t) x - y`. -/
def subSize (x y : ℕ) : ℕ := (x + 2 ^ 64 - y) % 2 ^ 64

/-- What the verifiers read of the device and of the submission: `dev_priv->has_mob`,
`dev_priv->capabilities & SVGA_CAP_GBOBJECTS`, `sw_context->kernel` and whether
`sw_context->dx_ctx_node` is set. -/
structure Device where
  /-- Guest-backed objects are in use. -/
  hasMob : Bool
  /-- The device knows guest-backed objects. -/
  gbObjects : Bool
  /-- The commands come from the kernel. -/
  kernel : Bool
  /-- The submission has a DX context. -/
  dxContext : Bool
  deriving DecidableEq, Repr

/-! ## Helpers -/

/-- `enum vmw_res_type`, as far as the verifiers use it. -/
inductive ResType : Type where
  | context
  | surface
  | shader
  deriving DecidableEq, Repr

/-- `vmw_cmd_res_check`: the resource with the id at an address is put on the validation list.
Returns whether there is a validation node. -/
def cmdResCheck (resType : ResType) (idLoc : ℤ) : Check Bool := do
  let id ← u32 idLoc
  if id = invalidId then
    if resType = .context then reject else pure false
  else do
    call
    pure true

/-- `vmw_translate_mob_ptr`. -/
def translateMobPtr (id : ℤ) : Check Unit := do
  let _ ← u32 id
  call

/-- `vmw_translate_guest_ptr`: reads `ptr->gmrId`. -/
def translateGuestPtr (ptr : ℤ) : Check Unit := do
  let _ ← u32 ptr
  call

/-- `vmw_view_id_val_add`. -/
def viewIdValAdd (dev : Device) : Check Unit := do
  if dev.dxContext = false then reject else pure ()
  call

/-- The round of `vmw_view_bindings_add` for one view. -/
def viewBindingAdd (viewIds : ℤ) (i : ℕ) : Check Unit := do
  let id ← u32 (viewIds + 4 * i)
  if id = invalidId then pure () else call

/-- `vmw_view_bindings_add`. -/
def viewBindingsAdd (dev : Device) (viewIds : ℤ) (numViews : ℕ) : Check Unit := do
  if dev.dxContext = false then reject else pure ()
  Prog.loop (viewBindingAdd viewIds) numViews 0

/-- `vmw_shader_id_ok`. -/
def shaderIdOk (userKey shaderType : ℕ) : Prop := userKey ≤ 1048575 ∧ shaderType < 16

instance instDecidableShaderIdOk (userKey shaderType : ℕ) :
    Decidable (shaderIdOk userKey shaderType) :=
  inferInstanceAs (Decidable (_ ∧ _))

/-- `vmw_compat_shader_add`: the bytecode is copied to a new buffer object. -/
def compatShaderAdd (userKey shaderType : ℕ) (bytecode : ℤ) (size : ℕ) : Check Unit := do
  if shaderIdOk userKey shaderType then pure () else reject
  call
  copyFrom bytecode size
  call

/-- `vmw_cotable_notify`: ids from `SVGA_COTABLE_MAX_IDS` on are illegal. -/
def cotableNotify (id : ℕ) : Check Unit := if id < 65533 then pure () else reject

/-- `enum vmw_view_type`. -/
inductive ViewType : Type where
  | sr
  | rt
  | ds
  | max
  deriving DecidableEq, Repr

/-- `vmw_view_cmd_to_type`. -/
def viewCmdToType (id : ℕ) : ViewType :=
  match (id + 2 ^ 32 - 1185) % 2 ^ 32 / 2 with
  | 0 => .sr
  | 1 => .rt
  | 2 => .ds
  | _ => .max

/-- `vmw_view_define_sizes`. -/
def viewDefineSizes : ViewType → ℕ
  | .sr => 32
  | .rt => 28
  | .ds => 32
  | .max => 0

/-- `vmw_view_id_ok`. -/
def viewIdOk (userKey : ℕ) (viewType : ViewType) : Prop := userKey < 65533 ∧ viewType ≠ .max

instance instDecidableViewIdOk (userKey : ℕ) (viewType : ViewType) :
    Decidable (viewIdOk userKey viewType) :=
  inferInstanceAs (Decidable (_ ∧ _))

/-- `vmw_view_add`: the whole command is copied. -/
def viewAdd (viewType : ViewType) (userKey cmdSize : ℕ) : Check Unit := do
  if cmdSize ≠ viewDefineSizes viewType + 8 then reject else pure ()
  if viewIdOk userKey viewType then pure () else reject
  call
  copyFrom 0 cmdSize
  call

/-- The fields of a `SVGA3dCopyBox`. -/
def readBox (box : ℤ) : Check (List ℕ) := do
  let x ← u32 box
  let y ← u32 (box + 4)
  let z ← u32 (box + 8)
  let w ← u32 (box + 12)
  let h ← u32 (box + 16)
  let d ← u32 (box + 20)
  let srcx ← u32 (box + 24)
  let srcy ← u32 (box + 28)
  let srcz ← u32 (box + 32)
  pure [x, y, z, w, h, d, srcx, srcy, srcz]

/-- The copy of a cursor, which reads the pitch, for a whole image at the start of a page. The
answer is whether the buffer object could be mapped. -/
def cursorCopy (offset boxCount : ℕ) : List ℕ → Check Unit
  | [0, 0, 0, _, _, 1, 0, 0, 0] =>
    if offset % 4096 ≠ 0 ∨ boxCount ≠ 1 then pure () else do
      let mapped ← ask
      if mapped = 0 then pure () else do
        let _ ← u32 (body 2)
        pure ()
  | _ => pure ()

/-- `vmw_kms_cursor_snoop`: returns nothing and never fails. The answer is whether the surface has
a snooper. -/
def kmsCursorSnoop : Check Unit := do
  let image ← ask
  if image = 0 then pure () else do
    let face ← u32 (body 4)
    if face ≠ 0 then pure () else do
      let mipmap ← u32 (body 5)
      if mipmap ≠ 0 then pure () else do
        let size ← u32 4
        if size < 64 then pure () else do
          let boxCount := subSize size 28 / 36 % 2 ^ 32
          let offset ← u32 (body 1)
          -- Where a comparison fails, the message that follows reads the rest of the box.
          let box ← readBox (body 7)
          cursorCopy offset boxCount box

/-! ## Verifiers of a few fields -/

/-- `vmw_cmd_invalid`. -/
def cmdInvalid : Check Unit := reject

/-- `vmw_cmd_ok`. -/
def cmdOk : Check Unit := pure ()

/-- A verifier that checks one resource and no more. -/
def oneResCheck (resType : ResType) (idLoc : ℤ) : Check Unit := do
  let _ ← cmdResCheck resType idLoc
  pure ()

def twoSurfacesCheck (src dest : ℤ) : Check Unit := do
  let _ ← cmdResCheck .surface src
  oneResCheck .surface dest

/-- `vmw_cmd_cid_check`. -/
def cmdCidCheck : Check Unit := oneResCheck .context (body 0)

/-- `vmw_cmd_set_render_target_check`: `SVGA3dCmdSetRenderTarget` is `cid`, `type`, `target`. -/
def cmdSetRenderTargetCheck (dev : Device) : Check Unit := do
  let type ← u32 (body 1)
  if type ≥ 10 then reject else pure ()
  let _ ← cmdResCheck .context (body 0)
  let _ ← cmdResCheck .surface (body 2)
  if dev.hasMob then do
    let _ ← u32 (body 1)
    pure ()
  else pure ()

/-- `vmw_cmd_surface_copy_check`: `src` and `dest` are surface images of three words. -/
def cmdSurfaceCopyCheck : Check Unit := twoSurfacesCheck (body 0) (body 3)

/-- `vmw_cmd_buffer_copy_check`: `SVGA3dCmdDXBufferCopy` starts with `dest`, `src`. -/
def cmdBufferCopyCheck : Check Unit := twoSurfacesCheck (body 1) (body 0)

/-- `vmw_cmd_pred_copy_check`: `SVGA3dCmdDXPredCopyRegion` starts with `dstSid`,
`dstSubResource`, `srcSid`. -/
def cmdPredCopyCheck : Check Unit := twoSurfacesCheck (body 2) (body 0)

/-- `vmw_cmd_stretch_blt_check`. -/
def cmdStretchBltCheck : Check Unit := twoSurfacesCheck (body 0) (body 3)

/-- `vmw_cmd_blt_surf_screen_check`. -/
def cmdBltSurfScreenCheck : Check Unit := oneResCheck .surface (body 0)

/-- `vmw_cmd_present_check`. -/
def cmdPresentCheck : Check Unit := oneResCheck .surface (body 0)

/-- `vmw_cmd_update_gb_image`. -/
def cmdUpdateGbImage : Check Unit := oneResCheck .surface (body 0)

/-- `vmw_cmd_update_gb_surface`. -/
def cmdUpdateGbSurface : Check Unit := oneResCheck .surface (body 0)

/-- `vmw_cmd_readback_gb_image`. -/
def cmdReadbackGbImage : Check Unit := oneResCheck .surface (body 0)

/-- `vmw_cmd_readback_gb_surface`. -/
def cmdReadbackGbSurface : Check Unit := oneResCheck .surface (body 0)

/-- `vmw_cmd_invalidate_gb_image`. -/
def cmdInvalidateGbImage : Check Unit := oneResCheck .surface (body 0)

/-- `vmw_cmd_invalidate_gb_surface`. -/
def cmdInvalidateGbSurface : Check Unit := oneResCheck .surface (body 0)

/-- `vmw_cmd_dx_check_subresource`. -/
def cmdDxCheckSubresource : Check Unit := oneResCheck .surface (body 0)

/-- `vmw_cmd_dx_transfer_from_buffer`: `srcSid` is the first word, `destSid` the fifth. -/
def cmdDxTransferFromBuffer : Check Unit := twoSurfacesCheck (body 0) (body 4)

/-- `vmw_cmd_bind_gb_surface`: the new backup buffer is noted in the validation node, which a
surface id that is `SVGA3D_INVALID_ID` does not have. -/
def cmdBindGbSurface : Check Unit := do
  let node ← cmdResCheck .surface (body 0)
  translateMobPtr (body 1)
  if node then pure () else Prog.fail .oops

/-- `vmw_cmd_bind_gb_shader`: `offsetInBytes` is an argument of the call. -/
def cmdBindGbShader : Check Unit := do
  let _ ← u32 (body 2)
  let node ← cmdResCheck .shader (body 0)
  translateMobPtr (body 1)
  if node then pure () else Prog.fail .oops

/-! ## Shaders -/

/-- `vmw_cmd_shader_define`: `SVGA3dCmdDefineShader` is `cid`, `shid`, `type`, and the bytecode
follows. -/
def cmdShaderDefine (dev : Device) : Check Unit := do
  let _ ← cmdResCheck .context (body 0)
  if dev.hasMob then do
    let headerSize ← u32 4
    let shid ← u32 (body 1)
    let type ← u32 (body 2)
    compatShaderAdd shid type (body 3) (subSize headerSize 12)
    call
  else pure ()

/-- `vmw_cmd_shader_destroy`. -/
def cmdShaderDestroy (dev : Device) : Check Unit := do
  let _ ← cmdResCheck .context (body 0)
  if dev.hasMob then do
    let shid ← u32 (body 1)
    let type ← u32 (body 2)
    if shaderIdOk shid type then pure () else reject
    call
    call
  else pure ()

/-- `vmw_shader_lookup` and, for a shader found, `vmw_cmd_res_reloc_add`. Returns whether there
is a validation node. -/
def setShaderLookup (shid : ℕ) : Check Bool := do
  if shid = invalidId then pure false else do
    let type ← u32 (body 1)
    if shaderIdOk shid type then do
      let ret ← ask
      if ret = 0 then do
        call
        pure true
      else pure false
    else pure false

/-- `vmw_cmd_set_shader`: `SVGA3dCmdSetShader` is `cid`, `type`, `shid`. -/
def cmdSetShader (dev : Device) : Check Unit := do
  let type ← u32 (body 1)
  if type ≥ 3 then reject else pure ()
  let _ ← cmdResCheck .context (body 0)
  if dev.hasMob then do
    let shid ← u32 (body 2)
    let found ← setShaderLookup shid
    if found then pure () else oneResCheck .shader (body 2)
    let _ ← u32 (body 1)
    pure ()
  else pure ()

/-- `vmw_cmd_set_shader_const`: with guest-backed objects the command is turned into
`SVGA_3D_CMD_SET_GB_SHADERCONSTS_INLINE`. -/
def cmdSetShaderConst (dev : Device) : Check Unit := do
  let _ ← cmdResCheck .context (body 0)
  if dev.hasMob then store 0 (wordBytes 1130) else pure ()

/-! ## Queries -/

/-- `vmw_cmd_begin_gb_query`. -/
def cmdBeginGbQuery : Check Unit := oneResCheck .context (body 0)

/-- `vmw_cmd_begin_query`: with guest-backed objects the command, of four words, is rewritten to
`SVGA_3D_CMD_BEGIN_GB_QUERY`. -/
def cmdBeginQuery (dev : Device) : Check Unit := do
  if dev.hasMob then do
    let headerSize ← u32 4
    let cid ← u32 (body 0)
    let type ← u32 (body 1)
    store 0 (wordBytes 1116 ++ wordBytes headerSize ++ wordBytes cid ++ wordBytes type)
    cmdBeginGbQuery
  else oneResCheck .context (body 0)

/-- The rewriting of `vmw_cmd_end_query` and `vmw_cmd_wait_query` to a command on guest-backed
objects: `cid`, `type`, `guestResult.gmrId`, `guestResult.offset` become `cid`, `type`, `mobid`,
`offset`. -/
def queryToGb (id : ℕ) : Check Unit := do
  let headerSize ← u32 4
  let cid ← u32 (body 0)
  let type ← u32 (body 1)
  let gmrId ← u32 (body 2)
  let offset ← u32 (body 3)
  store 0 (wordBytes id ++ wordBytes headerSize ++ wordBytes cid ++ wordBytes type ++
    wordBytes gmrId ++ wordBytes offset)

/-- `vmw_cmd_end_gb_query`: the last call is `vmw_query_bo_switch_prepare`. -/
def cmdEndGbQuery : Check Unit := do
  cmdCidCheck
  translateMobPtr (body 2)
  call

/-- `vmw_cmd_end_query`. -/
def cmdEndQuery (dev : Device) : Check Unit := do
  if dev.hasMob then do
    queryToGb 1117
    cmdEndGbQuery
  else do
    cmdCidCheck
    translateGuestPtr (body 2)
    call

/-- `vmw_cmd_wait_gb_query`. -/
def cmdWaitGbQuery : Check Unit := do
  cmdCidCheck
  translateMobPtr (body 2)

/-- `vmw_cmd_wait_query`. -/
def cmdWaitQuery (dev : Device) : Check Unit := do
  if dev.hasMob then do
    queryToGb 1118
    cmdWaitGbQuery
  else do
    cmdCidCheck
    translateGuestPtr (body 2)

/-! ## Surface DMA, drawing and texture states -/

/-- `if (suffix->maximumOffset > bo_size) suffix->maximumOffset = bo_size;` -/
def clampMaximumOffset (loc : ℤ) (boSize : ℕ) : Check Unit := do
  let maximumOffset ← u32 loc
  if maximumOffset > boSize then store loc (wordBytes boSize) else pure ()

/-- `vmw_cmd_dma`: `SVGA3dCmdSurfaceDMA` is `guest` (`ptr.gmrId`, `ptr.offset`, `pitch`), `host`
(`sid`, `face`, `mipmap`) and `transfer`; the suffix of three words is taken from the end that
`header->size` gives. The answer is the number of pages of the buffer object. -/
def cmdDma : Check Unit := do
  let headerSize ← u32 4
  let suffix : ℤ := 8 + headerSize - 12
  let suffixSize ← u32 suffix
  if suffixSize ≠ 12 then reject else pure ()
  translateGuestPtr (body 0)
  let numPages ← ask
  let boSize := numPages.toNat * 4096 % 2 ^ 32
  let offset ← u32 (body 1)
  if offset > boSize then reject else pure ()
  clampMaximumOffset (suffix + 4) (boSize - offset)
  let _ ← cmdResCheck .surface (body 3)
  kmsCursorSnoop

/-- The most vertex declarations that `vmw_cmd_draw` takes. -/
def maxVertexDecls (headerSize : ℕ) : ℕ := subSize headerSize 12 / 36 % 2 ^ 32

/-- The most primitive ranges that `vmw_cmd_draw` takes after the vertex declarations. -/
def maxRanges (headerSize numVertexDecls : ℕ) : ℕ :=
  subSize (subSize headerSize 12) (numVertexDecls * 36) / 28 % 2 ^ 32

/-- `vmw_cmd_draw`: `SVGA3dCmdDrawPrimitives` is `cid`, `numVertexDecls`, `numRanges`. It is
followed by vertex declarations of nine words, whose fifth is `array.surfaceId`, and by primitive
ranges of seven words, whose third is `indexArray.surfaceId`. -/
def cmdDraw : Check Unit := do
  cmdCidCheck
  let headerSize ← u32 4
  let numVertexDecls ← u32 (body 1)
  if numVertexDecls > maxVertexDecls headerSize then reject else pure ()
  Prog.loop (fun i => oneResCheck .surface (20 + 36 * i + 16)) numVertexDecls 0
  let numRanges ← u32 (body 2)
  if numRanges > maxRanges headerSize numVertexDecls then reject else pure ()
  Prog.loop (fun i => oneResCheck .surface (20 + 36 * numVertexDecls + 28 * i + 8)) numRanges 0

/-- The round of `vmw_cmd_tex_state` for one `SVGA3dTextureState` (`stage`, `name`, `value`). -/
def texStateRound (dev : Device) (i : ℕ) : Check Unit := do
  let name ← u32 (12 + 12 * i + 4)
  -- `SVGA3D_TS_BIND_TEXTURE`
  if name ≠ 1 then pure () else do
    let stage ← u32 (12 + 12 * i)
    if stage ≥ 32 then reject else pure ()
    oneResCheck .surface (12 + 12 * i + 8)
    if dev.hasMob then do
      let _ ← u32 (12 + 12 * i)
      pure ()
    else pure ()

/-- `vmw_cmd_tex_state`: the loop goes on while the state starts before the end of the command,
that is, for `i` with `12 + 12 * i < 8 + header->size`. -/
def cmdTexState (dev : Device) : Check Unit := do
  let headerSize ← u32 4
  cmdCidCheck
  Prog.loop (texStateRound dev) ((headerSize + 7) / 12) 0

/-! ## DX commands -/

/-- `if (ctx_node == NULL) return -EINVAL;` -/
def needDxContext (dev : Device) : Check Unit :=
  if dev.dxContext = false then reject else pure ()

/-- `vmw_cmd_dx_cid_check`. -/
def cmdDxCidCheck (dev : Device) : Check Unit := needDxContext dev

/-- `vmw_cmd_dx_define_query`: `SVGA3dCmdDXDefineQuery` is `queryId`, `type`, `flags`. -/
def cmdDxDefineQuery (dev : Device) : Check Unit := do
  needDxContext dev
  let type ← u32 (body 1)
  if type ≥ 17 then reject else pure ()
  let queryId ← u32 (body 0)
  cotableNotify queryId

/-- `vmw_cmd_dx_bind_query`: uses `sw_context->dx_ctx_node` without a test. -/
def cmdDxBindQuery (dev : Device) : Check Unit := do
  translateMobPtr (body 1)
  if dev.dxContext = false then Prog.fail .oops else pure ()

/-- `vmw_cmd_dx_set_single_constant_buffer`: `SVGA3dCmdDXSetSingleConstantBuffer` is `slot`,
`type`, `sid`, `offsetInBytes`, `sizeInBytes`. -/
def cmdDxSetSingleConstantBuffer (dev : Device) : Check Unit := do
  needDxContext dev
  let _ ← cmdResCheck .surface (body 2)
  let type ← u32 (body 1)
  let _ ← u32 (body 3)
  let _ ← u32 (body 4)
  let slot ← u32 (body 0)
  if (type + 2 ^ 32 - 1) % 2 ^ 32 ≥ 3 ∨ slot ≥ 16 then reject else pure ()

/-- The number of views of `vmw_cmd_dx_set_shader_res`, from the size of the command. -/
def numSrViews (headerSize : ℕ) : ℕ := subSize headerSize 8 / 4 % 2 ^ 32

/-- `vmw_cmd_dx_set_shader_res`: `SVGA3dCmdDXSetShaderResources` is `startView`, `type`, and the
view ids follow. -/
def cmdDxSetShaderRes (dev : Device) : Check Unit := do
  let headerSize ← u32 4
  let startView ← u32 (body 0)
  if startView + numSrViews headerSize > 128 then reject else pure ()
  let type ← u32 (body 1)
  if type ≥ 4 then reject else pure ()
  viewBindingsAdd dev (body 2) (numSrViews headerSize)

/-- `vmw_cmd_dx_set_shader`: `SVGA3dCmdDXSetShader` is `shaderId`, `type`. -/
def cmdDxSetShader (dev : Device) : Check Unit := do
  needDxContext dev
  let type ← u32 (body 1)
  if type ≥ 4 then reject else pure ()
  let shaderId ← u32 (body 0)
  if shaderId = invalidId then pure () else do
    if shaderIdOk shaderId 0 then pure () else reject
    call
    call
  let _ ← u32 (body 1)
  pure ()

/-- The round of a verifier for one buffer of an array: `sid` and two words more. -/
def bufferRound (i : ℕ) : Check Unit := do
  oneResCheck .surface (12 + 12 * i)
  let _ ← u32 (12 + 12 * i + 8)
  let _ ← u32 (12 + 12 * i + 4)
  pure ()

/-- The number of buffers of `vmw_cmd_dx_set_vertex_buffers` and `vmw_cmd_dx_set_so_targets`, an
`int`, from the size of the command. -/
def numBuffers (headerSize : ℕ) : ℤ := (subSize headerSize 4 / 12 : ℤ).bmod (2 ^ 32)

/-- `vmw_cmd_dx_set_vertex_buffers`: the body is `startBuffer`, and vertex buffers of three words
follow. Their number is an `int`, which is compared as a `u64`. -/
def cmdDxSetVertexBuffers (dev : Device) : Check Unit := do
  needDxContext dev
  let headerSize ← u32 4
  let startBuffer ← u32 (body 0)
  if (numBuffers headerSize % 2 ^ 64 + startBuffer) % 2 ^ 64 > 32 then reject else pure ()
  Prog.loop bufferRound (numBuffers headerSize).toNat 0

/-- `vmw_cmd_dx_set_index_buffer`: `SVGA3dCmdDXSetIndexBuffer` is `sid`, `format`, `offset`. -/
def cmdDxSetIndexBuffer (dev : Device) : Check Unit := do
  needDxContext dev
  let _ ← cmdResCheck .surface (body 0)
  let _ ← u32 (body 2)
  let _ ← u32 (body 1)
  pure ()

/-- The number of views of `vmw_cmd_dx_set_rendertargets`, from the size of the command. -/
def numRtViews (headerSize : ℕ) : ℕ := subSize headerSize 4 / 4 % 2 ^ 32

/-- `vmw_cmd_dx_set_rendertargets`: the body is `depthStencilViewId`, and the view ids follow. -/
def cmdDxSetRendertargets (dev : Device) : Check Unit := do
  let headerSize ← u32 4
  if numRtViews headerSize > 8 then reject else pure ()
  viewBindingsAdd dev (body 0) 1
  viewBindingsAdd dev (body 1) (numRtViews headerSize)

/-- A verifier that looks up one view; its id is read before the call. -/
def viewIdCheck (dev : Device) (idLoc : ℤ) : Check Unit := do
  let _ ← u32 idLoc
  viewIdValAdd dev

/-- `vmw_cmd_dx_clear_rendertarget_view`. -/
def cmdDxClearRendertargetView (dev : Device) : Check Unit := viewIdCheck dev (body 0)

/-- `vmw_cmd_dx_clear_depthstencil_view`: `flags` and `stencil` make the first word. -/
def cmdDxClearDepthstencilView (dev : Device) : Check Unit := viewIdCheck dev (body 1)

/-- `vmw_cmd_dx_genmips`. -/
def cmdDxGenmips (dev : Device) : Check Unit := viewIdCheck dev (body 0)

/-- `vmw_cmd_dx_view_define`: the body starts with `defined_id`, `sid`; `srf_node` is used without
a test. -/
def cmdDxViewDefine (dev : Device) : Check Unit := do
  needDxContext dev
  let id ← u32 0
  if viewCmdToType id = .max then reject else pure ()
  let node ← cmdResCheck .surface (body 1)
  let definedId ← u32 (body 0)
  cotableNotify definedId
  if node then pure () else Prog.fail .oops
  let headerSize ← u32 4
  viewAdd (viewCmdToType id) definedId (headerSize + 8)

/-- `vmw_cmd_dx_set_so_targets`: the body is `pad0`, and targets of three words follow. -/
def cmdDxSetSoTargets (dev : Device) : Check Unit := do
  needDxContext dev
  let headerSize ← u32 4
  if numBuffers headerSize > 4 then reject else pure ()
  Prog.loop bufferRound (numBuffers headerSize).toNat 0

/-- `vmw_cmd_dx_so_define`: `vmw_so_cmd_to_type` reads the id of the command. -/
def cmdDxSoDefine (dev : Device) : Check Unit := do
  needDxContext dev
  let _ ← u32 0
  let definedId ← u32 (body 0)
  cotableNotify definedId

/-- `vmw_cmd_dx_view_remove`: the id of the command is read before the test of the context. The
answer is whether `vmw_view_remove` found a view of an earlier submission, for which
`vmw_resource_relocation_add` is called. -/
def cmdDxViewRemove (dev : Device) : Check Unit := do
  let id ← u32 0
  needDxContext dev
  let viewId ← u32 (body 0)
  if viewIdOk viewId (viewCmdToType id) then pure () else reject
  call
  let view ← ask
  if view = 0 then pure () else call

/-- `vmw_cmd_dx_define_shader`: `vmw_dx_shader_add` gets `shaderId` and `type`. -/
def cmdDxDefineShader (dev : Device) : Check Unit := do
  needDxContext dev
  let shaderId ← u32 (body 0)
  cotableNotify shaderId
  let type ← u32 (body 1)
  if shaderIdOk shaderId type then pure () else reject
  call

/-- `vmw_cmd_dx_destroy_shader`. -/
def cmdDxDestroyShader (dev : Device) : Check Unit := do
  needDxContext dev
  let shaderId ← u32 (body 0)
  if shaderIdOk shaderId 0 then pure () else reject
  call

/-- `vmw_cmd_dx_bind_shader`: `SVGA3dCmdDXBindShader` is `cid`, `shid`, `mobid`,
`offsetInBytes`. -/
def cmdDxBindShader (dev : Device) : Check Unit := do
  let cid ← u32 (body 0)
  if cid = invalidId then needDxContext dev else oneResCheck .context (body 0)
  let shid ← u32 (body 1)
  if shaderIdOk shid 0 then pure () else reject
  call
  call
  let _ ← u32 (body 3)
  translateMobPtr (body 2)

/-! ## The family of verifiers -/

/-- The verifiers that the command table names. -/
inductive Verifier : Type where
  | invalid
  | ok
  | cidCheck
  | setRenderTargetCheck
  | surfaceCopyCheck
  | bufferCopyCheck
  | predCopyCheck
  | stretchBltCheck
  | bltSurfScreenCheck
  | presentCheck
  | dma
  | draw
  | texState
  | shaderDefine
  | shaderDestroy
  | setShader
  | setShaderConst
  | beginQuery
  | endQuery
  | waitQuery
  | beginGbQuery
  | endGbQuery
  | waitGbQuery
  | bindGbSurface
  | updateGbImage
  | updateGbSurface
  | readbackGbImage
  | readbackGbSurface
  | invalidateGbImage
  | invalidateGbSurface
  | bindGbShader
  | dxSetSingleConstantBuffer
  | dxSetShaderRes
  | dxSetShader
  | dxSetVertexBuffers
  | dxSetIndexBuffer
  | dxSetRendertargets
  | dxDefineQuery
  | dxBindQuery
  | dxClearRendertargetView
  | dxClearDepthstencilView
  | dxGenmips
  | dxCheckSubresource
  | dxViewDefine
  | dxViewRemove
  | dxSoDefine
  | dxDefineShader
  | dxDestroyShader
  | dxBindShader
  | dxSetSoTargets
  | dxTransferFromBuffer
  | dxCidCheck
  deriving DecidableEq, Repr

/-- The function of a verifier. -/
def Verifier.check (dev : Device) : Verifier → Check Unit
  | .invalid => cmdInvalid
  | .ok => cmdOk
  | .cidCheck => cmdCidCheck
  | .setRenderTargetCheck => cmdSetRenderTargetCheck dev
  | .surfaceCopyCheck => cmdSurfaceCopyCheck
  | .bufferCopyCheck => cmdBufferCopyCheck
  | .predCopyCheck => cmdPredCopyCheck
  | .stretchBltCheck => cmdStretchBltCheck
  | .bltSurfScreenCheck => cmdBltSurfScreenCheck
  | .presentCheck => cmdPresentCheck
  | .dma => cmdDma
  | .draw => cmdDraw
  | .texState => cmdTexState dev
  | .shaderDefine => cmdShaderDefine dev
  | .shaderDestroy => cmdShaderDestroy dev
  | .setShader => cmdSetShader dev
  | .setShaderConst => cmdSetShaderConst dev
  | .beginQuery => cmdBeginQuery dev
  | .endQuery => cmdEndQuery dev
  | .waitQuery => cmdWaitQuery dev
  | .beginGbQuery => cmdBeginGbQuery
  | .endGbQuery => cmdEndGbQuery
  | .waitGbQuery => cmdWaitGbQuery
  | .bindGbSurface => cmdBindGbSurface
  | .updateGbImage => cmdUpdateGbImage
  | .updateGbSurface => cmdUpdateGbSurface
  | .readbackGbImage => cmdReadbackGbImage
  | .readbackGbSurface => cmdReadbackGbSurface
  | .invalidateGbImage => cmdInvalidateGbImage
  | .invalidateGbSurface => cmdInvalidateGbSurface
  | .bindGbShader => cmdBindGbShader
  | .dxSetSingleConstantBuffer => cmdDxSetSingleConstantBuffer dev
  | .dxSetShaderRes => cmdDxSetShaderRes dev
  | .dxSetShader => cmdDxSetShader dev
  | .dxSetVertexBuffers => cmdDxSetVertexBuffers dev
  | .dxSetIndexBuffer => cmdDxSetIndexBuffer dev
  | .dxSetRendertargets => cmdDxSetRendertargets dev
  | .dxDefineQuery => cmdDxDefineQuery dev
  | .dxBindQuery => cmdDxBindQuery dev
  | .dxClearRendertargetView => cmdDxClearRendertargetView dev
  | .dxClearDepthstencilView => cmdDxClearDepthstencilView dev
  | .dxGenmips => cmdDxGenmips dev
  | .dxCheckSubresource => cmdDxCheckSubresource
  | .dxViewDefine => cmdDxViewDefine dev
  | .dxViewRemove => cmdDxViewRemove dev
  | .dxSoDefine => cmdDxSoDefine dev
  | .dxDefineShader => cmdDxDefineShader dev
  | .dxDestroyShader => cmdDxDestroyShader dev
  | .dxBindShader => cmdDxBindShader dev
  | .dxSetSoTargets => cmdDxSetSoTargets dev
  | .dxTransferFromBuffer => cmdDxTransferFromBuffer
  | .dxCidCheck => cmdDxCidCheck dev

end KmsDrm.Vmwgfx
