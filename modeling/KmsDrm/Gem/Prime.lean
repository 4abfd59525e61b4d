import KmsDrm.LinuxKpi.RbTree
import KmsDrm.Lib.Machine

/-!
# GEM handles and the PRIME cache of a file

A file names its GEM objects by handles. An object is exported as a `dma_buf`, and a `dma_buf` is
imported as an object; so that the same buffer gives the same handle again, the file keeps pairs of
a `dma_buf` and a handle in two trees, one for each direction.

## Main definitions

* `Gem.handleToFd`, `Gem.fdToHandle`, `Gem.handleDelete` — export, import and close.
* `Gem.CacheOk` — what the cache should be.

## Implementation notes

References to a `dma_buf` are booked under the one who takes them. Objects are not freed: without
handles and references nothing leads to them any more. Failures of allocations, callbacks of the
driver and `dma_buf_fd` are arguments; an error has the result `none`.
-/

namespace KmsDrm.Gem

open KmsDrm.Lib
open Function (update)
open KmsDrm.RbTree (RbRoot rbInsert rbErase)

/-- The address of a `struct dma_buf`. -/
abbrev Buf := ℕ

/-- The name of a `struct drm_gem_object`. -/
abbrev Obj := ℕ

abbrev Handle := ℕ

/-- `struct drm_prime_member`. -/
structure Member where
  buf : Buf
  handle : Handle
  deriving DecidableEq, Repr

/-- Who holds a reference to a `dma_buf`: a member of the cache, `obj->dma_buf`, an attachment, or a
file descriptor or a caller. -/
inductive Holder where
  | cache
  | object
  | attach
  | user
  deriving DecidableEq

/-- A file, the objects of its device, and the buffers of all devices. -/
structure State where
  objectIdr : Handle → Option Obj
  handleCount : Obj → ℕ
  dmaBuf : Obj → Option Buf
  /-- `obj->import_attach->dmabuf`. -/
  importAttach : Obj → Option Buf
  /-- The object a buffer of this device was exported from. -/
  priv : Buf → Option Obj
  isBuf : Buf → Bool
  refs : Buf → Holder → ℕ
  dmabufs : RbRoot Member
  handles : RbRoot Member
  /-- The name of the next object. -/
  nextObj : Obj

def init : State where
  objectIdr _ := none
  handleCount _ := 0
  dmaBuf _ := none
  importAttach _ := none
  priv _ := none
  isBuf _ := false
  refs _ _ := 0
  dmabufs := .nil
  handles := .nil
  nextObj := 0

/-- `get_dma_buf`. -/
def getDmaBuf (b : Buf) (who : Holder) (s : State) : State :=
  { s with refs := update s.refs b (update (s.refs b) who (s.refs b who + 1)) }

/-- `dma_buf_put`. -/
def dmaBufPut (b : Buf) (who : Holder) (s : State) : State :=
  { s with refs := update s.refs b (update (s.refs b) who (s.refs b who - 1)) }

/-! ## The cache -/

/-- The descent that looks for a key. -/
def find (key : Member → ℕ) (k : ℕ) : RbRoot Member → Option Member
  | .nil => none
  | .node _ l a r => if key a = k then some a else if key a < k then find key k r else find key k l

/-- The descent of an insertion, to the right of smaller keys only, with `rb_insert_color`. -/
def insert (key : Member → ℕ) (m : Member) (t : RbRoot Member) : RbRoot Member :=
  rbInsert (fun pos => decide (key m ≤ key pos)) m t

/-- `drm_prime_lookup_buf_by_handle`. -/
def lookupBufByHandle (s : State) (h : Handle) : Option Buf :=
  (find Member.handle h s.handles).map Member.buf

/-- `drm_prime_lookup_buf_handle`. -/
def lookupBufHandle (s : State) (b : Buf) : Option Handle :=
  (find Member.buf b s.dmabufs).map Member.handle

/-- `drm_prime_add_buf_handle`. -/
def addBufHandle (s : State) (b : Buf) (h : Handle) (mem : Bool) : Option State :=
  if mem then
    some { getDmaBuf b .cache s with
      dmabufs := insert Member.buf ⟨b, h⟩ s.dmabufs
      handles := insert Member.handle ⟨b, h⟩ s.handles }
  else none

/-- `drm_prime_remove_buf_handle_locked`. -/
def removeBufHandle (s : State) (b : Buf) : State :=
  match find Member.buf b s.dmabufs with
  | some m => { dmaBufPut b .cache s with
      dmabufs := rbErase m s.dmabufs
      handles := rbErase m s.handles }
  | none => s

/-! ## Handles -/

/-- `drm_gem_object_handle_put_unlocked`. -/
def handlePut (s : State) (o : Obj) : State :=
  let s₁ := { s with handleCount := update s.handleCount o (s.handleCount o - 1) }
  if s.handleCount o = 0 then s
  else if s.handleCount o = 1 then
    match s.dmaBuf o with
    | some b => { dmaBufPut b .object s₁ with dmaBuf := update s.dmaBuf o none }
    | none => s₁
  else s₁

/-- `drm_gem_handle_delete`, with `drm_gem_object_release_handle` and
`drm_gem_remove_prime_handles`. -/
def handleDelete (s : State) (h : Handle) : Option State :=
  (s.objectIdr h).map fun o =>
    let s₁ := match s.dmaBuf o with
      | some b => removeBufHandle s b
      | none => s
    { handlePut s₁ o with objectIdr := update s.objectIdr h none }

/-- `drm_gem_handle_create_tail`: `alloc` is what `idr_alloc` returns, and `opened` tells whether
`drm_vma_node_allow` and `gem_open_object` succeed. -/
def handleCreateTail (s : State) (o : Obj) (alloc : Option Handle) (opened : Bool) :
    Option Handle × State :=
  let s₁ := { s with handleCount := update s.handleCount o (s.handleCount o + 1) }
  match alloc, opened with
  | some h, true => (some h, { s₁ with objectIdr := update s.objectIdr h (some o) })
  | _, _ => (none, handlePut s₁ o)

/-- `drm_gem_prime_handle_to_fd` up to `out_have_obj`: the buffer with a reference for the caller,
`exported` being the address of a new one. -/
def exportObject (s : State) (o : Obj) (exported : Option Buf) : Option (Buf × State) :=
  match s.importAttach o, s.dmaBuf o with
  | some b, _ => some (b, getDmaBuf b .user s)
  | none, some b => some (b, getDmaBuf b .user s)
  | none, none =>
    if s.handleCount o = 0 then none
    else exported.map fun b => (b, getDmaBuf b .object (getDmaBuf b .user { s with
      isBuf := update s.isBuf b true
      priv := update s.priv b (some o)
      dmaBuf := update s.dmaBuf o (some b) }))

/-- The end of `drm_gem_prime_handle_to_fd`: the reference goes to the new file descriptor. -/
def dmaBufFd (s : State) (b : Buf) (fd : Bool) : Option Buf × State :=
  if fd then (some b, s) else (none, dmaBufPut b .user s)

/-- `drm_gem_prime_handle_to_fd`. -/
def handleToFd (s : State) (h : Handle) (exported : Option Buf) (mem fd : Bool) :
    Option Buf × State :=
  match s.objectIdr h, lookupBufByHandle s h with
  | none, _ => (none, s)
  | some _, some b => dmaBufFd (getDmaBuf b .user s) b fd
  | some o, none =>
    match exportObject s o exported with
    | none => (none, s)
    | some (b, s₁) =>
      match addBufHandle s₁ b h mem with
      | some s₂ => dmaBufFd s₂ b fd
      | none => (none, dmaBufPut b .user s₁)

/-- `drm_gem_prime_import`: an own buffer gives its object, another one a new object. -/
def importBuf (s : State) (b : Buf) (imported : Bool) : Option (Obj × State) :=
  match s.priv b with
  | some o => some (o, s)
  | none =>
    if imported then
      some (s.nextObj, getDmaBuf b .attach { s with
        importAttach := update s.importAttach s.nextObj (some b)
        nextObj := s.nextObj + 1 })
    else none

/-- `drm_gem_prime_fd_to_handle`, with the buffer of the file descriptor. -/
def fdToHandle (s : State) (b : Buf) (imported : Bool) (alloc : Option Handle)
    (opened mem : Bool) : Option Handle × State :=
  let s₁ := getDmaBuf b .user s
  match lookupBufHandle s b with
  | some h => (some h, dmaBufPut b .user s₁)
  | none =>
    match importBuf s₁ b imported with
    | none => (none, dmaBufPut b .user s₁)
    | some (o, s₂) =>
      let s₃ := if s₂.dmaBuf o = none then
          getDmaBuf b .object { s₂ with dmaBuf := update s₂.dmaBuf o (some b) }
        else s₂
      match handleCreateTail s₃ o alloc opened with
      | (none, s₄) => (none, dmaBufPut b .user s₄)
      | (some h, s₄) =>
        match addBufHandle s₄ b h mem with
        | some s₅ => (some h, dmaBufPut b .user s₅)
        | none => (none, dmaBufPut b .user ((handleDelete s₄ h).getD s₄))

/-! ## The machine -/

/-- The calls; `bufCreate` is a buffer of another device. -/
inductive Action where
  | handleCreate (o : Option Obj) (alloc : Option Handle) (opened : Bool)
  | handleToFd (h : Handle) (exported : Option Buf) (mem fd : Bool)
  | fdToHandle (b : Buf) (imported : Bool) (alloc : Option Handle) (opened mem : Bool)
  | handleDelete (h : Handle)
  | bufCreate (b : Buf)
  deriving DecidableEq

/-- One call. -/
def step : Action → State → Option State
  | .handleCreate (some o) alloc opened, s => some (handleCreateTail s o alloc opened).2
  | .handleCreate none alloc opened, s =>
    some (handleCreateTail { s with nextObj := s.nextObj + 1 } s.nextObj alloc opened).2
  | .handleToFd h exported mem fd, s => some (handleToFd s h exported mem fd).2
  | .fdToHandle b imported alloc opened mem, s => some (fdToHandle s b imported alloc opened mem).2
  | .handleDelete h, s => some ((handleDelete s h).getD s)
  | .bufCreate b, s => some (getDmaBuf b .user { s with isBuf := update s.isBuf b true })

/-- What an action may be: `idr_alloc` returns a handle from 1 on that is not in use, a new buffer
has an address that is not in use, and a file descriptor and an object that are passed exist. -/
def Legal (s : State) : Action → Prop
  | .handleCreate o alloc _ => (∀ k ∈ o, k < s.nextObj) ∧ ∀ h ∈ alloc, h ≠ 0 ∧ s.objectIdr h = none
  | .handleToFd _ exported _ _ => ∀ b ∈ exported, s.isBuf b = false
  | .fdToHandle b _ alloc _ _ => s.isBuf b = true ∧ ∀ h ∈ alloc, h ≠ 0 ∧ s.objectIdr h = none
  | .handleDelete _ => True
  | .bufCreate b => s.isBuf b = false

/-- A handle that is in the cache is only closed while the buffer of its object leads to it there:
no other handle is in the cache for the same buffer before it, and `obj->dma_buf` is this buffer. -/
def Unambiguous (s : State) : Action → Prop
  | .handleDelete h => ∀ o ∈ s.objectIdr h, ∀ m ∈ s.dmabufs.inorder, m.handle = h →
      ((s.dmaBuf o).bind fun b => find Member.buf b s.dmabufs) = some m
  | _ => True

instance decidableLegal (s : State) (a : Action) : Decidable (Legal s a) := by
  cases a <;> unfold Legal <;> infer_instance

instance decidableUnambiguous (s : State) (a : Action) : Decidable (Unambiguous s a) := by
  cases a <;> unfold Unambiguous <;> infer_instance

/-! ## The property -/

/-- An object is the one behind a buffer: the buffer was exported from it, or it was imported. -/
def Behind (s : State) (b : Buf) (o : Obj) : Prop := s.priv b = some o ∨ s.importAttach o = some b

/-- The trees have the same entries, each with one reference to its buffer, and every entry names an
open handle for the object behind its buffer. -/
structure CacheOk (s : State) : Prop where
  same : s.handles.inorder.Perm s.dmabufs.inorder
  refs : ∀ b, s.refs b .cache = s.dmabufs.inorder.countP fun m => m.buf = b
  entry : ∀ m ∈ s.dmabufs.inorder, ∃ o, s.objectIdr m.handle = some o ∧ Behind s m.buf o

end KmsDrm.Gem
