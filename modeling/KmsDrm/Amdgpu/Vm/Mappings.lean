import KmsDrm.Lib.CircList
import KmsDrm.Lib.Loop
import KmsDrm.LinuxKpi.IntervalTree

/-!
# The mappings of an amdgpu VM

The part of `amdgpu_vm.c` that decides which buffer object backs which GPU page: the interval
tree `vm->va` of the mappings, the lists that the mappings are on, and the operations that map,
replace, unmap and clear ranges.

## Main definitions

* `Amdgpu.Vm` — the tree, the lists and the memory of the mappings.
* `Amdgpu.Vm.boMap`, `boReplaceMap`, `boUnmap`, `clearMappings`, `boRmv` — the operations.

## Implementation notes

Mappings are memory that is allocated and freed, so a mapping is named by a pointer (`MapId`) and
`Vm.mapping` is the memory behind the pointers; `next` is the next pointer that an allocation
returns. Whether an allocation succeeds is an argument. A mapping is linked into its list by
an entry inside of it, so linking an entry behind another one and unlinking it work on whichever
list that is. The counter of the users of partially resident textures, the lists of moved and
evicted buffer objects and the traces are left out: nothing here reads them.
-/

namespace KmsDrm.Amdgpu

open KmsDrm.Lib

/-- `uint64_t`. -/
abbrev U64 := BitVec 64

/-- A pointer to a mapping. -/
abbrev MapId := ℕ

/-- A pointer to a `struct amdgpu_bo_va`. -/
abbrev BoVaId := ℕ

/-- The results of the operations: `0`, `-EINVAL`, `-ENOENT` and `-ENOMEM`. -/
inductive Ret where
  | ok
  | einval
  | enoent
  | enomem
  deriving DecidableEq, Repr

/-- `AMDGPU_GPU_PAGE_SIZE`. -/
def gpuPageSize : U64 := 4096

@[simp] lemma toNat_gpuPageSize : gpuPageSize.toNat = 4096 := rfl

/-- `AMDGPU_GPU_PAGE_MASK`. -/
def gpuPageMask : U64 := gpuPageSize - 1

/-- `struct amdgpu_bo_va_mapping`: `start` and `last` count pages, `offset` counts bytes. -/
structure Mapping where
  boVa : Option BoVaId
  start : U64
  last : U64
  offset : U64
  flags : U64
  deriving DecidableEq, Repr

/-- A virtual address space with the mappings of its buffer objects. -/
structure Vm where
  /-- `vm->va` -/
  va : IntervalTree.Root MapId
  /-- The mapping behind a pointer. -/
  mapping : MapId → Mapping
  /-- `bo_va->valids` -/
  valids : BoVaId → List MapId
  /-- `bo_va->invalids` -/
  invalids : BoVaId → List MapId
  /-- `vm->freed` -/
  freed : List MapId
  /-- The size of `bo_va->base.bo`, `none` for a `bo_va` without buffer object. -/
  boSize : BoVaId → Option U64
  /-- Whether the `bo_va` behind a pointer exists. -/
  live : BoVaId → Bool
  /-- The next pointer that an allocation returns. -/
  next : MapId

namespace Vm

/-- `START(node)` of the interval tree. -/
def itStart (vm : Vm) (m : MapId) : ℕ := (vm.mapping m).start.toNat

/-- `LAST(node)` of the interval tree. -/
def itLast (vm : Vm) (m : MapId) : ℕ := (vm.mapping m).last.toNat

abbrev mappings (vm : Vm) : List MapId := IntervalTree.elements vm.va

/-- `amdgpu_vm_it_insert`. -/
def itInsert (vm : Vm) (m : MapId) : Vm :=
  { vm with va := IntervalTree.insert vm.itStart vm.itLast m vm.va }

/-- `amdgpu_vm_it_remove`. -/
def itRemove (vm : Vm) (m : MapId) : Vm := { vm with va := IntervalTree.remove vm.itLast m vm.va }

/-- `amdgpu_vm_it_iter_first`. -/
def itFirst (vm : Vm) (start last : U64) : Option MapId :=
  IntervalTree.iterFirst vm.itStart vm.itLast vm.va start.toNat last.toNat

/-- `amdgpu_vm_it_iter_next`. -/
def itNext (vm : Vm) (m : MapId) (start last : U64) : Option MapId :=
  IntervalTree.iterNext vm.itStart vm.itLast vm.va m start.toNat last.toNat

/-- Write to the mapping behind a pointer. -/
def modify (vm : Vm) (m : MapId) (f : Mapping → Mapping) : Vm :=
  { vm with mapping := Function.update vm.mapping m (f (vm.mapping m)) }

/-- `kzalloc` of a mapping: the memory of the next pointer, filled with zeros. -/
def kzalloc (vm : Vm) : Vm :=
  { vm with
    mapping := Function.update vm.mapping vm.next ⟨none, 0, 0, 0, 0⟩
    next := vm.next + 1 }

/-- `list_add(&new->list, &old->list)`: link `new` behind `old`, on the list that `old` is on. -/
def linkBehind (vm : Vm) (new old : MapId) : Vm :=
  { vm with
    valids := fun b => CircList.insertAfter (vm.valids b) (some old) new
    invalids := fun b => CircList.insertAfter (vm.invalids b) (some old) new }

/-- `list_del(&m->list)`. -/
def unlink (vm : Vm) (m : MapId) : Vm :=
  { vm with
    valids := fun b => (vm.valids b).erase m
    invalids := fun b => (vm.invalids b).erase m }

/-- `list_add(&m->list, &vm->freed)`. -/
def addFreed (vm : Vm) (m : MapId) : Vm := { vm with freed := m :: vm.freed }

end Vm

/-! ## Clearing a range -/

/-- The variables of `amdgpu_vm_bo_clear_mappings` while it gathers the mappings to remove:
`removed`, and whether the lists of `before` and `after` are still empty. -/
structure Gather where
  vm : Vm
  removed : List MapId
  before : Bool
  after : Bool

section Clear

variable (saddr eaddr : U64) (before after : MapId)

/-- "Remember mapping split at the start". -/
def splitStart (g : Gather) (tmp : MapId) : Gather :=
  if (g.vm.mapping tmp).start < saddr then
    { g with
      vm := (g.vm.modify before fun m =>
        { m with
          start := (g.vm.mapping tmp).start
          last := saddr - 1
          offset := (g.vm.mapping tmp).offset
          flags := (g.vm.mapping tmp).flags }).linkBehind before tmp
      before := true }
  else g

/-- "Remember mapping split at the end". -/
def splitEnd (g : Gather) (tmp : MapId) : Gather :=
  if eaddr < (g.vm.mapping tmp).last then
    { g with
      vm := (g.vm.modify after fun m =>
        { m with
          start := eaddr + 1
          last := (g.vm.mapping tmp).last
          -- the difference counts pages
          offset := (g.vm.mapping tmp).offset + (eaddr + 1 - (g.vm.mapping tmp).start)
          flags := (g.vm.mapping tmp).flags }).linkBehind after tmp
      after := true }
  else g

/-- The body of the loop that gathers the removed mappings. -/
def gatherOne (g : Gather) (tmp : MapId) : Gather :=
  let g := splitEnd eaddr after (splitStart saddr before g tmp) tmp
  { g with vm := g.vm.unlink tmp, removed := tmp :: g.removed }

/-- "Now gather all removed mappings": the loop over the mappings that meet the range. -/
def gather (turns : ℕ) (g : Gather) : Gather :=
  Loop.forEach (gatherOne saddr eaddr before after) (fun g tmp => g.vm.itNext tmp saddr eaddr)
    turns (g.vm.itFirst saddr eaddr) g

/-- The body of the loop "And free them up". -/
def freeOne (vm : Vm) (tmp : MapId) : Vm :=
  ((vm.itRemove tmp).modify tmp fun m =>
    { m with
      start := if m.start < saddr then saddr else m.start
      last := if eaddr < m.last then eaddr else m.last
      boVa := none }).addFreed tmp

end Clear

/-- "Insert partial mapping before (after) the range": a piece that is not linked is freed. -/
def insertPiece (vm : Vm) (linked : Bool) (piece : MapId) : Vm :=
  if linked then vm.itInsert piece else vm

/-- `amdgpu_vm_bo_clear_mappings`. The two flags say whether the allocations of `before` and of
`after` succeed; the first is freed again when the second fails. -/
def clearMappings (vm : Vm) (saddr size : U64) (allocBefore allocAfter : Bool) : Vm × Ret :=
  let eaddr := (saddr + size - 1) / gpuPageSize
  let saddr := saddr / gpuPageSize
  if !allocBefore || !allocAfter then (vm, .enomem)
  else
    let before := vm.next
    let after := vm.next + 1
    let vm := vm.kzalloc.kzalloc
    let g := gather saddr eaddr before after vm.mappings.length ⟨vm, [], false, false⟩
    let vm := g.removed.foldl (freeOne saddr eaddr) g.vm
    (insertPiece (insertPiece vm g.before before) g.after after, .ok)

/-! ## Mapping, replacing and unmapping -/

/-- `amdgpu_vm_bo_insert_map`. -/
def insertMap (vm : Vm) (boVa : BoVaId) (m : MapId) : Vm :=
  let vm := vm.modify m fun x => { x with boVa := some boVa }
  let vm := { vm with invalids := Function.update vm.invalids boVa (m :: vm.invalids boVa) }
  vm.itInsert m

/-- The checks that `amdgpu_vm_bo_map` and `amdgpu_vm_bo_replace_map` make of their parameters. -/
def badParameters (vm : Vm) (boVa : BoVaId) (saddr offset size : U64) : Bool :=
  (saddr &&& gpuPageMask != 0 || offset &&& gpuPageMask != 0 || size == 0 ||
      size &&& gpuPageMask != 0) ||
    saddr + size - 1 ≤ saddr ||
      match vm.boSize boVa with
      | some boSize => boSize < offset + size
      | none => false

/-- The new mapping of `amdgpu_vm_bo_map` and `amdgpu_vm_bo_replace_map`, whose `bo_va` is written
by `amdgpu_vm_bo_insert_map`. -/
def newMapping (vm : Vm) (m : MapId) (saddr offset size flags : U64) : Vm :=
  vm.modify m fun x =>
    { x with
      start := saddr / gpuPageSize
      last := (saddr + size - 1) / gpuPageSize
      offset := offset
      flags := flags }

/-- `amdgpu_vm_bo_map`; the flag says whether the allocation succeeds. -/
def boMap (vm : Vm) (boVa : BoVaId) (saddr offset size flags : U64) (alloc : Bool) : Vm × Ret :=
  if badParameters vm boVa saddr offset size then (vm, .einval)
  else
    match vm.itFirst (saddr / gpuPageSize) ((saddr + size - 1) / gpuPageSize) with
    | some _ => (vm, .einval)
    | none =>
      if !alloc then (vm, .enomem)
      else
        let m := vm.next
        (insertMap (newMapping { vm with next := vm.next + 1 } m saddr offset size flags) boVa m,
          .ok)

/-- `amdgpu_vm_bo_replace_map`; the flags say which allocations succeed. -/
def boReplaceMap (vm : Vm) (boVa : BoVaId) (saddr offset size flags : U64)
    (alloc allocBefore allocAfter : Bool) : Vm × Ret :=
  if badParameters vm boVa saddr offset size then (vm, .einval)
  else if !alloc then (vm, .enomem)
  else
    let m := vm.next
    match clearMappings { vm with next := vm.next + 1 } saddr size allocBefore allocAfter with
    | (vm, .ok) => (insertMap (newMapping vm m saddr offset size flags) boVa m, .ok)
    | r => r

/-- Take a mapping off its list and out of the tree. -/
def dropMapping (vm : Vm) (m : MapId) : Vm := (vm.unlink m).itRemove m

/-- Drop a mapping that still has page table entries: it is kept on `vm->freed`. -/
def dropValid (vm : Vm) (m : MapId) : Vm :=
  ((dropMapping vm m).modify m fun x => { x with boVa := none }).addFreed m

/-- `amdgpu_vm_bo_unmap`. A mapping that has been valid still has page table entries and goes to
`vm->freed`; one that has not is freed at once. -/
def boUnmap (vm : Vm) (boVa : BoVaId) (saddr : U64) : Vm × Ret :=
  let isAt (m : MapId) : Bool := (vm.mapping m).start = saddr / gpuPageSize
  match (vm.valids boVa).find? isAt with
  | some m => (dropValid vm m, .ok)
  | none =>
    match (vm.invalids boVa).find? isAt with
    | some m => ((dropMapping vm m).modify m fun x => { x with boVa := none }, .ok)
    | none => (vm, .enoent)

/-- `amdgpu_vm_bo_rmv`. -/
def boRmv (vm : Vm) (boVa : BoVaId) : Vm :=
  let vm := (vm.valids boVa).foldl dropValid vm
  let vm := (vm.invalids boVa).foldl dropMapping vm
  { vm with live := Function.update vm.live boVa false }

end KmsDrm.Amdgpu
