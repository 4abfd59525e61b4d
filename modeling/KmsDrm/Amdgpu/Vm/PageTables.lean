import KmsDrm.Amdgpu.Vm.Mappings

/-!
# The page tables of an amdgpu VM

`amdgpu_vm_update_ptes` writes the page table entries of a range of GPU pages. On a chip with
huge page directory entries a block of pages that is updated as a whole is described by the
entry of its page table in the directory above, and the page table is left as it is.

## Main definitions

* `Amdgpu.PageTables` — the directories and page tables.
* `Amdgpu.updatePtes`, `Amdgpu.updateDirectories` — the two updates.
* `Amdgpu.walk` — the translation of a page by the hardware.

## Implementation notes

A `struct amdgpu_vm_pt` is an element of the `entries` of its parent, so it is named by the list
of indices that leads to it from the root. Page numbers are natural numbers; `dst` and `flags`
are the 64-bit words of the source, and the increment of `dst` is a product of two 32-bit
numbers as in the source. The update functions write to memory at once: the source may instead
put the same writes into a command buffer that the GPU executes in order. The shadow copies of
the tables are left out, and so are the failures to allocate and to submit that buffer.
-/

namespace KmsDrm.Amdgpu

open Function (update)

/-- The indices that lead from the root to a page directory or page table. -/
abbrev Path := List ℕ

/-- `AMDGPU_VM_PDB1`, after `AMDGPU_VM_PDB2` with the value 0. -/
def pdb1 : ℕ := 1

/-- `AMDGPU_VM_PDB0`. -/
def pdb0 : ℕ := 2

/-- `AMDGPU_VM_PTB`. -/
def ptb : ℕ := 3

/-- `AMDGPU_PTE_VALID`. -/
def pteValid : U64 := 1

/-- `AMDGPU_PDE_PTE`: the directory entry is a page table entry. -/
def pdePte : U64 := 1 <<< 54

/-- `AMDGPU_PTE_TF`. -/
def pteTf : U64 := 1 <<< 56

/-- `AMDGPU_PDE_BFS(0x9)`. -/
def pdeBfs : U64 := 9 <<< 59

/-- What the code reads of `adev`. -/
structure Device where
  /-- `vm_manager.root_level` -/
  rootLevel : ℕ
  /-- `vm_manager.block_size` -/
  blockSize : ℕ
  /-- `mc.translate_further` -/
  translateFurther : Bool
  /-- `vm_manager.vram_base_offset - mc.vram_start` -/
  vramOffset : U64

/-- An entry of a page directory or page table. -/
structure Entry where
  addr : U64
  flags : U64
  deriving DecidableEq, Repr

/-- The directories and tables of a VM. -/
structure PageTables where
  /-- Whether `entries` of a `struct amdgpu_vm_pt` is not `NULL`. -/
  hasEntries : Path → Bool
  /-- `huge` of a `struct amdgpu_vm_pt`. -/
  huge : Path → Bool
  /-- The entry for a directory or table in the directory above it. -/
  pde : Path → Entry
  pte : Path → ℕ → Entry
  /-- `amdgpu_bo_gpu_offset` of the buffer object of a directory or table. -/
  gpuOffset : Path → U64
  /-- `vm->relocated` -/
  relocated : List Path

/-- How an update can fail: `-ENOENT`, or a `BUG_ON`. -/
inductive UpdateError where
  | enoent
  | bug
  deriving DecidableEq, Repr

section

variable (dev : Device)

/-- `amdgpu_vm_level_shift`. -/
def levelShift (level : ℕ) : ℕ :=
  if level ≤ pdb0 then 9 * (pdb0 - level) + dev.blockSize
  else if level = ptb then 0
  else 0xff

/-- `AMDGPU_VM_PTE_COUNT`. -/
def pteCount : ℕ := 1 <<< dev.blockSize

/-- The loop of `amdgpu_vm_get_entry`; the levels bound the number of its turns. -/
def getEntryLoop (vm : PageTables) : ℕ → Path → ℕ → ℕ → Path × ℕ
  | turns + 1, path, level, addr =>
    if vm.hasEntries path then
      let shift := levelShift dev level
      getEntryLoop vm turns (path ++ [addr >>> shift]) (level + 1) (addr &&& ((1 <<< shift) - 1))
    else (path, level)
  | 0, path, level, _ => (path, level)

/-- `amdgpu_vm_get_entry`. -/
def getEntry (vm : PageTables) (addr : ℕ) : Option Path :=
  let entry := getEntryLoop dev vm (ptb + 1) [] dev.rootLevel addr
  if entry.2 ≠ ptb then none else some entry.1

/-- `gmc_v9_0_get_vm_pde`; `none` stands for the `BUG_ON`. -/
def getVmPde (level : ℕ) (addr flags : U64) : Option Entry :=
  let addr := if flags &&& pdePte = 0 then dev.vramOffset + addr else addr
  if addr &&& 0xFFFF00000000003F ≠ 0 then none
  else if !dev.translateFurther then some ⟨addr, flags⟩
  else if level = pdb1 then
    some ⟨addr, if flags &&& pdePte = 0 then flags ||| pdeBfs else flags⟩
  else if level = pdb0 then
    some ⟨addr, if flags &&& pdePte = 0 then flags ||| pteTf else flags &&& ~~~pdePte⟩
  else some ⟨addr, flags⟩

/-- `amdgpu_vm_handle_huge_pages`. -/
def handleHugePages (vm : PageTables) (entry : Path) (nptes : ℕ) (dst flags : U64) :
    Except UpdateError PageTables :=
  let flags := if nptes = pteCount dev then flags ||| pdePte else flags
  if flags &&& pdePte = 0 then
    if vm.huge entry then
      .ok { vm with
        huge := update vm.huge entry false
        relocated := entry :: vm.relocated.erase entry }
    else .ok vm
  else
    match getVmPde dev pdb0 dst flags with
    | some pde => .ok { vm with
        huge := update vm.huge entry true
        pde := update vm.pde entry pde }
    | none => .error .bug

/-- `params->func` on the entries `first` to `first + count - 1` of a page table. -/
def setPtes (vm : PageTables) (table : Path) (first count : ℕ) (dst flags : U64) : PageTables :=
  { vm with
    pte := update vm.pte table fun i =>
      if first ≤ i ∧ i < first + count then ⟨dst + BitVec.ofNat 64 ((i - first) * 4096), flags⟩
      else vm.pte table i }

/-- The number of entries that one turn of the loop of `amdgpu_vm_update_ptes` updates: up to the
end of the range or of the block. -/
def nptes (addr stop : ℕ) : ℕ :=
  if addr / pteCount dev = stop / pteCount dev then stop - addr
  else pteCount dev - (addr &&& (pteCount dev - 1))

/-- The body of the loop of `amdgpu_vm_update_ptes`. -/
def updateBlock (vm : PageTables) (addr stop : ℕ) (dst flags : U64) :
    Except UpdateError PageTables :=
  match getEntry dev vm addr with
  | none => .error .enoent
  | some entry =>
    match handleHugePages dev vm entry (nptes dev addr stop) dst flags with
    | .error e => .error e
    | .ok vm =>
      if vm.huge entry then .ok vm
      else .ok (setPtes vm entry (addr &&& (pteCount dev - 1)) (nptes dev addr stop) dst flags)

/-- The loop of `amdgpu_vm_update_ptes`; every turn updates at least one page. -/
def updatePtesLoop (stop : ℕ) (flags : U64) :
    ℕ → PageTables → ℕ → U64 → Except UpdateError PageTables
  | turns + 1, vm, addr, dst =>
    if addr < stop then
      match updateBlock dev vm addr stop dst flags with
      | .error e => .error e
      | .ok vm =>
        -- the product of two 32-bit numbers
        updatePtesLoop stop flags turns vm (addr + nptes dev addr stop)
          (dst + BitVec.ofNat 64 (nptes dev addr stop * 4096 % 2 ^ 32))
    else .ok vm
  | 0, vm, _, _ => .ok vm

/-- A call of `amdgpu_vm_update_ptes`. -/
structure Update where
  start : ℕ
  stop : ℕ
  dst : U64
  flags : U64
  deriving DecidableEq, Repr

/-- `amdgpu_vm_update_ptes`. -/
def updatePtes (vm : PageTables) (u : Update) : Except UpdateError PageTables :=
  updatePtesLoop dev u.stop u.flags (u.stop - u.start) vm u.start u.dst

/-- A sequence of calls of `amdgpu_vm_update_ptes`. -/
def updateAll (vm : PageTables) : List Update → Except UpdateError PageTables
  | [] => .ok vm
  | u :: us =>
    match updatePtes dev vm u with
    | .error e => .error e
    | .ok vm => updateAll vm us

/-- The directory entry that points to a directory or table: `amdgpu_vm_update_pde` counts the
level from the parents. -/
def tablePde (vm : PageTables) (entry : Path) : Option Entry :=
  getVmPde dev (dev.rootLevel + (entry.length - 1)) (vm.gpuOffset entry) pteValid

/-- `amdgpu_vm_update_pde`. -/
def updatePde (vm : PageTables) (entry : Path) : Except UpdateError PageTables :=
  if vm.huge entry then .ok vm
  else
    match tablePde dev vm entry with
    | some pde => .ok { vm with pde := update vm.pde entry pde }
    | none => .error .bug

/-- The loop of `amdgpu_vm_update_directories` over `vm->relocated`; the root has no parent. -/
def updateRelocated (vm : PageTables) : List Path → Except UpdateError PageTables
  | [] => .ok { vm with relocated := [] }
  | entry :: rest =>
    if entry = [] then updateRelocated vm rest
    else
      match updatePde dev vm entry with
      | .error e => .error e
      | .ok vm => updateRelocated vm rest

/-- `amdgpu_vm_update_directories`. -/
def updateDirectories (vm : PageTables) : Except UpdateError PageTables :=
  updateRelocated dev vm vm.relocated

/-- The translation of a GPU page: every directory on the way has to point to the next one; a
huge entry of the last directory translates the page itself. -/
def walk (vm : PageTables) (page : ℕ) : Option Entry :=
  match getEntry dev vm page with
  | none => none
  | some entry =>
    if (entry.inits.tail.dropLast).all fun q => tablePde dev vm q == some (vm.pde q) then
      if vm.huge entry then
        some ⟨(vm.pde entry).addr + BitVec.ofNat 64 ((page &&& (pteCount dev - 1)) * 4096),
          (vm.pde entry).flags &&& ~~~pdePte⟩
      else if tablePde dev vm entry = some (vm.pde entry) then
        some (vm.pte entry (page &&& (pteCount dev - 1)))
      else none
    else none

end

end KmsDrm.Amdgpu
