import KmsDrm.Lib.CircList
import KmsDrm.LinuxKpi.RbTree

/-!
# The range allocator `drm_mm`

The data and the operations of `drm_mm.c`. Nodes are owned by the drivers, so the model keeps a
memory of nodes indexed by pointers (`Ref`); the embedded `head_node` of the allocator is the
pointer `none`, which is also the sentinel of `node_list`. A hole is named by the node it
follows. All address arithmetic is that of `u64`, in particular the encoding of the head node
as `start + size` and `-size`.

## Main definitions

* `DrmMm.Mm` — the allocator: the nodes in memory, the list and the three indexes of the holes.
* `DrmMm.insertNodeInRange`, `reserveNode`, `removeNode`, `replaceNode` — the operations.

## Implementation notes

The interval tree over the allocated nodes is written by these operations but read by none of
them; it is left out here, together with the debugging data (`stack`) and the eviction scan
(`scanned_block`, `scan_active`). The `DRM_MM_BUG_ON` checks compile to nothing outside of the
debugging configuration; what they ask of the caller is part of `Op.Valid`.
-/

namespace KmsDrm.DrmMm

open KmsDrm.Lib CircList
open KmsDrm.RbTree (RbRoot rbInsert rbErase rbReplaceNode)

/-- `u64`. -/
abbrev U64 := BitVec 64

/-- The address of a node owned by a driver. -/
abbrev NodeId := ℕ

/-- A pointer to a node: `none` is `&mm->head_node`. -/
abbrev Ref := Option NodeId

/-- `enum drm_mm_insert_mode`. -/
inductive InsertMode where
  | best
  | low
  | high
  | evict
  deriving DecidableEq, Repr

/-- The results of the operations that may fail: `0` and `-ENOSPC`. -/
inductive Ret where
  | ok
  | enospc
  deriving DecidableEq, Repr

/-- `struct drm_mm_node`. -/
structure Node where
  color : U64
  start : U64
  size : U64
  holeSize : U64
  allocated : Bool
  deriving DecidableEq, Repr

/-- The driver callback `color_adjust`: from the nodes, their list, the node before the hole and
the colour asked for, how the bounds of the hole are adjusted. -/
abbrev ColorAdjust := (Ref → Node) → List NodeId → Ref → U64 → U64 × U64 → U64 × U64

/-- `struct drm_mm`, with the memory its node pointers lead to. -/
structure Mm where
  colorAdjust : Option ColorAdjust
  /-- The node behind a pointer. -/
  node : Ref → Node
  /-- `head_node.node_list`, without the head. -/
  nodeList : List NodeId
  holeStack : List Ref
  holesSize : RbRoot Ref
  holesAddr : RbRoot Ref
  /-- How many holes were created before a hole. Nothing looks at this or at `clock`. -/
  created : Ref → ℕ
  /-- How many holes were created. -/
  clock : ℕ

/-- Write to the node behind a pointer. -/
def Mm.modify (mm : Mm) (r : Ref) (f : Node → Node) : Mm :=
  { mm with node := Function.update mm.node r (f (mm.node r)) }

/-- The pointers that may own a hole: the head node and the nodes of the list. -/
def Mm.refs (mm : Mm) : List Ref := ptrs mm.nodeList

/-- `__drm_mm_hole_node_start`. -/
def holeNodeStart (mm : Mm) (r : Ref) : U64 := (mm.node r).start + (mm.node r).size

/-- `__drm_mm_hole_node_end`. -/
def holeNodeEnd (mm : Mm) (r : Ref) : U64 := (mm.node (next mm.nodeList r)).start

/-- `drm_mm_hole_follows`. -/
def holeFollows (mm : Mm) (r : Ref) : Bool := (mm.node r).holeSize ≠ 0

/-! ## The hole indexes -/

/-- `add_hole`. -/
def addHole (mm : Mm) (r : Ref) : Mm :=
  let mm := mm.modify r fun n => { n with holeSize := holeNodeEnd mm r - holeNodeStart mm r }
  { mm with
    holesSize :=
      rbInsert (fun a => decide ((mm.node r).holeSize < (mm.node a).holeSize)) r mm.holesSize
    holesAddr := rbInsert (fun a => decide (holeNodeStart mm r < holeNodeStart mm a)) r mm.holesAddr
    holeStack := r :: mm.holeStack
    created := Function.update mm.created r mm.clock
    clock := mm.clock + 1 }

/-- `rm_hole`. -/
def rmHole (mm : Mm) (r : Ref) : Mm :=
  { mm.modify r fun n => { n with holeSize := 0 } with
    holeStack := mm.holeStack.erase r
    holesSize := rbErase r mm.holesSize
    holesAddr := rbErase r mm.holesAddr }

/-! ## Searching for a hole -/

/-- `best_hole`. -/
def bestHole (mm : Mm) (size : U64) : Option Ref :=
  mm.holesSize.lowerBound (fun a => decide (size ≤ (mm.node a).holeSize)) none

/-- The comparison made at every node by `find_hole`. -/
def cmpHole (mm : Mm) (addr : U64) (a : Ref) : Ordering :=
  if addr < holeNodeStart mm a then .lt
  else if holeNodeStart mm a + (mm.node a).holeSize < addr then .gt
  else .eq

/-- `find_hole`. -/
def findHole (mm : Mm) (addr : U64) : Option Ref := mm.holesAddr.probe (cmpHole mm addr) none

/-- `first_hole`. -/
def firstHole (mm : Mm) (start «end» size : U64) (mode : InsertMode) : Option Ref :=
  match mm.holesSize with
  | .nil => none
  | _ =>
    match mode with
    | .best => bestHole mm size
    | .low => findHole mm start
    | .high => findHole mm «end»
    | .evict => mm.holeStack.head?

/-- `next_hole`. -/
def nextHole (mm : Mm) (r : Ref) (mode : InsertMode) : Option Ref :=
  match mode with
  | .best => mm.holesSize.next r
  | .low => mm.holesAddr.next r
  | .high => mm.holesAddr.prev r
  | .evict => nextAfter mm.holeStack r

/-! ## Inserting nodes -/

/-- The common end of `drm_mm_reserve_node` and `drm_mm_insert_node_in_range`: the node `id`,
whose position is already set, is linked behind the node before the hole, and the hole is
replaced by what is left of it on either side. -/
def linkNode (mm : Mm) (hole : Ref) (id : NodeId) (holeStart holeEnd : U64) : Mm :=
  let mm := { mm with nodeList := insertAfter mm.nodeList hole id }
  let mm := mm.modify (some id) fun n => { n with allocated := true, holeSize := 0 }
  let start := (mm.node (some id)).start
  let size := (mm.node (some id)).size
  let mm := rmHole mm hole
  let mm := if holeStart < start then addHole mm hole else mm
  if start + size < holeEnd then addHole mm (some id) else mm

/-- Apply `mm->color_adjust`, when there is one, to the bounds of a hole. -/
def adjustColor (mm : Mm) (hole : Ref) (color : U64) (bounds : U64 × U64) : U64 × U64 :=
  match mm.colorAdjust with
  | none => bounds
  | some f => f mm.node mm.nodeList hole color bounds

/-- `drm_mm_reserve_node`. -/
def reserveNode (mm : Mm) (id : NodeId) : Ret × Mm :=
  let node := mm.node (some id)
  let «end» := node.start + node.size
  if «end» ≤ node.start then (.enospc, mm)
  else
    -- find the relevant hole to add our node to
    match findHole mm node.start with
    | none => (.enospc, mm)
    | some hole =>
      let holeStart := holeNodeStart mm hole
      let holeEnd := holeStart + (mm.node hole).holeSize
      let adj := adjustColor mm hole node.color (holeStart, holeEnd)
      if node.start < adj.1 ∨ adj.2 < «end» then (.enospc, mm)
      else (.ok, linkNode mm hole id holeStart holeEnd)

/-- `is_power_of_2`: zero is not a power of two. -/
def isPowerOf2 (n : U64) : Bool := n ≠ 0 ∧ n &&& (n - 1) = 0

/-- The `max` macro on `u64`. -/
def maxU64 (a b : U64) : U64 := if b < a then a else b

/-- The `min` macro on `u64`. -/
def minU64 (a b : U64) : U64 := if a < b then a else b

/-- What a pass of the search loop does with its hole. -/
inductive Verdict where
  /-- Leave the loop. -/
  | stop
  /-- Go on with the next hole. -/
  | skip
  /-- Use this hole, with the node at this address. -/
  | place (start : U64)
  deriving DecidableEq, Repr

/-- The remainder of an address by the alignment, by the mask where there is one. -/
def alignRem (alignment remainderMask addr : U64) : U64 :=
  if remainderMask ≠ 0 then addr &&& remainderMask else addr % alignment

/-- The body of the search loop of `drm_mm_insert_node_in_range`. -/
def tryHole (mm : Mm) (hole : Ref) (size alignment remainderMask color rangeStart rangeEnd : U64)
    (mode : InsertMode) : Verdict :=
  let holeStart := holeNodeStart mm hole
  let holeEnd := holeStart + (mm.node hole).holeSize
  if mode = .low ∧ rangeEnd ≤ holeStart then .stop
  else if mode = .high ∧ holeEnd ≤ rangeStart then .stop
  else
    let col := adjustColor mm hole color (holeStart, holeEnd)
    let adjStart := maxU64 col.1 rangeStart
    let adjEnd := minU64 col.2 rangeEnd
    if adjEnd ≤ adjStart ∨ adjEnd - adjStart < size then .skip
    else
      let adjStart := if mode = .high then adjEnd - size else adjStart
      if alignment ≠ 0 then
        let rem := alignRem alignment remainderMask adjStart
        if rem ≠ 0 then
          let adjStart := adjStart - rem
          let adjStart := if mode ≠ .high then adjStart + alignment else adjStart
          if adjStart < maxU64 col.1 rangeStart ∨ minU64 col.2 rangeEnd - adjStart < size then
            .skip
          else if adjEnd ≤ adjStart ∨ adjEnd - adjStart < size then .skip
          else .place adjStart
        else .place adjStart
      else .place adjStart

/-- The search loop of `drm_mm_insert_node_in_range`: the hole used and the address in it. -/
def searchHoles (mm : Mm) (size alignment remainderMask color rangeStart rangeEnd : U64)
    (mode : InsertMode) : ℕ → Option Ref → Option (Ref × U64)
  | 0, _ => none
  | _, none => none
  | fuel + 1, some hole =>
    match tryHole mm hole size alignment remainderMask color rangeStart rangeEnd mode with
    | .stop => none
    | .place start => some (hole, start)
    | .skip =>
      searchHoles mm size alignment remainderMask color rangeStart rangeEnd mode fuel
        (nextHole mm hole mode)

/-- `drm_mm_insert_node_in_range`. The loop visits each hole at most once, so the number of
holes bounds its passes. -/
def insertNodeInRange (mm : Mm) (id : NodeId) (size alignment color rangeStart rangeEnd : U64)
    (mode : InsertMode) : Ret × Mm :=
  if size = 0 ∨ rangeEnd - rangeStart < size then (.enospc, mm)
  else
    let alignment := if alignment ≤ 1 then 0 else alignment
    let remainderMask := if isPowerOf2 alignment then alignment - 1 else 0
    match searchHoles mm size alignment remainderMask color rangeStart rangeEnd mode
        (mm.holeStack.length + 1) (firstHole mm rangeStart rangeEnd size mode) with
    | none => (.enospc, mm)
    | some (hole, start) =>
      let holeStart := holeNodeStart mm hole
      let holeEnd := holeStart + (mm.node hole).holeSize
      let mm := mm.modify (some id) fun n =>
        { n with size := size, start := start, color := color, holeSize := 0 }
      (.ok, linkNode mm hole id holeStart holeEnd)

/-! ## Removing and replacing nodes -/

/-- `drm_mm_remove_node`. -/
def removeNode (mm : Mm) (id : NodeId) : Mm :=
  let prevNode := prev mm.nodeList id
  let mm := if holeFollows mm (some id) then rmHole mm (some id) else mm
  let mm := { mm with nodeList := mm.nodeList.erase id }
  let mm := mm.modify (some id) fun n => { n with allocated := false }
  let mm := if holeFollows mm prevNode then rmHole mm prevNode else mm
  addHole mm prevNode

/-- Exchange one pointer for another. -/
def swapRef (old new : NodeId) (r : Ref) : Ref := if r = some old then some new else r

/-- The part of `drm_mm_replace_node` that moves the hole behind the node. -/
def replaceHole (mm : Mm) (old new : NodeId) : Mm :=
  if holeFollows mm (some old) then
    { mm with
      holeStack := mm.holeStack.map (swapRef old new)
      holesSize := rbReplaceNode (some old) (some new) mm.holesSize
      holesAddr := rbReplaceNode (some old) (some new) mm.holesAddr
      created := Function.update mm.created (some new) (mm.created (some old)) }
  else mm

/-- `drm_mm_replace_node`. -/
def replaceNode (mm : Mm) (old new : NodeId) : Mm :=
  let mm := mm.modify (some new) fun _ => mm.node (some old)
  let mm := { mm with nodeList := mm.nodeList.map fun a => if a = old then new else a }
  let mm := replaceHole mm old new
  let mm := mm.modify (some old) fun n => { n with allocated := false }
  mm.modify (some new) fun n => { n with allocated := true }

/-! ## Runs -/

/-- `drm_mm_init`, in a memory of driver nodes. -/
def init (mem : NodeId → Node) (start size : U64) : Mm :=
  addHole
    { colorAdjust := none
      node := fun r => match r with
        | none =>
          { color := 0, start := start + size, size := -size, holeSize := 0, allocated := false }
        | some id => mem id
      nodeList := []
      holeStack := []
      holesSize := .nil
      holesAddr := .nil
      created := fun _ => 0
      clock := 0 }
    none

/-- The calls a driver makes. A reservation starts with the driver filling in the node. -/
inductive Op where
  | reserve (id : NodeId) (start size color : U64)
  | insert (id : NodeId) (size alignment color rangeStart rangeEnd : U64) (mode : InsertMode)
  | remove (id : NodeId)
  | replace (old new : NodeId)
  deriving DecidableEq, Repr

/-- What the callers have to respect: only nodes outside of the allocator are inserted or used
as a replacement, only nodes inside are removed or replaced, and ranges are not empty. -/
def Op.Valid (mm : Mm) : Op → Prop
  | .reserve id _ _ _ => (mm.node (some id)).allocated = false
  | .insert id _ _ _ rangeStart rangeEnd _ =>
    (mm.node (some id)).allocated = false ∧ rangeStart < rangeEnd
  | .remove id => (mm.node (some id)).allocated = true
  | .replace old new =>
    (mm.node (some old)).allocated = true ∧ (mm.node (some new)).allocated = false

/-- Run one call. -/
def Op.run (mm : Mm) : Op → Ret × Mm
  | .reserve id start size color =>
    reserveNode (mm.modify (some id) fun n =>
      { n with start := start, size := size, color := color }) id
  | .insert id size alignment color rangeStart rangeEnd mode =>
    insertNodeInRange mm id size alignment color rangeStart rangeEnd mode
  | .remove id => (.ok, removeNode mm id)
  | .replace old new => (.ok, replaceNode mm old new)

/-- One call, successful or not. -/
def Step (mm mm' : Mm) : Prop := ∃ op : Op, op.Valid mm ∧ mm' = (op.run mm).2

/-- The states an allocator managing `[start, start + size)` can be in. -/
def Reachable (start size : U64) (mm : Mm) : Prop :=
  ∃ mem : NodeId → Node, (∀ id, (mem id).allocated = false) ∧
    Relation.ReflTransGen Step (init mem start size) mm

end KmsDrm.DrmMm
