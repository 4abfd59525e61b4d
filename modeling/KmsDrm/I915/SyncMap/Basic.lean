import Mathlib

/-!
# The map of sync points

`struct i915_syncmap` is a layer of a radix tree that maps a fence context to the last sequence
number that was waited for. A leaf holds 16 sequence numbers, a branch holds 16 pointers to
layers. Each layer points to its parent, and the map is accessed through a pointer to the leaf
that was used last. This module models the functions of `i915_syncmap.c` on a heap of layers.

## Main definitions

* `I915.SyncMap.Layer` — `struct i915_syncmap`.
* `I915.SyncMap.isLater`, `I915.SyncMap.set`, `I915.SyncMap.free` — the functions.

## Implementation notes

A computation without a result is a null pointer, a failed `GEM_BUG_ON`, or a loop of more than
16 turns; none of this happens, by `I915.SyncMap.syncmap_refines`. An allocation takes the
address `fresh` and fails if `alloc` says so of this address. The prefix of a layer, `prefix` in
the source, is `pfx`. Identifiers are natural numbers here, below `2 ^ 64` where it matters: they
are shifted right and compared only. The two arrays that share their memory in the source are two
fields: the one for the sequence numbers is used in a leaf and the other one in a branch.
-/

namespace KmsDrm.I915.SyncMap

open Function (update)

/-- `SHIFT`, the logarithm of the number of slots of a layer -/
def shift : ℕ := 4

/-- `MASK` -/
def mask : ℕ := 15

/-- `struct i915_syncmap` with the array behind it. -/
structure Layer where
  pfx : ℕ
  height : ℕ
  bitmap : BitVec 32
  parent : Option ℕ
  seqno : ℕ → BitVec 32 := fun _ => 0
  child : ℕ → Option ℕ := fun _ => none

/-- The heap of the layers, the next free address, and the pointer to the tree. -/
structure State where
  nodes : ℕ → Option Layer := fun _ => none
  fresh : ℕ := 0
  root : Option ℕ := none

/-- `GEM_BUG_ON` -/
def bugOn (p : Prop) [Decidable p] : Option Unit := if p then none else some ()

namespace Layer

/-- `__sync_branch_idx` -/
def branchIdx (p : Layer) (id : ℕ) : ℕ := (id >>> p.height) &&& mask

/-- `__sync_branch_prefix` -/
def branchPrefix (p : Layer) (id : ℕ) : ℕ := id >>> p.height >>> shift

/-- `__sync_set_child` -/
def setChild (p : Layer) (idx child : ℕ) : Layer :=
  { p with
    bitmap := p.bitmap ||| (1#32 <<< idx)
    child := update p.child idx (some child) }

end Layer

/-- `__sync_leaf_idx` -/
def leafIdx (id : ℕ) : ℕ := id &&& mask

/-- `__sync_leaf_prefix` -/
def leafPrefix (id : ℕ) : ℕ := id >>> shift

/-- `seqno_later` -/
def seqnoLater (a b : BitVec 32) : Bool := 0 ≤ (a - b).toInt

/-! ## Looking up -/

/-- The first loop of `i915_syncmap_is_later`: climb the tree back to a parent branch. -/
def climbLater (s : State) (id : ℕ) : ℕ → ℕ → Option (Option ℕ)
  | 0, _ => none
  | turns + 1, p => do
    let n ← s.nodes p
    match n.parent with
    | none => return none
    | some q => do
      let m ← s.nodes q
      if m.branchPrefix id = m.pfx then return some q else climbLater s id turns q

/-- The second loop of `i915_syncmap_is_later`: descend again to the leaf. -/
def descendLater (s : State) (id : ℕ) : ℕ → ℕ → Option (Option ℕ)
  | 0, _ => none
  | turns + 1, p => do
    let n ← s.nodes p
    if n.height = 0 then return some p
    else match n.child (n.branchIdx id) with
      | none => return none
      | some q => do
        let m ← s.nodes q
        if m.branchPrefix id ≠ m.pfx then return none else descendLater s id turns q

/-- The end of `i915_syncmap_is_later`, at the label `found`. -/
def compareSeqno (s : State) (p id : ℕ) (seqno : BitVec 32) : Option (State × Bool) := do
  let n ← s.nodes p
  bugOn (n.height ≠ 0)
  if n.bitmap.getLsbD (leafIdx id) then return (s, seqnoLater (n.seqno (leafIdx id)) seqno)
  else return (s, false)

/-- `i915_syncmap_is_later` -/
def isLater (s : State) (id : ℕ) (seqno : BitVec 32) : Option (State × Bool) :=
  match s.root with
  | none => some (s, false)
  | some p => do
    let n ← s.nodes p
    bugOn (n.height ≠ 0)
    if leafPrefix id = n.pfx then compareSeqno s p id seqno
    else match ← climbLater s id 16 p with
      | none => return (s, false)
      | some q => match ← descendLater s id 16 q with
        | none => return (s, false)
        | some q => compareSeqno { s with root := some q } q id seqno

/-! ## Setting -/

/-- The values that are returned. -/
inductive Ret where
  | zero
  | enomem
  deriving DecidableEq, Repr

/-- How a turn of the second loop of `__sync_set` ends. -/
inductive Turn where
  | next (p : ℕ)
  | found (p : ℕ)
  | enomem

/-- `fls64` -/
def fls64 (x : ℕ) : ℕ := if x = 0 then 0 else x.log2 + 1

/-- `round_up` -/
def roundUp (x y : ℕ) : ℕ := (x + (y - 1)) / y * y

/-- `__sync_alloc_leaf`, where the memory is there -/
def allocLeaf (s : State) (parent : Option ℕ) (id : ℕ) : State :=
  { s with
    nodes := update s.nodes s.fresh
      (some { pfx := leafPrefix id, height := 0, bitmap := 0, parent := parent })
    fresh := s.fresh + 1 }

/-- `__sync_set_seqno` -/
def setSeqno (s : State) (p id : ℕ) (seqno : BitVec 32) : Option State := do
  let n ← s.nodes p
  bugOn (n.height ≠ 0)
  return { s with
    nodes := update s.nodes p (some { n with
      bitmap := n.bitmap ||| (1#32 <<< leafIdx id)
      seqno := update n.seqno (leafIdx id) seqno }) }

/-- The first loop of `__sync_set`: climb back until a common prefix is found. -/
def climbSet (s : State) (id : ℕ) : ℕ → ℕ → Option ℕ
  | 0, _ => none
  | turns + 1, p => do
    let n ← s.nodes p
    match n.parent with
    | none => return p
    | some q => do
      let m ← s.nodes q
      if m.branchPrefix id = m.pfx then return q else climbSet s id turns q

/-- The height at which a layer and an identifier diverge, above the layer. -/
def Layer.above (n : Layer) (id : ℕ) : ℕ := roundUp (fls64 (n.branchPrefix id ^^^ n.pfx)) shift

/-- The join of a layer and an identifier, without its child. -/
def Layer.join (n : Layer) (id : ℕ) : Layer where
  pfx := id >>> (n.above id + n.height) >>> shift
  height := n.above id + n.height
  bitmap := 0
  parent := n.parent

/-- Insert a join into the parent, at the address `next`. -/
def insertInParent (nodes : ℕ → Option Layer) (parent : Option ℕ) (id next : ℕ) :
    Option (ℕ → Option Layer) :=
  match parent with
  | none => some nodes
  | some q => do
    let m ← nodes q
    bugOn (m.height = 0)
    bugOn (m.bitmap.getLsbD (m.branchIdx id) = false)
    return update nodes q
      (some { m with child := update m.child (m.branchIdx id) (some next) })

/-- Insert a join above the layer `p`, which is `n`. -/
def insertJoin (s : State) (p : ℕ) (n : Layer) (id : ℕ) : Option State := do
  let nodes ← insertInParent s.nodes n.parent id s.fresh
  let idx := (n.pfx >>> (n.above id - shift)) &&& mask
  return { s with
    nodes := update
      (update nodes s.fresh (some ((n.join id).setChild idx p)))
      p (some { n with parent := some s.fresh })
    fresh := s.fresh + 1 }

/-- The second half of a turn: descend into the next layer, or add a leaf. -/
def enterLayer (alloc : ℕ → Bool) (s : State) (p id : ℕ) : Option (State × Turn) := do
  let n ← s.nodes p
  bugOn (n.height = 0)
  match n.child (n.branchIdx id) with
  | some q => return (s, .next q)
  | none =>
    if alloc s.fresh then
      let s' := allocLeaf s (some p) id
      return ({ s' with
        nodes := update s'.nodes p (some (n.setChild (n.branchIdx id) s.fresh)) },
        .found s.fresh)
    else return (s, .enomem)

/-- A turn of the second loop of `__sync_set`. -/
def descendTurn (alloc : ℕ → Bool) (s : State) (p id : ℕ) : Option (State × Turn) := do
  let n ← s.nodes p
  if n.branchPrefix id ≠ n.pfx then
    if alloc s.fresh then do
      let s' ← insertJoin s p n id
      -- ascend to the join
      enterLayer alloc s' s.fresh id
    else return (s, .enomem)
  else if n.height = 0 then return (s, .found p)
  else enterLayer alloc s p id

/-- The second loop of `__sync_set`. -/
def descendSet (alloc : ℕ → Bool) (id : ℕ) : ℕ → State → ℕ → Option (State × Option ℕ)
  | 0, _, _ => none
  | turns + 1, s, p => do
    match ← descendTurn alloc s p id with
    | (s', .next q) => descendSet alloc id turns s' q
    | (s', .found q) => return (s', some q)
    | (s', .enomem) => return (s', none)

/-- The end of `__sync_set`, at the label `found`. -/
def finishSet (s : State) (p id : ℕ) (seqno : BitVec 32) : Option (State × Ret) := do
  let n ← s.nodes p
  bugOn (n.pfx ≠ leafPrefix id)
  let s' ← setSeqno s p id seqno
  return ({ s' with root := some p }, .zero)

/-- `__sync_set` -/
def syncSet (alloc : ℕ → Bool) (s : State) (id : ℕ) (seqno : BitVec 32) : Option (State × Ret) :=
  match s.root with
  | none =>
    if alloc s.fresh then finishSet (allocLeaf s none id) s.fresh id seqno else some (s, .enomem)
  | some p => do
    let n ← s.nodes p
    bugOn (n.height ≠ 0)
    bugOn (leafPrefix id = n.pfx)
    let q ← climbSet s id 16 p
    match ← descendSet alloc id 16 s q with
    | (s', none) => return (s', .enomem)
    | (s', some r) => finishSet s' r id seqno

/-- `i915_syncmap_set` -/
def set (alloc : ℕ → Bool) (s : State) (id : ℕ) (seqno : BitVec 32) : Option (State × Ret) :=
  match s.root with
  | none => syncSet alloc s id seqno
  | some p => do
    let n ← s.nodes p
    bugOn (n.height ≠ 0)
    if leafPrefix id = n.pfx then do
      let s' ← setSeqno s p id seqno
      return (s', .zero)
    else syncSet alloc s id seqno

/-! ## Freeing -/

/-- The slots in use, in the order in which the loop over `ffs` meets them. -/
def setBits (bitmap : BitVec 32) : List ℕ := (List.range 32).filter bitmap.getLsbD

/-- `__sync_free` -/
def freeLayer : ℕ → (ℕ → Option Layer) → ℕ → Option (ℕ → Option Layer)
  | 0, _, _ => none
  | turns + 1, nodes, p => do
    let n ← nodes p
    let nodes' ←
      if n.height ≠ 0 then
        (setBits n.bitmap).foldlM (fun nodes i => (n.child i).bind (freeLayer turns nodes)) nodes
      else some nodes
    return update nodes' p none

/-- The loop of `i915_syncmap_free`: climb to the layer without a parent. -/
def climbTop (s : State) : ℕ → ℕ → Option ℕ
  | 0, _ => none
  | turns + 1, p => do
    let n ← s.nodes p
    match n.parent with
    | none => return p
    | some q => climbTop s turns q

/-- `i915_syncmap_free` -/
def free (s : State) : Option State :=
  match s.root with
  | none => some s
  | some p => do
    let q ← climbTop s 16 p
    let nodes ← freeLayer 16 s.nodes q
    return { s with nodes := nodes, root := none }

end KmsDrm.I915.SyncMap
