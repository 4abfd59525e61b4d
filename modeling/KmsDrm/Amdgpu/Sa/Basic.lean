import KmsDrm.Lib.CircList
import KmsDrm.Lib.Threads

/-!
# The sub-allocator of amdgpu

A manager hands out ranges of one buffer object. The ranges that are in use, or that were freed
with a fence that may still be pending, are on the list `olist` in the order of their offsets; the
next range is taken from the hole behind the entry `hole`. Freed ranges are also on one of 32 lists
by the context of their fence, from which `amdgpu_sa_bo_next_hole` takes back the one that is
closest to the hole.

## Main definitions

* `Amdgpu.Sa.Manager` — the manager with its lists.
* `Amdgpu.Sa.newStep`, `Amdgpu.Sa.saBoFree` — the calls; `Amdgpu.Sa.saNext` is a step of a thread.

## Implementation notes

Offsets are `unsigned int`, so sums are taken modulo `2^32`. Everything between `spin_lock` and
`spin_unlock` of `amdgpu_sa_bo_new` is divided into one step for each call of
`dma_fence_is_signaled`, because fences may be signaled at any time. The structure of a new
allocation gets its name when it is put on the list; the failure of `kmalloc`, which returns at
once, is left out.
-/

namespace KmsDrm.Amdgpu.Sa

open KmsDrm.Lib CircList
open Function (update)

/-- The name of a `struct amdgpu_sa_bo`. -/
abbrev BoId := ℕ

/-- A `struct dma_fence`. -/
structure Fence where
  context : ℕ
  seqno : ℕ
  deriving DecidableEq, Repr

/-- `struct amdgpu_sa_bo`. -/
structure SaBo where
  soffset : ℕ
  eoffset : ℕ
  fence : Option Fence
  deriving DecidableEq, Repr

/-- `struct amdgpu_sa_manager`; the hole is a pointer into `olist`, `none` being its head. -/
structure Manager where
  size : ℕ
  align : ℕ
  olist : List BoId
  hole : Option BoId
  flist : ℕ → List BoId
  /-- The allocations, by name. -/
  bo : BoId → SaBo

/-- `AMDGPU_SA_NUM_FENCE_LISTS`. -/
def numFenceLists : ℕ := 32

/-- `amdgpu_sa_bo_manager_init`. -/
def managerInit (size align : ℕ) : Manager where
  size := size
  align := align
  olist := []
  hole := none
  flist _ := []
  bo _ := ⟨0, 0, none⟩

/-! ## The lists -/

/-- `amdgpu_sa_bo_remove_locked`; an allocation is on one list of fences at most. -/
def removeLocked (m : Manager) (id : BoId) : Manager :=
  { m with
    hole := if m.hole = some id then prev m.olist id else m.hole
    olist := m.olist.erase id
    flist := fun i => (m.flist i).erase id }

/-- `amdgpu_sa_bo_hole_soffset`. -/
def holeSoffset (m : Manager) : ℕ :=
  match m.hole with
  | some id => (m.bo id).eoffset
  | none => 0

/-- `amdgpu_sa_bo_hole_eoffset`. -/
def holeEoffset (m : Manager) : ℕ :=
  match next m.olist m.hole with
  | some id => (m.bo id).soffset
  | none => m.size

/-- What is left out before an aligned offset. -/
def wasted (soffset align : ℕ) : ℕ := (align - soffset % align) % align

/-- The condition of `amdgpu_sa_bo_try_alloc` and `amdgpu_sa_event` that the hole is large
enough. -/
def fits (m : Manager) (size align : ℕ) : Bool :=
  decide ((size + wasted (holeSoffset m) align) % 2 ^ 32 ≤
    (holeEoffset m + (2 ^ 32 - holeSoffset m)) % 2 ^ 32)

/-- `amdgpu_sa_bo_try_alloc`. -/
def tryAlloc (m : Manager) (id : BoId) (size align : ℕ) : Option Manager :=
  if fits m size align then
    let soffset := (holeSoffset m + wasted (holeSoffset m) align) % 2 ^ 32
    some { m with
      bo := update m.bo id ⟨soffset, (soffset + size) % 2 ^ 32, none⟩
      olist := insertAfter m.olist m.hole id
      hole := some id }
  else none

/-- The part of `amdgpu_sa_bo_free` for a fence that is not signaled. -/
def pend (m : Manager) (id : BoId) (f : Fence) : Manager :=
  { m with
    bo := update m.bo id { m.bo id with fence := some f }
    flist := update m.flist (f.context % numFenceLists)
      (m.flist (f.context % numFenceLists) ++ [id]) }

/-- The end of `amdgpu_sa_bo_next_hole`, for the allocation it has found. -/
def reclaim (m : Manager) (id : BoId) : Manager :=
  removeLocked { m with hole := prev m.olist id } id

/-- `amdgpu_sa_event`. -/
def saEvent (m : Manager) (size align : ℕ) : Bool :=
  (List.range numFenceLists).any (fun i => !(m.flist i).isEmpty) || fits m size align

/-! ## The threads -/

/-- The arguments and local variables of `amdgpu_sa_bo_new`. -/
structure Request where
  size : ℕ
  align : ℕ
  fences : ℕ → Option Fence := fun _ => none
  tries : ℕ → ℕ := fun _ => 0

/-- The beginning of the outer loop. -/
def Request.reset (r : Request) : Request := ⟨r.size, r.align, fun _ => none, fun _ => 0⟩

/-- Program points. `tryFree` has the loop of `amdgpu_sa_bo_try_free` at an entry of `olist`;
`scan` has the loop of `amdgpu_sa_bo_next_hole` at a list of fences. -/
inductive Pc where
  | idle
  | enter (r : Request)
  | tryFree (r : Request) (cur : Option BoId)
  | tryAlloc (r : Request)
  | nextHole (r : Request)
  | scan (r : Request) (soffset i best : ℕ) (bestBo : Option BoId)
  | waitFences (r : Request)
  | event (r : Request)
  | sleep (r : Request)
  | returned (id : BoId) (size align : ℕ)

/-- The manager, the fences that are signaled, the thread that holds `wq.lock`, and a name for the
next allocation. -/
structure Shared where
  mgr : Manager
  signaled : Fence → Bool
  lock : Option ℕ
  next : BoId

/-- The calls and the choices of the environment: `go ok` goes on, with `ok` the result of a
wait. -/
inductive Choice where
  | signal (f : Fence)
  | new (size align : ℕ)
  | free (id : BoId) (fence : Option Fence)
  | go (ok : Bool)
  deriving DecidableEq, Repr

/-- The beginning of the inner loop: `amdgpu_sa_bo_try_free` starts behind the hole. -/
def again (s : Shared) (r : Request) : Shared × Pc :=
  (s, .tryFree r (next s.mgr.olist s.mgr.hole))

/-- The end of the loop of `amdgpu_sa_bo_next_hole`, and the waits after the inner loop. -/
def afterScan (s : Shared) (r : Request) (bestBo : Option BoId) : Option (Shared × Pc) :=
  match bestBo with
  | some id =>
    (s.mgr.bo id).fence.map fun f =>
      let idx := f.context % 2 ^ 32 % numFenceLists
      again { s with mgr := reclaim s.mgr id }
        { r with tries := update r.tries idx (r.tries idx + 1) }
  | none =>
    if (List.range numFenceLists).any fun i => (r.fences i).isSome then
      some ({ s with lock := none }, .waitFences r)
    else some (s, .event r)

/-- One turn of the loop of `amdgpu_sa_bo_next_hole`. -/
def scanTurn (s : Shared) (r : Request) (soffset i best : ℕ) (bestBo : Option BoId) : Option Pc :=
  match (s.mgr.flist i).head? with
  | none => some (.scan r soffset (i + 1) best bestBo)
  | some id =>
    (s.mgr.bo id).fence.map fun f =>
      if !s.signaled f then
        .scan { r with fences := update r.fences i (some f) } soffset (i + 1) best bestBo
      else if 2 < r.tries i then .scan r soffset (i + 1) best bestBo
      else
        let tmp := (s.mgr.bo id).soffset
        let tmp := if tmp < soffset then (tmp + s.mgr.size) % 2 ^ 32 else tmp
        let tmp := (tmp + (2 ^ 32 - soffset)) % 2 ^ 32
        if tmp < best then .scan r soffset (i + 1) tmp (some id)
        else .scan r soffset (i + 1) best bestBo

/-- A step of a thread within `amdgpu_sa_bo_new`. -/
def newStep (t : ℕ) (ok : Bool) (s : Shared) : Pc → Option (Shared × Pc)
  | .idle => none
  | .enter r =>
    if s.lock = none then some (again { s with lock := some t } r.reset) else none
  | .tryFree r none => some (s, .tryAlloc r)
  | .tryFree r (some id) =>
    match (s.mgr.bo id).fence with
    | none => some (s, .tryAlloc r)
    | some f =>
      if s.signaled f then
        some ({ s with mgr := removeLocked s.mgr id },
          .tryFree r (next s.mgr.olist (some id)))
      else some (s, .tryAlloc r)
  | .tryAlloc r =>
    match tryAlloc s.mgr s.next r.size r.align with
    | some m =>
      some ({ s with mgr := m, lock := none, next := s.next + 1 }, .returned s.next r.size r.align)
    | none => some (s, .nextHole r)
  | .nextHole r =>
    if next s.mgr.olist s.mgr.hole = none then
      some (again { s with mgr := { s.mgr with hole := none } } r)
    else some (s, .scan r (holeSoffset s.mgr) 0 (s.mgr.size * 2 % 2 ^ 32) none)
  | .scan r soffset i best bestBo =>
    if i < numFenceLists then (scanTurn s r soffset i best bestBo).map fun p => (s, p)
    else afterScan s r bestBo
  | .waitFences r =>
    if s.lock = none then
      if ok then some (again { s with lock := some t } r.reset) else some (s, .idle)
    else none
  | .event r =>
    if saEvent s.mgr r.size r.align then some (again s r.reset)
    else some ({ s with lock := none }, .sleep r)
  | .sleep r =>
    if s.lock = none then
      if ok then some ({ s with lock := some t }, .event r) else some (s, .idle)
    else none
  | .returned _ _ _ => some (s, .idle)

/-- `amdgpu_sa_bo_free`. -/
def saBoFree (s : Shared) (id : BoId) (fence : Option Fence) : Shared :=
  match fence with
  | some f => if !s.signaled f then { s with mgr := pend s.mgr id f }
    else { s with mgr := removeLocked s.mgr id }
  | none => { s with mgr := removeLocked s.mgr id }

/-- The beginning of `amdgpu_sa_bo_new`, with its checks. -/
def saBoNew (s : Shared) (size align : ℕ) : Pc :=
  if s.mgr.align < align then .idle
  else if s.mgr.size < size then .idle
  else .enter { size := size, align := align }

/-- A step of a thread. -/
def saNext (t : ℕ) (x : Choice) (s : Shared) (p : Pc) : Option (Shared × Pc) :=
  match x, p with
  | .signal f, p => some ({ s with signaled := update s.signaled f true }, p)
  | .new size align, .idle => some (s, saBoNew s size align)
  | .free id fence, .idle => if s.lock = none then some (saBoFree s id fence, .idle) else none
  | .go ok, p => newStep t ok s p
  | _, _ => none

/-- What the callers promise: alignments that divide the one of the manager, and to free what they
have been given, once. -/
def Allowed (s : Shared) : Choice → Prop
  | .new _ align => align ∣ s.mgr.align
  | .free id _ => id ∈ s.mgr.olist ∧ (s.mgr.bo id).fence = none
  | _ => True

instance (s : Shared) : ∀ x, Decidable (Allowed s x)
  | .new _ align => inferInstanceAs (Decidable (align ∣ s.mgr.align))
  | .free _ _ => inferInstanceAs (Decidable (_ ∧ _))
  | .signal _ => inferInstanceAs (Decidable True)
  | .go _ => inferInstanceAs (Decidable True)

/-- A new manager, with no thread inside and no fence signaled. -/
def init (size align : ℕ) : Threads.Config Shared Pc :=
  ⟨⟨managerInit size align, fun _ => false, none, 0⟩, fun _ => .idle⟩

/-- The states that the threads reach from a new manager. -/
def Reachable (size align : ℕ) : Threads.Config Shared Pc → Prop :=
  Threads.Runs saNext (fun c _ x => Allowed c.shared x) (init size align)

end KmsDrm.Amdgpu.Sa
