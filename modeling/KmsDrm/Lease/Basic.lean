import KmsDrm.Lib.TreeWalk
import KmsDrm.Lib.Machine

/-!
# Leases of mode objects

A DRM master may lease some of its mode objects to a new master, its lessee, which may lease them
on. The masters form trees; the one at the top is the owner, and its `lessee_idr` has an entry for
every other master of the tree.

## Main definitions

* `Lease.leaseCreate`, `Lease.leaseRevoke`, `Lease.masterPut` — the calls.
* `Lease.Owner`, `Lease.Descends` — the trees of masters.

## Implementation notes

The trees are only changed under `idr_mutex`, and a call is taken as one step. An `idr` is a finite
map; one with leases has the same marker for all its entries, so it is the list of object ids in the
order in which `idr_for_each_entry` meets them. Masters are named by numbers that are not used
again, and the fields of a master that does not exist are those of a new one. A result `none`
stands for a loop that has run out of its bound.
-/

namespace KmsDrm.Lease

open KmsDrm.Lib
open Function (update)

/-- The name of a `struct drm_master`. -/
abbrev MasterId := ℕ

/-- The fields of all masters of a device. -/
structure State where
  alive : MasterId → Bool
  lessor : MasterId → Option MasterId
  lesseeId : MasterId → ℕ
  lessees : MasterId → List MasterId
  leases : MasterId → List ℕ
  lesseeIdr : MasterId → ℕ → Option MasterId
  refcount : MasterId → ℕ
  /-- The name of the next master. -/
  fresh : ℕ

/-- No master exists. -/
def init : State where
  alive _ := false
  lessor _ := none
  lesseeId _ := 0
  lessees _ := []
  leases _ := []
  lesseeIdr _ _ := none
  refcount _ := 0
  fresh := 0

/-- The error codes. -/
inductive Errno where
  | ENOMEM
  | ENOSPC
  | ENOENT
  | EACCES
  | EBUSY
  deriving DecidableEq, Repr

/-- `drm_master_create`, when the allocation succeeds. -/
def masterCreate (s : State) : State :=
  { s with
    alive := update s.alive s.fresh true
    refcount := update s.refcount s.fresh 1
    fresh := s.fresh + 1 }

/-- `drm_lease_owner`. -/
def leaseOwner (s : State) : ℕ → MasterId → Option MasterId
  | 0, _ => none
  | turns + 1, m =>
    match s.lessor m with
    | some p => leaseOwner s turns p
    | none => some m

/-- `_drm_lease_held_master`. -/
def leaseHeldMaster (s : State) (m : MasterId) (id : ℕ) : Bool :=
  match s.lessor m with
  | some _ => decide (id ∈ s.leases m)
  | none => true

/-- `_drm_has_leased`. -/
def hasLeased (s : State) (m : MasterId) (id : ℕ) : Bool :=
  (s.lessees m).any fun lessee => leaseHeldMaster s lessee id

/-- The body of the loop of `drm_lease_create` over the objects: the error, if there is one. -/
def checkObject (s : State) (crtcIdr : List ℕ) (lessor : MasterId) (object : ℕ) : Option Errno :=
  if object ∉ crtcIdr then some .ENOENT
  else if leaseHeldMaster s lessor object = false then some .EACCES
  else if hasLeased s lessor object then some .EBUSY
  else none

/-! ## References -/

/-- `drm_master_get`. -/
def masterGet (s : State) (m : MasterId) : State :=
  { s with refcount := update s.refcount m (s.refcount m + 1) }

/-- `list_del` of the `lessee_list` of a master, from whichever list it is on, and `kfree`. -/
def unlink (s : State) (m : MasterId) : State :=
  { s with
    alive := update s.alive m false
    lessor := update s.lessor m none
    lesseeId := update s.lesseeId m 0
    lessees := fun k => (s.lessees k).erase m
    leases := update s.leases m []
    lesseeIdr := update s.lesseeIdr m fun _ => none
    refcount := update s.refcount m 0 }

/-- The part of `drm_lease_destroy` that removes the master from the owner's `lessee_idr`. -/
def unregister (s : State) (m : MasterId) : Option State :=
  if s.lesseeId m ≠ 0 then
    (leaseOwner s (s.fresh + 1) m).map fun owner =>
      { s with
        lesseeIdr := update s.lesseeIdr owner
          (update (s.lesseeIdr owner) (s.lesseeId m) none) }
  else some s

/-- `drm_master_put`, with `drm_master_destroy` and `drm_lease_destroy` for the last reference. The
master is freed when it is off all lists, before the reference to its lessor is dropped: nothing
reads it in between. -/
def masterPut (s : State) : ℕ → MasterId → Option State
  | 0, _ => none
  | turns + 1, m =>
    if s.refcount m ≠ 1 then
      some { s with refcount := update s.refcount m (s.refcount m - 1) }
    else
      (unregister s m).bind fun s₁ =>
        match s.lessor m with
        | some p => masterPut (unlink s₁ m) turns p
        | none => some (unlink s₁ m)

/-! ## Leases -/

/-- The part of `drm_lease_create` that puts the new lessee into the tree. -/
def adopt (s : State) (lessor owner lessee : MasterId) (id : ℕ) (leases : List ℕ) : State :=
  { s with
    lesseeIdr := update s.lesseeIdr owner
      (update (s.lesseeIdr owner) id (some lessee))
    lesseeId := update s.lesseeId lessee id
    lessor := update s.lessor lessee (some lessor)
    refcount := update s.refcount lessor (s.refcount lessor + 1)
    lessees := update s.lessees lessor (s.lessees lessor ++ [lessee])
    leases := update s.leases lessee leases }

/-- `drm_lease_create`. The allocation of the master may fail; `alloc` is what `idr_alloc`
returns. -/
def leaseCreate (s : State) (lessor : MasterId) (leases crtcIdr : List ℕ) (mem : Bool)
    (alloc : Except Errno ℕ) : Option (Except Errno MasterId × State) :=
  if mem = false then some (.error .ENOMEM, s)
  else
    let lessee := s.fresh
    let s₁ := masterCreate s
    match leases.findSome? (checkObject s₁ crtcIdr lessor) with
    | some error => (masterPut s₁ (s₁.fresh + 1) lessee).map fun s₂ => (.error error, s₂)
    | none =>
      (leaseOwner s₁ (s₁.fresh + 1) lessor).bind fun owner =>
        match alloc with
        | .error error => (masterPut s₁ (s₁.fresh + 1) lessee).map fun s₂ => (.error error, s₂)
        | .ok id => some (.ok lessee, adopt s₁ lessor owner lessee id leases)

/-- The part of `_drm_lease_revoke` that empties the leases of one master, entry by entry. -/
def evacuate (m : MasterId) (s : State) : State :=
  { s with leases := update s.leases m ((s.leases m).foldl List.erase (s.leases m)) }

/-- `_drm_lease_revoke`, with a bound on the number of turns of its loops. -/
def leaseRevoke (s : State) (turns : ℕ) (top : MasterId) : Option State :=
  (Loop.run (TreeWalk.turn State.lessees State.lessor evacuate top) turns (s, .at top)).join

/-! ## The machine -/

/-- The calls. -/
inductive Action where
  | masterCreate (mem : Bool)
  | leaseCreate (lessor : MasterId) (leases crtcIdr : List ℕ) (mem : Bool) (alloc : Except Errno ℕ)
  | masterGet (m : MasterId)
  | masterPut (m : MasterId)
  | leaseRevoke (top : MasterId) (turns : ℕ)

/-- What `idr_alloc` may return for a map: an error, or an id from 1 on that is not in use. -/
def AllocOk (idr : ℕ → Option MasterId) : Except Errno ℕ → Prop
  | .error _ => True
  | .ok id => id ≠ 0 ∧ idr id = none

/-- What callers promise: a master they pass exists, and the reference they drop is one they hold,
not one of the lessees'. -/
def Legal (s : State) : Action → Prop
  | .masterCreate _ => True
  | .leaseCreate lessor _ _ _ alloc => s.alive lessor = true ∧
      ∀ owner ∈ leaseOwner s (s.fresh + 1) lessor, AllocOk (s.lesseeIdr owner) alloc
  | .masterGet m => s.alive m = true
  | .masterPut m => s.alive m = true ∧ (s.lessees m).length < s.refcount m
  | .leaseRevoke top _ => s.alive top = true

instance decidableAllocOk (idr : ℕ → Option MasterId) (alloc : Except Errno ℕ) :
    Decidable (AllocOk idr alloc) := by
  cases alloc <;> unfold AllocOk <;> infer_instance

instance decidableLegal (s : State) (a : Action) : Decidable (Legal s a) := by
  cases a <;> unfold Legal <;> infer_instance

/-- One call. -/
def step : Action → State → Option State
  | .masterCreate mem, s => some (if mem then masterCreate s else s)
  | .leaseCreate lessor leases crtcIdr mem alloc, s =>
    (leaseCreate s lessor leases crtcIdr mem alloc).map Prod.snd
  | .masterGet m, s => some (masterGet s m)
  | .masterPut m, s => masterPut s (s.fresh + 1) m
  | .leaseRevoke top turns, s => leaseRevoke s turns top

/-- The states of all runs in which the callers keep their promises. -/
def Reachable (s : State) : Prop := Machine.Runs step Legal init s

/-! ## The trees -/

/-- The master at the top of a tree. -/
inductive Owner (lessor : MasterId → Option MasterId) : MasterId → MasterId → Prop
  | top {m : MasterId} (h : lessor m = none) : Owner lessor m m
  | up {m p o : MasterId} (h : lessor m = some p) (hp : Owner lessor p o) : Owner lessor m o

/-- A master is `top` or below it. -/
def Descends (s : State) : MasterId → MasterId → Prop :=
  Relation.ReflTransGen fun p c => s.lessor c = some p

/-- The lists and the pointers of the trees match. -/
structure Linked (s : State) : Prop where
  mem_lessees : ∀ {m p : MasterId}, m ∈ s.lessees p ↔ s.lessor m = some p
  nodup : ∀ p : MasterId, (s.lessees p).Nodup

end KmsDrm.Lease
