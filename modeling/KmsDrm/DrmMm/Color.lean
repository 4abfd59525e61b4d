import KmsDrm.DrmMm.Invariant

/-!
# Drivers that adjust holes

A driver may install a callback that keeps nodes of different colours apart. The callback is there
to apply further restrictions to a hole, so it may make a hole smaller but not larger. It has a part
only in the choice of the place for a node; apart from it the allocator is the one without the
callback.

## Main definitions

* `DrmMm.Sound` — the invariant of an allocator whose callback only restricts.
-/

namespace KmsDrm.DrmMm

/-- The callback does not make a hole larger. -/
def Restricts (f : ColorAdjust) : Prop :=
  ∀ node nodeList hole color bounds, bounds.1 ≤ (f node nodeList hole color bounds).1 ∧
    (f node nodeList hole color bounds).2 ≤ bounds.2

/-- The allocator without its callback. -/
def uncolored (mm : Mm) : Mm := { mm with colorAdjust := none }

/-- The invariant of an allocator whose callback, if there is one, restricts holes. -/
structure Sound (lo hi : U64) (mm : Mm) : Prop where
  inv : Inv lo hi (uncolored mm)
  restricts : ∀ f ∈ mm.colorAdjust, Restricts f

lemma uncolored_eq {mm : Mm} (h : mm.colorAdjust = none) : uncolored mm = mm := by
  rw [uncolored, ← h]

variable {lo hi : U64} {mm : Mm}

lemma Inv.sound (h : Inv lo hi mm) : Sound lo hi mm where
  inv := by
    rw [uncolored_eq h.noColor]
    exact h
  restricts := fun f hf => by
    rw [h.noColor] at hf
    cases hf

lemma Sound.adjustColor_le (h : Sound lo hi mm) (hole : Ref) (color : U64) (bounds : U64 × U64) :
    bounds.1 ≤ (adjustColor mm hole color bounds).1 ∧
      (adjustColor mm hole color bounds).2 ≤ bounds.2 := by
  unfold adjustColor
  cases hf : mm.colorAdjust with
  | none => exact ⟨BitVec.le_refl _, BitVec.le_refl _⟩
  | some f => exact h.restricts f hf mm.node mm.nodeList hole color bounds

/-! The updates of the allocator do not look at the callback. -/

lemma uncolored_modify (mm : Mm) (r : Ref) (f : Node → Node) :
    uncolored (mm.modify r f) = (uncolored mm).modify r f := rfl

lemma uncolored_addHole (mm : Mm) (r : Ref) :
    uncolored (addHole mm r) = addHole (uncolored mm) r := rfl

lemma uncolored_linkNode (mm : Mm) (hole : Ref) (id : NodeId) (holeStart holeEnd : U64) :
    uncolored (linkNode mm hole id holeStart holeEnd) =
      linkNode (uncolored mm) hole id holeStart holeEnd := by
  simp only [linkNode, apply_ite uncolored, uncolored_addHole]
  rfl

lemma uncolored_rmHole_if (mm : Mm) (r : Ref) :
    uncolored (if holeFollows mm r then rmHole mm r else mm) =
      if holeFollows (uncolored mm) r then rmHole (uncolored mm) r else uncolored mm :=
  apply_ite uncolored _ _ _

lemma uncolored_unlinked (mm : Mm) (id : NodeId) :
    uncolored (unlinked mm id) = unlinked (uncolored mm) id := rfl

lemma removeNode_eq (mm : Mm) (id : NodeId) : removeNode mm id =
    let mm1 := unlinked (if holeFollows mm (some id) then rmHole mm (some id) else mm) id
    let prev := Lib.CircList.prev mm.nodeList id
    addHole (if holeFollows mm1 prev then rmHole mm1 prev else mm1) prev := rfl

lemma uncolored_removeNode (mm : Mm) (id : NodeId) :
    uncolored (removeNode mm id) = removeNode (uncolored mm) id := by
  rw [removeNode_eq, uncolored_addHole, uncolored_rmHole_if, uncolored_unlinked,
    uncolored_rmHole_if]
  rfl

lemma uncolored_replaceNode (mm : Mm) (old new : NodeId) :
    uncolored (replaceNode mm old new) = replaceNode (uncolored mm) old new := by
  simp only [replaceNode, replaceHole, uncolored_modify, apply_ite uncolored]
  rfl

end KmsDrm.DrmMm
