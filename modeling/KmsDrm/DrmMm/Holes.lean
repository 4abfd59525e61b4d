import KmsDrm.DrmMm.Basic

/-!
# The hole indexes of `drm_mm`

The hole stack and the two hole trees list the same holes, the trees in the order of their keys.
This file says what that means for any state of the allocator (`Indexed`), and that it is kept
by the two elementary updates `add_hole` and `rm_hole`.

## Main definitions

* `DrmMm.Indexed` — the three indexes list the same holes.
-/

namespace KmsDrm.DrmMm

open KmsDrm.Lib
open KmsDrm.RbTree (rbInsert rbErase)

/-! ## Fields after an update -/

section Fields

variable (mm : Mm) (r q : Ref) (f : Node → Node)

@[simp] lemma modify_frame : (mm.modify r f).nodeList = mm.nodeList ∧
    (mm.modify r f).colorAdjust = mm.colorAdjust ∧ (mm.modify r f).holeStack = mm.holeStack ∧
    (mm.modify r f).holesSize = mm.holesSize ∧ (mm.modify r f).holesAddr = mm.holesAddr :=
  ⟨rfl, rfl, rfl, rfl, rfl⟩

@[simp] lemma modify_node_self : (mm.modify r f).node r = f (mm.node r) := by
  simp [Mm.modify]

lemma modify_node_of_ne {mm : Mm} {r q : Ref} {f : Node → Node} (h : q ≠ r) :
    (mm.modify r f).node q = mm.node q := by
  simp [Mm.modify, h]

@[simp] lemma addHole_frame : (addHole mm r).nodeList = mm.nodeList ∧
    (addHole mm r).colorAdjust = mm.colorAdjust := ⟨rfl, rfl⟩

@[simp] lemma rmHole_frame : (rmHole mm r).nodeList = mm.nodeList ∧
    (rmHole mm r).colorAdjust = mm.colorAdjust := ⟨rfl, rfl⟩

lemma addHole_node_self :
    (addHole mm r).node r =
      { mm.node r with holeSize := holeNodeEnd mm r - holeNodeStart mm r } := by
  simp [addHole]

lemma rmHole_node_self : (rmHole mm r).node r = { mm.node r with holeSize := 0 } := by
  simp [rmHole]

variable {mm r q}

lemma addHole_node_of_ne (h : q ≠ r) : (addHole mm r).node q = mm.node q := by
  simp [addHole, modify_node_of_ne h]

lemma rmHole_node_of_ne (h : q ≠ r) : (rmHole mm r).node q = mm.node q := by
  simp [rmHole, modify_node_of_ne h]

@[simp] lemma addHole_fields : ((addHole mm r).node q).start = (mm.node q).start ∧
    ((addHole mm r).node q).size = (mm.node q).size ∧
    ((addHole mm r).node q).allocated = (mm.node q).allocated := by
  by_cases h : q = r
  · simp [h, addHole_node_self]
  · simp [addHole_node_of_ne h]

@[simp] lemma rmHole_fields : ((rmHole mm r).node q).start = (mm.node q).start ∧
    ((rmHole mm r).node q).size = (mm.node q).size ∧
    ((rmHole mm r).node q).allocated = (mm.node q).allocated := by
  by_cases h : q = r
  · simp [h, rmHole_node_self]
  · simp [rmHole_node_of_ne h]

@[simp] lemma holeNodeStart_addHole : holeNodeStart (addHole mm r) q = holeNodeStart mm q := by
  simp [holeNodeStart]

@[simp] lemma holeNodeStart_rmHole : holeNodeStart (rmHole mm r) q = holeNodeStart mm q := by
  simp [holeNodeStart]

@[simp] lemma holeNodeEnd_addHole : holeNodeEnd (addHole mm r) q = holeNodeEnd mm q := by
  simp [holeNodeEnd]

end Fields

/-! ## Indexes -/

/-- A list that holds exactly the nodes of the allocator that are followed by a hole, once
each. -/
def IsIndex (mm : Mm) (l : List Ref) : Prop :=
  l.Nodup ∧ ∀ r, r ∈ l ↔ r ∈ mm.refs ∧ (mm.node r).holeSize ≠ 0

/-- The hole stack and the two trees list the same holes, the trees in the order of their keys and
the stack in the order in which the holes were created, the last one first. -/
structure Indexed (mm : Mm) : Prop where
  stack : IsIndex mm mm.holeStack
  size : IsIndex mm mm.holesSize.inorder
  addr : IsIndex mm mm.holesAddr.inorder
  sizeSorted : mm.holesSize.inorder.Pairwise fun a b =>
    (mm.node a).holeSize.toNat ≤ (mm.node b).holeSize.toNat
  addrSorted : mm.holesAddr.inorder.Pairwise fun a b =>
    (holeNodeStart mm a).toNat ≤ (holeNodeStart mm b).toNat
  recent : (mm.clock :: mm.holeStack.map mm.created).Pairwise (· > ·)

variable {mm : Mm} {r : Ref}

lemma IsIndex.erase {l : List Ref} (h : IsIndex mm l) : IsIndex (rmHole mm r) (l.erase r) := by
  refine ⟨h.1.erase r, fun q => ?_⟩
  rw [h.1.mem_erase_iff, h.2 q]
  by_cases hq : q = r
  · subst hq
    simp [rmHole_node_self]
  · simp [hq, rmHole_node_of_ne hq, Mm.refs]

lemma Indexed.rmHole (h : Indexed mm) : Indexed (rmHole mm r) := by
  have hsize : (DrmMm.rmHole mm r).holesSize.inorder = mm.holesSize.inorder.erase r :=
    RbTree.inorder_rbErase h.size.1
  have haddr : (DrmMm.rmHole mm r).holesAddr.inorder = mm.holesAddr.inorder.erase r :=
    RbTree.inorder_rbErase h.addr.1
  refine ⟨h.stack.erase, by rw [hsize]; exact h.size.erase, by rw [haddr]; exact h.addr.erase,
    ?_, ?_, h.recent.sublist ((List.erase_sublist.map _).cons_cons _)⟩
  · rw [hsize]
    refine (h.sizeSorted.sublist List.erase_sublist).imp_of_mem fun {a b} ha hb hab => ?_
    -- the keys that remain are not touched
    rw [rmHole_node_of_ne fun e => h.size.1.not_mem_erase (e ▸ ha),
      rmHole_node_of_ne fun e => h.size.1.not_mem_erase (e ▸ hb)]
    exact hab
  · rw [haddr]
    refine (h.addrSorted.sublist List.erase_sublist).imp fun {a b} hab => ?_
    simpa using hab

lemma IsIndex.insert {l l' : List Ref} (h : IsIndex mm l) (hp : l'.Perm (r :: l))
    (hr : r ∈ mm.refs) (h0 : (mm.node r).holeSize = 0)
    (hgap : holeNodeStart mm r ≠ holeNodeEnd mm r) : IsIndex (addHole mm r) l' := by
  have hrl : r ∉ l := fun hmem => ((h.2 r).1 hmem).2 h0
  refine ⟨hp.nodup_iff.2 (List.nodup_cons.2 ⟨hrl, h.1⟩), fun q => ?_⟩
  rw [hp.mem_iff, List.mem_cons, h.2 q]
  by_cases hq : q = r
  · subst hq
    have hne : holeNodeEnd mm q - holeNodeStart mm q ≠ 0 := by
      intro h'
      apply hgap
      bv_omega
    simp only [addHole_node_self, true_or, true_iff]
    exact ⟨hr, hne⟩
  · simp [hq, addHole_node_of_ne hq, Mm.refs]

lemma Indexed.addHole (h : Indexed mm) (hr : r ∈ mm.refs) (h0 : (mm.node r).holeSize = 0)
    (hgap : holeNodeStart mm r ≠ holeNodeEnd mm r) : Indexed (addHole mm r) := by
  have hnot : ∀ {l : List Ref}, IsIndex mm l → ∀ a ∈ l, a ≠ r := by
    intro l hl a ha e
    exact ((hl.2 r).1 (e ▸ ha)).2 h0
  have hkeep : ∀ a ∈ mm.holesSize.inorder,
      ((DrmMm.addHole mm r).node a).holeSize = (mm.node a).holeSize := by
    intro a ha
    rw [addHole_node_of_ne (hnot h.size a ha)]
  have hsize := @RbTree.rbInsert_ordered _
    (fun a => ((DrmMm.addHole mm r).node a).holeSize.toNat) _
    (fun a => decide (((DrmMm.addHole mm r).node r).holeSize <
      ((DrmMm.addHole mm r).node a).holeSize)) r mm.holesSize
    ⟨Nat.le_succ _, le_rfl⟩ (fun _ _ => decide_eq_true_iff)
    (h.sizeSorted.imp_of_mem fun {a b} ha hb hab => by rw [hkeep a ha, hkeep b hb]; exact hab)
  have haddr := @RbTree.rbInsert_ordered _
    (fun a => (holeNodeStart (DrmMm.addHole mm r) a).toNat) _
    (fun a => decide (holeNodeStart (DrmMm.addHole mm r) r <
      holeNodeStart (DrmMm.addHole mm r) a)) r mm.holesAddr
    ⟨Nat.le_succ _, le_rfl⟩ (fun _ _ => decide_eq_true_iff)
    (by simpa using h.addrSorted)
  refine ⟨h.stack.insert (List.Perm.refl _) hr h0 hgap, h.size.insert hsize.1 hr h0 hgap,
    h.addr.insert haddr.1 hr h0 hgap, hsize.2, haddr.2, ?_⟩
  have hdates : mm.holeStack.map (Function.update mm.created r mm.clock) =
      mm.holeStack.map mm.created :=
    List.map_congr_left fun a ha => Function.update_of_ne (hnot h.stack a ha) _ _
  show ((mm.clock + 1) :: Function.update mm.created r mm.clock r ::
    mm.holeStack.map (Function.update mm.created r mm.clock)).Pairwise (· > ·)
  rw [hdates, Function.update_self, List.pairwise_cons, List.forall_mem_cons]
  refine ⟨⟨Nat.lt_succ_self _, fun x hx => ?_⟩, h.recent⟩
  exact Nat.lt_succ_of_lt ((List.pairwise_cons.1 h.recent).1 x hx)

/-- What the indexes read of a state: they survive any change that keeps, for the nodes that
have a hole, the size and the place of the hole, and gives no other node one. -/
lemma Indexed.congr {mm' : Mm} (h : Indexed mm)
    (hstack : mm'.holeStack = mm.holeStack) (hsize : mm'.holesSize = mm.holesSize)
    (haddr : mm'.holesAddr = mm.holesAddr) (hcreated : mm'.created = mm.created)
    (hclock : mm'.clock = mm.clock)
    (hrefs : ∀ q, (q ∈ mm'.refs ∧ (mm'.node q).holeSize ≠ 0) ↔
      (q ∈ mm.refs ∧ (mm.node q).holeSize ≠ 0))
    (hnode : ∀ q ∈ mm.refs, (mm.node q).holeSize ≠ 0 →
      (mm'.node q).holeSize = (mm.node q).holeSize ∧ holeNodeStart mm' q = holeNodeStart mm q) :
    Indexed mm' := by
  have hidx : ∀ {l : List Ref}, IsIndex mm l → IsIndex mm' l := fun hl =>
    ⟨hl.1, fun q => (hl.2 q).trans (hrefs q).symm⟩
  refine ⟨hstack ▸ hidx h.stack, hsize ▸ hidx h.size, haddr ▸ hidx h.addr, ?_, ?_, ?_⟩
  · rw [hsize]
    refine h.sizeSorted.imp_of_mem fun {a b} ha hb hab => ?_
    have ha' := (h.size.2 a).1 ha
    have hb' := (h.size.2 b).1 hb
    rw [(hnode a ha'.1 ha'.2).1, (hnode b hb'.1 hb'.2).1]
    exact hab
  · rw [haddr]
    refine h.addrSorted.imp_of_mem fun {a b} ha hb hab => ?_
    have ha' := (h.addr.2 a).1 ha
    have hb' := (h.addr.2 b).1 hb
    rw [(hnode a ha'.1 ha'.2).2, (hnode b hb'.1 hb'.2).2]
    exact hab
  · rw [hstack, hcreated, hclock]
    exact h.recent

end KmsDrm.DrmMm
