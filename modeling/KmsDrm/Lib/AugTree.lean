import KmsDrm.Lib.BinTree

/-!
# Binary trees with a cached value in every node

A search tree can keep, in the tag of each node, a value computed from the element of the node
and the cached values of its children. This module states when all cached values are right, for
a tree and for a position in it, and what a walk upwards that recomputes them establishes.

## Main results

* `BinTree.augmented_plug` — a tree is right iff the subtree and the frames of a position are.
* `BinTree.mapTag_plug`, `BinTree.inorder_mapTag`, `BinTree.locate_mapTag` — the tags are
  invisible to the shape of the tree.
-/

namespace KmsDrm.Lib

namespace BinTree

variable {κ κ' α β : Type}

/-! ## Changing tags -/

/-- Replace every tag. -/
@[simp] def mapTag (f : κ → κ') : BinTree κ α → BinTree κ' α
  | nil => nil
  | node c l a r => node (f c) (mapTag f l) a (mapTag f r)

def Frame.mapTag (f : κ → κ') : Frame κ α → Frame κ' α
  | .left c a r => .left (f c) a (r.mapTag f)
  | .right c l a => .right (f c) (l.mapTag f) a

variable (f : κ → κ')

@[simp] lemma Frame.mapTag_left (c : κ) (a : α) (r : BinTree κ α) :
    (Frame.left c a r).mapTag f = .left (f c) a (r.mapTag f) := rfl

@[simp] lemma Frame.mapTag_right (c : κ) (l : BinTree κ α) (a : α) :
    (Frame.right c l a).mapTag f = .right (f c) (l.mapTag f) a := rfl

variable (t : BinTree κ α)

@[simp] lemma inorder_mapTag : (t.mapTag f).inorder = t.inorder := by
  induction t with
  | nil => rfl
  | node c l a r ihl ihr => simp [ihl, ihr]

variable (p : List (Frame κ α))

@[simp] lemma mapTag_plug : (plug t p).mapTag f = plug (t.mapTag f) (p.map (Frame.mapTag f)) := by
  induction p generalizing t with
  | nil => rfl
  | cons q p ih => cases q <;> simp [plug, ih]

@[simp] lemma before_mapTag : before (p.map (Frame.mapTag f)) = before p := by
  induction p with
  | nil => rfl
  | cons q p ih => cases q <;> simp [before, ih]

@[simp] lemma after_mapTag : after (p.map (Frame.mapTag f)) = after p := by
  induction p with
  | nil => rfl
  | cons q p ih => cases q <;> simp [after, ih]

lemma locate_mapTag [DecidableEq α] (x : α) :
    (t.mapTag f).locate x (p.map (Frame.mapTag f)) =
      (t.locate x p).map fun q => (q.1.mapTag f, q.2.map (Frame.mapTag f)) := by
  induction t generalizing p with
  | nil => rfl
  | node c l a r ihl ihr =>
    have hl := ihl (.left c a r :: p)
    have hr := ihr (.right c l a :: p)
    simp only [List.map_cons, Frame.mapTag_left, Frame.mapTag_right] at hl hr
    by_cases h : a = x
    · simp [locate, h]
    · rw [mapTag]
      simp only [locate, if_neg h, hl, hr]
      cases l.locate x (.left c a r :: p) <;> rfl

/-! ## Cached values -/

section Cached

variable (val : κ → β) (compute : Option β → α → Option β → β)

/-- The value that the root of a tree caches. -/
def cached : BinTree κ α → Option β
  | nil => none
  | node c _ _ _ => some (val c)

@[simp] lemma cached_nil : (nil : BinTree κ α).cached val = none := rfl

@[simp] lemma cached_node (c : κ) (l : BinTree κ α) (a : α) (r : BinTree κ α) :
    (node c l a r).cached val = some (val c) := rfl

/-- Every node caches the value computed from its element and its children's values. -/
@[simp] def Augmented : BinTree κ α → Prop
  | nil => True
  | node c l a r => val c = compute (l.cached val) a (r.cached val) ∧ Augmented l ∧ Augmented r

/-- The nodes above a position cache the right values, where `v` is what the subtree at the
position shows to its parent. -/
@[simp] def AugFrames : Option β → List (Frame κ α) → Prop
  | _, [] => True
  | v, .left c a r :: p =>
    val c = compute v a (r.cached val) ∧ Augmented val compute r ∧ AugFrames (some (val c)) p
  | v, .right c l a :: p =>
    val c = compute (l.cached val) a v ∧ Augmented val compute l ∧ AugFrames (some (val c)) p

/-- **Right values around a position.** A tree caches right values iff the subtree at a position
does and the frames above it do for the value that this subtree shows. -/
@[simp] theorem augmented_plug :
    Augmented val compute (plug t p) ↔
      Augmented val compute t ∧ AugFrames val compute (t.cached val) p := by
  induction p generalizing t with
  | nil => simp [plug]
  | cons q p ih =>
    cases q with
    | left c a r | right c l a => simp only [plug, ih, Augmented, cached_node, AugFrames]; tauto

variable {val compute} in
lemma Augmented.congr {compute' : Option β → α → Option β → β} {t : BinTree κ α}
    (h : Augmented val compute t) (hc : ∀ a ∈ t.inorder, ∀ l r, compute l a r = compute' l a r) :
    Augmented val compute' t := by
  induction t with
  | nil => trivial
  | node c l a r ihl ihr =>
    obtain ⟨hv, hl, hr⟩ := h
    refine ⟨hv.trans (hc a (by simp) _ _), ihl hl ?_, ihr hr ?_⟩
    · exact fun b hb => hc b (by simp [hb])
    · exact fun b hb => hc b (by simp [hb])

lemma augFrames_append (q : List (Frame κ α)) :
    AugFrames val compute (t.cached val) (q ++ p) ↔
      AugFrames val compute (t.cached val) q ∧ AugFrames val compute ((plug t q).cached val) p := by
  induction q generalizing t with
  | nil => simp [plug]
  | cons f q ih =>
    cases f with
    | left c a r =>
      have := ih (node c t a r)
      simp only [List.cons_append, AugFrames]
      tauto
    | right c l a =>
      have := ih (node c l a t)
      simp only [List.cons_append, AugFrames]
      tauto

end Cached

end BinTree

end KmsDrm.Lib
