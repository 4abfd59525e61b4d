import KmsDrm.Lib.BinTree

/-!
# Red-black trees of the Linux compatibility layer

The insertion and erasure of `linux_rbtree.c` and `rbtree_augmented.h`, on trees without
augmented data. The packed parent/colour words of the source are a colour in each node and, in
place of the parent pointers, the list of frames above the node at hand (`BinTree.Frame`); each
pass of a rebalancing loop consumes the frames it moves over.

## Main results

* `RbTree.inorder_rbInsert`, `rbInsert_ordered` — an insertion by key puts the element
  before or after the elements of the same key and changes nothing else.
* `RbTree.inorder_rbErase` — an erasure removes exactly its element.
* `RbTree.inorder_rbReplaceNode` — a replacement renames exactly its element.

## Implementation notes

The source follows pointers that a valid tree has: the parent of a red node, the sibling of a
black one. Where such a pointer could only be `NULL` in an invalid tree the model leaves the
tree as it is. None of the results below depends on the colours.
-/

namespace KmsDrm.RbTree

open KmsDrm.Lib
open KmsDrm.Lib.BinTree (nil node Frame plug before after)

/-- `RB_RED` and `RB_BLACK`. -/
inductive Color where
  | red
  | black
  deriving DecidableEq, Repr

/-- A red-black tree (`struct rb_root`) over elements `α`. -/
abbrev RbRoot (α : Type) := BinTree Color α

variable {α : Type}

/-- `rb_set_parent_color` at a node that keeps its place: only the colour changes. -/
def setColor (c : Color) : RbRoot α → RbRoot α
  | nil => nil
  | node _ l a r => node c l a r

variable (t : RbRoot α)

@[simp] lemma inorder_setColor (c : Color) : (setColor c t).inorder = t.inorder := by
  cases t <;> rfl

/-- `tmp && rb_is_red(tmp)`. -/
def isRed : RbRoot α → Bool
  | node .red _ _ _ => true
  | _ => false

/-! ## Insertion -/

/-- `__rb_insert`: the red node `node red l a r` stands at the position given by the frames.
The first frame is the parent, the second the grandparent. -/
def rbInsertColor (l : RbRoot α) (a : α) (r : RbRoot α) : List (Frame Color α) → RbRoot α
  | [] => node .black l a r
  | .left .black pa pr :: p => plug (node .black (node .red l a r) pa pr) p
  | .right .black pl pa :: p => plug (node .black pl pa (node .red l a r)) p
  | [.left .red pa pr] => node .red (node .red l a r) pa pr
  | [.right .red pl pa] => node .red pl pa (node .red l a r)
  | .left .red pa pr :: .left gc ga u :: p =>
    if isRed u then
      -- case 1: the uncle is red, the colours flip and the grandparent goes on
      rbInsertColor (node .black (node .red l a r) pa pr) ga (setColor .black u) p
    else
      -- case 3: right rotate at the grandparent
      plug (node gc (node .red l a r) pa (node .red (setColor .black pr) ga u)) p
  | .right .red pl pa :: .left gc ga u :: p =>
    if isRed u then
      rbInsertColor (node .black pl pa (node .red l a r)) ga (setColor .black u) p
    else
      -- case 2, left rotate at the parent, continued by case 3
      plug (node gc (node .red pl pa (setColor .black l)) a
        (node .red (setColor .black r) ga u)) p
  | .right .red pl pa :: .right gc u ga :: p =>
    if isRed u then
      rbInsertColor (setColor .black u) ga (node .black pl pa (node .red l a r)) p
    else
      plug (node gc (node .red u ga (setColor .black pl)) pa (node .red l a r)) p
  | .left .red pa pr :: .right gc u ga :: p =>
    if isRed u then
      rbInsertColor (setColor .black u) ga (node .black (node .red l a r) pa pr) p
    else
      plug (node gc (node .red u ga (setColor .black l)) a
        (node .red (setColor .black r) pa pr)) p

lemma inorder_rbInsertColor (l : RbRoot α) (a : α) (r : RbRoot α) (p : List (Frame Color α)) :
    (rbInsertColor l a r p).inorder = before p ++ (l.inorder ++ a :: r.inorder) ++ after p := by
  fun_induction rbInsertColor l a r p <;>
    simp_all [BinTree.inorder_plug, before, after]

/-- The `RB_INSERT` macro: walk down, to the left where the new key is smaller, link the node
red at the empty link found and rebalance. -/
def rbInsert (lt : α → Bool) (x : α) (t : RbRoot α) : RbRoot α :=
  rbInsertColor nil x nil (t.attachPath lt [])

lemma inorder_rbInsert {lt : α → Bool} (x : α) {t : RbRoot α}
    (h : t.inorder.Pairwise fun a b => lt a = true → lt b = true) :
    (rbInsert lt x t).inorder = t.inorder.filter (fun a => !lt a) ++ x :: t.inorder.filter lt := by
  obtain ⟨hbefore, hafter⟩ := t.attachPath_spec [] h
  rw [rbInsert, inorder_rbInsertColor, hbefore, hafter]
  simp [before, after]

lemma rbInsert_ordered {key : α → ℕ} {c : ℕ} {lt : α → Bool} {x : α} {t : RbRoot α}
    (hc : key x ≤ c ∧ c ≤ key x + 1) (hlt : ∀ a ∈ t.inorder, lt a = true ↔ c ≤ key a)
    (h : t.inorder.Pairwise fun a b => key a ≤ key b) :
    (rbInsert lt x t).inorder.Perm (x :: t.inorder) ∧
      (rbInsert lt x t).inorder.Pairwise fun a b => key a ≤ key b := by
  have hpart : t.inorder.Pairwise fun a b => lt a = true → lt b = true := by
    refine h.imp_of_mem fun {a b} ha hb hab hla => ?_
    rw [hlt a ha] at hla
    exact (hlt b hb).2 (hla.trans hab)
  have hnot : ∀ a ∈ t.inorder.filter (fun a => !lt a), key a ≤ key x := by
    intro a ha
    rw [List.mem_filter, Bool.not_eq_true', ← Bool.not_eq_true] at ha
    rw [hlt a ha.1] at ha
    omega
  have hyes : ∀ a ∈ t.inorder.filter lt, key x ≤ key a := by
    intro a ha
    rw [List.mem_filter] at ha
    exact hc.1.trans ((hlt a ha.1).1 ha.2)
  rw [inorder_rbInsert x hpart]
  refine ⟨List.perm_middle.trans (List.Perm.cons x ?_), ?_⟩
  · have := List.filter_append_perm (fun a => !lt a) t.inorder
    simpa using this
  · rw [List.pairwise_append, List.pairwise_cons]
    refine ⟨h.filter _, ⟨hyes, h.filter _⟩, fun a ha b hb => ?_⟩
    rcases List.mem_cons.1 hb with rfl | hb
    · exact hnot a ha
    · exact (hnot a ha).trans (hyes b hb)

/-! ## Erasure -/

/-- Cases 2 to 4 of `____rb_erase_color` for a left child `t` that is one black node short, with
parent `pa` of colour `pc` and right sibling `s`. The flag tells whether the resulting subtree
is still one short, so that the loop goes on at the parent. -/
def eraseColorLeft (pc : Color) (t : RbRoot α) (pa : α) (s : RbRoot α) : RbRoot α × Bool :=
  match s with
  | nil => (node pc t pa nil, false)
  | node _ sl sa sr =>
    if isRed sr then
      -- case 4: left rotate at the parent
      (node pc (node .black t pa sl) sa (setColor .black sr), false)
    else
      match sl with
      | node .red sll sla slr =>
        -- case 3, right rotate at the sibling, continued by case 4
        (node pc (node .black t pa sll) sla (node .black (setColor .black slr) sa sr), false)
      | sl =>
        -- case 2: the sibling turns red
        (node .black t pa (node .red sl sa sr), pc = .black)

/-- The mirror image of `eraseColorLeft`, for a right child that is one black node short. -/
def eraseColorRight (pc : Color) (s : RbRoot α) (pa : α) (t : RbRoot α) : RbRoot α × Bool :=
  match s with
  | nil => (node pc nil pa t, false)
  | node _ sl sa sr =>
    if isRed sl then
      (node pc (setColor .black sl) sa (node .black sr pa t), false)
    else
      match sr with
      | node .red srl sra srr =>
        (node pc (node .black sl sa (setColor .black srl)) sra (node .black srr pa t), false)
      | sr => (node .black (node .red sl sa sr) pa t, pc = .black)

lemma inorder_eraseColorLeft (pc : Color) (pa : α) (s : RbRoot α) :
    (eraseColorLeft pc t pa s).1.inorder = t.inorder ++ pa :: s.inorder := by
  fun_cases eraseColorLeft pc t pa s <;> simp

lemma inorder_eraseColorRight (pc : Color) (s : RbRoot α) (pa : α) :
    (eraseColorRight pc s pa t).1.inorder = s.inorder ++ pa :: t.inorder := by
  fun_cases eraseColorRight pc s pa t <;> simp

/-- `____rb_erase_color`: the subtree `t` at the given position is one black node short. -/
def rbEraseColor (t : RbRoot α) : List (Frame Color α) → RbRoot α
  | [] => t
  | .left pc pa (node .red sl sa sr) :: p =>
    -- case 1: left rotate at the parent, which turns red and stops the loop
    plug (node pc (eraseColorLeft .red t pa (setColor .black sl)).1 sa sr) p
  | .left pc pa s :: p =>
    if (eraseColorLeft pc t pa s).2 then rbEraseColor (eraseColorLeft pc t pa s).1 p
    else plug (eraseColorLeft pc t pa s).1 p
  | .right pc (node .red sl sa sr) pa :: p =>
    plug (node pc sl sa (eraseColorRight .red (setColor .black sr) pa t).1) p
  | .right pc s pa :: p =>
    if (eraseColorRight pc s pa t).2 then rbEraseColor (eraseColorRight pc s pa t).1 p
    else plug (eraseColorRight pc s pa t).1 p

lemma inorder_rbEraseColor (p : List (Frame Color α)) :
    (rbEraseColor t p).inorder = before p ++ t.inorder ++ after p := by
  fun_induction rbEraseColor t p <;>
    simp_all [BinTree.inorder_plug, before, after, inorder_eraseColorLeft, inorder_eraseColorRight]

/-- The walk to the successor of an erased node: the leftmost node under a right child, with its
colour, its element, its right child and the frames above it. -/
def popMin (c : Color) (l : RbRoot α) (a : α) (r : RbRoot α) (p : List (Frame Color α)) :
    Color × α × RbRoot α × List (Frame Color α) :=
  match l with
  | nil => (c, a, r, p)
  | node lc ll la lr => popMin lc ll la lr (.left c a r :: p)

lemma popMin_spec (c : Color) (l : RbRoot α) (a : α) (r : RbRoot α) (p : List (Frame Color α)) :
    before (popMin c l a r p).2.2.2 = before p ∧
      (popMin c l a r p).2.1 :: ((popMin c l a r p).2.2.1.inorder ++
        after (popMin c l a r p).2.2.2) = l.inorder ++ a :: r.inorder ++ after p := by
  induction l generalizing c a r p with
  | nil => simp [popMin]
  | node lc ll la lr ihl ihr =>
    obtain ⟨h1, h2⟩ := ihl lc la lr (.left c a r :: p)
    refine ⟨by rw [popMin, h1, before], ?_⟩
    rw [popMin, h2]
    simp [after]

/-- `rb_set_parent_color(child2, parent, RB_BLACK)` when there is a child, otherwise rebalance
if the node that left this place was black. -/
def fillHole (c : Color) (child : RbRoot α) (childColor : Color) (p : List (Frame Color α)) :
    RbRoot α :=
  match child with
  | nil => if c = .black then rbEraseColor nil p else plug nil p
  | node _ l a r => plug (node childColor l a r) p

lemma inorder_fillHole (c : Color) (child : RbRoot α) (cc : Color) (p : List (Frame Color α)) :
    (fillHole c child cc p).inorder = before p ++ child.inorder ++ after p := by
  unfold fillHole
  cases child with
  | nil => split_ifs <;> simp [inorder_rbEraseColor, BinTree.inorder_plug]
  | node c' l a r => simp [BinTree.inorder_plug]

/-- `rb_erase` of the node at a position: with at most one child the child takes its place, with
two the successor does. -/
def eraseAt (c : Color) (l r : RbRoot α) (p : List (Frame Color α)) : RbRoot α :=
  match l, r with
  | nil, r => fillHole c r c p
  | l, nil => fillHole c l c p
  | l, node rc rl ra rr =>
    match popMin rc rl ra rr [] with
    | (sc, sa, child2, q) => fillHole sc child2 .black (q ++ .right c l sa :: p)

lemma before_append (q p : List (Frame Color α)) : before (q ++ p) = before p ++ before q := by
  induction q with
  | nil => simp [before]
  | cons f q ih => cases f <;> simp [before, ih]

lemma after_append (q p : List (Frame Color α)) : after (q ++ p) = after q ++ after p := by
  induction q with
  | nil => simp [after]
  | cons f q ih => cases f <;> simp [after, ih]

lemma inorder_eraseAt (c : Color) (l r : RbRoot α) (p : List (Frame Color α)) :
    (eraseAt c l r p).inorder = before p ++ (l.inorder ++ r.inorder) ++ after p := by
  fun_cases eraseAt c l r p with
  | case1 => simp [inorder_fillHole]
  | case2 => simp [inorder_fillHole]
  | case3 l rc rl ra rr hl sc sa child2 q hq =>
    obtain ⟨h1, h2⟩ := popMin_spec rc rl ra rr []
    rw [hq] at h1 h2
    simp only [after, List.append_nil] at h2
    rw [inorder_fillHole, before_append, after_append, h1]
    simp only [before, after, BinTree.inorder_node, ← h2]
    simp

/-- `rb_erase`. -/
def rbErase [DecidableEq α] (x : α) (t : RbRoot α) : RbRoot α :=
  match t.locate x [] with
  | some (node c l _ r, p) => eraseAt c l r p
  | _ => t

lemma inorder_rbErase [DecidableEq α] [BEq α] [LawfulBEq α] {x : α} {t : RbRoot α}
    (hn : t.inorder.Nodup) :
    (rbErase x t).inorder = t.inorder.erase x := by
  by_cases hx : x ∈ t.inorder
  · obtain ⟨c, l, r, p, hloc, hio⟩ := BinTree.locate_spec hx
    have hxl : x ∉ before p ++ l.inorder := by
      rw [hio, List.nodup_append] at hn
      intro hmem
      exact hn.2.2 x hmem x (by simp) rfl
    rw [rbErase, hloc, hio, List.erase_append_right _ hxl]
    simp [inorder_eraseAt]
  · rw [rbErase, BinTree.locate_eq_none hx, List.erase_of_not_mem hx]

/-! ## Replacement -/

/-- `rb_replace_node`: `new` takes over the links and the colour of `victim`. -/
def rbReplaceNode [DecidableEq α] (victim new : α) (t : RbRoot α) : RbRoot α :=
  t.map fun a => if a = victim then new else a

lemma inorder_rbReplaceNode [DecidableEq α] (victim new : α) :
    (rbReplaceNode victim new t).inorder = t.inorder.map fun a => if a = victim then new else a :=
  BinTree.inorder_map _ _

end KmsDrm.RbTree
