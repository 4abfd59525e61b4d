import KmsDrm.Lib.AugTree
import KmsDrm.LinuxKpi.RbTree

/-!
# Augmented red-black trees of the Linux compatibility layer

`rb_insert_augmented_cached` and `rb_erase_augmented_cached` with the callbacks that
`RB_DECLARE_CALLBACKS` builds from one function `rbcompute`: each node has, next to its colour,
the field `rbaugmented`, and the root has a pointer to the leftmost node.

## Main results

* `RbTree.mapTag_insertAugmented`, `mapTag_eraseAugmented` — the augmented operations do to
  the tree what the plain ones of `RbTree` do.
* `RbTree.augmented_insertAugmented`, `augmented_eraseAugmented` — they keep all values
  right, provided that the value of a subtree does not change when it is rotated.
-/

namespace KmsDrm.RbTree

open KmsDrm.Lib Prod
open KmsDrm.Lib.BinTree (nil node Frame plug before after cached Augmented AugFrames mapTag)

variable {α β : Type}

/-- A red-black tree whose nodes have a colour and an augmented value. -/
abbrev AugRoot (β α : Type) := BinTree (Color × β) α

/-- `struct rb_root_cached`. -/
structure RbRootCached (β α : Type) where
  /-- `rb_root` -/
  root : AugRoot β α
  /-- `rb_leftmost` -/
  leftmost : Option α

/-- `RB_ROOT_CACHED`. -/
def RbRootCached.empty : RbRootCached β α := ⟨nil, none⟩

/-- Change the colour of the root; the augmented value stays. -/
def paint (c : Color) : AugRoot β α → AugRoot β α
  | nil => nil
  | node (_, v) l a r => node (c, v) l a r

/-- `tmp && rb_is_red(tmp)`. -/
def redRoot : AugRoot β α → Bool
  | node (.red, _) _ _ _ => true
  | _ => false

variable (c : Color) (t : AugRoot β α)

@[simp] lemma mapTag_paint : (paint c t).mapTag fst = setColor c (t.mapTag fst) := by
  cases t <;> rfl

@[simp] lemma cached_paint : (paint c t).cached snd = t.cached snd := by
  cases t <;> rfl

@[simp] lemma redRoot_eq : isRed (t.mapTag fst) = redRoot t := by
  cases t with
  | nil => rfl
  | node c l a r => obtain ⟨c, v⟩ := c; cases c <;> rfl

variable {t} in
lemma eq_nil_or_black (h : ∀ v l a r, t = node (.red, v) l a r → False) :
    t = nil ∨ ∃ v l a r, t = node (.black, v) l a r := by
  match t, h with
  | nil, _ => exact .inl rfl
  | node (.red, v) l a r, h => exact (h v l a r rfl).elim
  | node (.black, v) l a r, _ => exact .inr ⟨v, l, a, r, rfl⟩

variable (compute : Option β → α → Option β → β)

@[simp] lemma augmented_paint :
    Augmented snd compute (paint c t) ↔ Augmented snd compute t := by
  cases t <;> rfl

/-- A node whose value has just been recomputed from its new children, as `rbname_rotate` does
for the node that moves down. -/
def augmentNode (c : Color) (l : AugRoot β α) (a : α) (r : AugRoot β α) : AugRoot β α :=
  node (c, compute (l.cached snd) a (r.cached snd)) l a r

variable (v : β) (l : AugRoot β α) (a : α) (r : AugRoot β α) (p : List (Frame (Color × β) α))

@[simp] lemma mapTag_augmentNode :
    (augmentNode compute c l a r).mapTag fst =
      node c (l.mapTag fst) a (r.mapTag fst) := rfl

@[simp] lemma cached_augmentNode :
    (augmentNode compute c l a r).cached snd =
      some (compute (l.cached snd) a (r.cached snd)) := rfl

@[simp] lemma augmented_augmentNode :
    Augmented snd compute (augmentNode compute c l a r) ↔
      Augmented snd compute l ∧ Augmented snd compute r := by
  simp [augmentNode]

/-! ## Insertion -/

/-- `__rb_insert` with `augment_rotate`: the red node `node (red, v) l a r` stands at the position
given by the frames. In a rotation the node that moves up takes over the value of the one it
replaces, and the one that moves down is recomputed. -/
def insertAugmented (v : β) (l : AugRoot β α) (a : α) (r : AugRoot β α) :
    List (Frame (Color × β) α) → AugRoot β α
  | [] => node (.black, v) l a r
  | .left (.black, pv) pa pr :: p => plug (node (.black, pv) (node (.red, v) l a r) pa pr) p
  | .right (.black, pv) pl pa :: p => plug (node (.black, pv) pl pa (node (.red, v) l a r)) p
  | [.left (.red, pv) pa pr] => node (.red, pv) (node (.red, v) l a r) pa pr
  | [.right (.red, pv) pl pa] => node (.red, pv) pl pa (node (.red, v) l a r)
  | .left (.red, pv) pa pr :: .left (gc, gv) ga u :: p =>
    if redRoot u then
      insertAugmented gv (node (.black, pv) (node (.red, v) l a r) pa pr) ga (paint .black u) p
    else
      plug (node (gc, gv) (node (.red, v) l a r) pa
        (augmentNode compute .red (paint .black pr) ga u)) p
  | .right (.red, pv) pl pa :: .left (gc, gv) ga u :: p =>
    if redRoot u then
      insertAugmented gv (node (.black, pv) pl pa (node (.red, v) l a r)) ga (paint .black u) p
    else
      plug (node (gc, gv) (augmentNode compute .red pl pa (paint .black l)) a
        (augmentNode compute .red (paint .black r) ga u)) p
  | .right (.red, pv) pl pa :: .right (gc, gv) u ga :: p =>
    if redRoot u then
      insertAugmented gv (paint .black u) ga (node (.black, pv) pl pa (node (.red, v) l a r)) p
    else
      plug (node (gc, gv) (augmentNode compute .red u ga (paint .black pl)) pa
        (node (.red, v) l a r)) p
  | .left (.red, pv) pa pr :: .right (gc, gv) u ga :: p =>
    if redRoot u then
      insertAugmented gv (paint .black u) ga (node (.black, pv) (node (.red, v) l a r) pa pr) p
    else
      plug (node (gc, gv) (augmentNode compute .red u ga (paint .black l)) a
        (augmentNode compute .red (paint .black r) pa pr)) p

lemma mapTag_insertAugmented :
    (insertAugmented compute v l a r p).mapTag fst =
      rbInsertColor (l.mapTag fst) a (r.mapTag fst)
        (p.map (Frame.mapTag fst)) := by
  fun_induction insertAugmented compute v l a r p <;>
    simp_all [rbInsertColor]

lemma inorder_insertAugmented :
    (insertAugmented compute v l a r p).inorder =
      before p ++ (l.inorder ++ a :: r.inorder) ++ after p := by
  rw [← BinTree.inorder_mapTag fst, mapTag_insertAugmented, inorder_rbInsertColor]
  simp

/-- The value of a subtree survives a rotation. -/
def Rotatable : Prop :=
  ∀ l a m b r, compute (some (compute l a m)) b r = compute l a (some (compute m b r))

variable {compute} in
/-- **Insertion keeps the values right.** If they are right with the new node linked in, they are
right after rebalancing.

**Proof sketch.** By induction over the way up. The values above a rotation do not change since
the node that moves up shows the value of the one it replaces; that this is its right value is
the rotation law, used twice for a double rotation. -/
lemma augmented_insertAugmented (hrot : Rotatable compute)
    (h : Augmented snd compute (plug (node (.red, v) l a r) p)) :
    Augmented snd compute (insertAugmented compute v l a r p) := by
  fun_induction insertAugmented compute v l a r p <;>
    simp only [plug, BinTree.augmented_plug, BinTree.Augmented, BinTree.cached_node,
      augmented_augmentNode, cached_augmentNode, augmented_paint, cached_paint] at * <;>
    grind [Rotatable]

/-! ## Erasure -/

/-- `rbname_propagate` from the parent of a position upwards, where the subtree at the position
shows `v`: recompute node after node, and stop at the first one whose value does not change. -/
def propagate [DecidableEq β] (v : Option β) :
    List (Frame (Color × β) α) → List (Frame (Color × β) α)
  | [] => []
  | .left (c, w) a r :: p =>
    if w = compute v a (r.cached snd) then .left (c, w) a r :: p
    else .left (c, compute v a (r.cached snd)) a r ::
      propagate (some (compute v a (r.cached snd))) p
  | .right (c, w) l a :: p =>
    if w = compute (l.cached snd) a v then .right (c, w) l a :: p
    else .right (c, compute (l.cached snd) a v) l a ::
      propagate (some (compute (l.cached snd) a v)) p

@[simp] lemma mapTag_propagate [DecidableEq β] (v : Option β) (p : List (Frame (Color × β) α)) :
    (propagate compute v p).map (Frame.mapTag fst) = p.map (Frame.mapTag fst) := by
  fun_induction propagate compute v p <;> simp_all

/-- All that `rbname_propagate` needs: the values above its first node are right for what that
node shows now. -/
def RightAbove : List (Frame (Color × β) α) → Prop
  | [] => True
  | .left c _ r :: p => Augmented snd compute r ∧ AugFrames snd compute (some c.2) p
  | .right c l _ :: p => Augmented snd compute l ∧ AugFrames snd compute (some c.2) p

lemma rightAbove_of_augFrames {v : Option β} {p : List (Frame (Color × β) α)}
    (h : AugFrames snd compute v p) : RightAbove compute p := by
  match p, h with
  | [], _ => trivial
  | .left _ _ _ :: _, h => exact h.2
  | .right _ _ _ :: _, h => exact h.2

lemma augFrames_propagate [DecidableEq β] (v : Option β) (p : List (Frame (Color × β) α))
    (h : RightAbove compute p) :
    AugFrames snd compute v (propagate compute v p) := by
  fun_induction propagate compute v p with
  | case1 => trivial
  | case2 v c a r p => exact ⟨rfl, h⟩
  | case3 v c w a r p hne ih | case5 v c w l a p hne ih =>
    exact ⟨rfl, h.1, ih (rightAbove_of_augFrames compute h.2)⟩
  | case4 v c l a p => exact ⟨rfl, h⟩

/-- `eraseColorLeft` with `augment_rotate`; the parent has the colour and the value `c`. -/
def eraseLeftAugmented (c : Color × β) (t : AugRoot β α) (pa : α) (s : AugRoot β α) :
    AugRoot β α × Bool :=
  match s with
  | nil => (node c t pa nil, false)
  | node (_, sv) sl sa sr =>
    if redRoot sr then
      (node c (augmentNode compute .black t pa sl) sa (paint .black sr), false)
    else
      match sl with
      | node (.red, _) sll sla slr =>
        (node c (augmentNode compute .black t pa sll) sla
          (augmentNode compute .black (paint .black slr) sa sr), false)
      | sl => (node (.black, c.2) t pa (node (.red, sv) sl sa sr), c.1 = .black)

/-- The mirror image of `eraseLeftAugmented`. -/
def eraseRightAugmented (c : Color × β) (s : AugRoot β α) (pa : α) (t : AugRoot β α) :
    AugRoot β α × Bool :=
  match s with
  | nil => (node c nil pa t, false)
  | node (_, sv) sl sa sr =>
    if redRoot sl then
      (node c (paint .black sl) sa (augmentNode compute .black sr pa t), false)
    else
      match sr with
      | node (.red, _) srl sra srr =>
        (node c (augmentNode compute .black sl sa (paint .black srl)) sra
          (augmentNode compute .black srr pa t), false)
      | sr => (node (.black, c.2) (node (.red, sv) sl sa sr) pa t, c.1 = .black)

/-- `____rb_erase_color` with `augment_rotate`. -/
def eraseColorAugmented (t : AugRoot β α) : List (Frame (Color × β) α) → AugRoot β α
  | [] => t
  | .left c pa (node (.red, _) sl sa sr) :: p =>
    plug (node c (eraseLeftAugmented compute
      (.red, compute (t.cached snd) pa (sl.cached snd)) t pa (paint .black sl)).1
      sa sr) p
  | .left c pa s :: p =>
    if (eraseLeftAugmented compute c t pa s).2 then
      eraseColorAugmented (eraseLeftAugmented compute c t pa s).1 p
    else plug (eraseLeftAugmented compute c t pa s).1 p
  | .right c (node (.red, _) sl sa sr) pa :: p =>
    plug (node c sl sa (eraseRightAugmented compute
      (.red, compute (sr.cached snd) pa (t.cached snd)) (paint .black sr) pa t).1) p
  | .right c s pa :: p =>
    if (eraseRightAugmented compute c s pa t).2 then
      eraseColorAugmented (eraseRightAugmented compute c s pa t).1 p
    else plug (eraseRightAugmented compute c s pa t).1 p

section EraseColor

variable (c : Color × β) (t : AugRoot β α) (pa : α) (s : AugRoot β α)
  (p : List (Frame (Color × β) α))

lemma mapTag_eraseLeftAugmented :
    (eraseLeftAugmented compute c t pa s).1.mapTag fst =
        (eraseColorLeft c.1 (t.mapTag fst) pa (s.mapTag fst)).1 ∧
      (eraseLeftAugmented compute c t pa s).2 =
        (eraseColorLeft c.1 (t.mapTag fst) pa (s.mapTag fst)).2 := by
  fun_cases eraseLeftAugmented compute c t pa s with
  | case1 => simp [eraseColorLeft]
  | case2 => simp_all [eraseColorLeft]
  | case3 => simp_all [eraseColorLeft]
  | case4 cc sv sa sr hsr sl hsl =>
    obtain rfl | ⟨v, l, a, r, rfl⟩ := eq_nil_or_black hsl <;> simp_all [eraseColorLeft]

lemma mapTag_eraseRightAugmented :
    (eraseRightAugmented compute c s pa t).1.mapTag fst =
        (eraseColorRight c.1 (s.mapTag fst) pa (t.mapTag fst)).1 ∧
      (eraseRightAugmented compute c s pa t).2 =
        (eraseColorRight c.1 (s.mapTag fst) pa (t.mapTag fst)).2 := by
  fun_cases eraseRightAugmented compute c s pa t with
  | case1 => simp [eraseColorRight]
  | case2 => simp_all [eraseColorRight]
  | case3 => simp_all [eraseColorRight]
  | case4 cc sv sl sa hsl sr hsr =>
    obtain rfl | ⟨v, l, a, r, rfl⟩ := eq_nil_or_black hsr <;> simp_all [eraseColorRight]

lemma mapTag_eraseColorAugmented :
    (eraseColorAugmented compute t p).mapTag fst =
      rbEraseColor (t.mapTag fst) (p.map (Frame.mapTag fst)) := by
  fun_induction eraseColorAugmented compute t p with
  | case1 => rfl
  | case2 t c pa _ sl sa sr p =>
    simp [rbEraseColor, mapTag_eraseLeftAugmented]
  | case3 t c pa s p hs hgo ih | case4 t c pa s p hs hgo =>
    obtain ⟨h1, h2⟩ := mapTag_eraseLeftAugmented compute c t pa s
    obtain rfl | ⟨v, l, a, r, rfl⟩ := eq_nil_or_black hs <;> simp_all [rbEraseColor]
  | case5 t c _ sl sa sr pa p =>
    simp [rbEraseColor, mapTag_eraseRightAugmented]
  | case6 t c s pa p hs hgo ih | case7 t c s pa p hs hgo =>
    obtain ⟨h1, h2⟩ := mapTag_eraseRightAugmented compute c t pa s
    obtain rfl | ⟨v, l, a, r, rfl⟩ := eq_nil_or_black hs <;> simp_all [rbEraseColor]

variable {compute} (hrot : Rotatable compute)
include hrot

lemma augmented_eraseLeftAugmented (h : Augmented snd compute (node c t pa s)) :
    Augmented snd compute (eraseLeftAugmented compute c t pa s).1 ∧
      (eraseLeftAugmented compute c t pa s).1.cached snd = some c.2 := by
  fun_cases eraseLeftAugmented compute c t pa s <;>
    simp only [BinTree.Augmented, BinTree.cached_node, augmented_augmentNode,
      cached_augmentNode, augmented_paint, cached_paint] at * <;>
    grind [Rotatable]

lemma augmented_eraseRightAugmented (h : Augmented snd compute (node c s pa t)) :
    Augmented snd compute (eraseRightAugmented compute c s pa t).1 ∧
      (eraseRightAugmented compute c s pa t).1.cached snd = some c.2 := by
  fun_cases eraseRightAugmented compute c s pa t <;>
    simp only [BinTree.Augmented, BinTree.cached_node, augmented_augmentNode,
      cached_augmentNode, augmented_paint, cached_paint] at * <;>
    grind [Rotatable]

lemma augmented_eraseColorAugmented (h : Augmented snd compute (plug t p)) :
    Augmented snd compute (eraseColorAugmented compute t p) := by
  fun_induction eraseColorAugmented compute t p with
  | case1 => exact h
  | case2 t c pa _ sl sa sr p =>
    have hl := augmented_eraseLeftAugmented
      (.red, compute (t.cached snd) pa (sl.cached snd)) t pa (paint .black sl) hrot
    simp only [plug, BinTree.augmented_plug, BinTree.Augmented, BinTree.cached_node,
      augmented_paint, cached_paint] at *
    grind [Rotatable]
  | case3 t c pa s p hs hgo ih =>
    have hl := augmented_eraseLeftAugmented c t pa s hrot
    simp only [plug, BinTree.augmented_plug] at *
    exact ih ⟨(hl h.1).1, (hl h.1).2 ▸ h.2⟩
  | case4 t c pa s p hs hgo =>
    have hl := augmented_eraseLeftAugmented c t pa s hrot
    simp only [plug, BinTree.augmented_plug] at *
    exact ⟨(hl h.1).1, (hl h.1).2 ▸ h.2⟩
  | case5 t c _ sl sa sr pa p =>
    have hr := augmented_eraseRightAugmented
      (.red, compute (sr.cached snd) pa (t.cached snd)) t pa (paint .black sr) hrot
    simp only [plug, BinTree.augmented_plug, BinTree.Augmented, BinTree.cached_node,
      augmented_paint, cached_paint] at *
    grind [Rotatable]
  | case6 t c s pa p hs hgo ih =>
    have hr := augmented_eraseRightAugmented c t pa s hrot
    simp only [plug, BinTree.augmented_plug] at *
    exact ih ⟨(hr h.1).1, (hr h.1).2 ▸ h.2⟩
  | case7 t c s pa p hs hgo =>
    have hr := augmented_eraseRightAugmented c t pa s hrot
    simp only [plug, BinTree.augmented_plug] at *
    exact ⟨(hr h.1).1, (hr h.1).2 ▸ h.2⟩

end EraseColor

/-- The walk to the successor of an erased node, as `popMin`. -/
def popMinAugmented (c : Color × β) (l : AugRoot β α) (a : α) (r : AugRoot β α)
    (p : List (Frame (Color × β) α)) :
    Color × α × AugRoot β α × List (Frame (Color × β) α) :=
  match l with
  | nil => (c.1, a, r, p)
  | node lc ll la lr => popMinAugmented lc ll la lr (.left c a r :: p)

lemma mapTag_popMinAugmented (c : Color × β) :
    popMin c.1 (l.mapTag fst) a (r.mapTag fst) (p.map (Frame.mapTag fst)) =
      ((popMinAugmented c l a r p).1, (popMinAugmented c l a r p).2.1,
        (popMinAugmented c l a r p).2.2.1.mapTag fst,
        (popMinAugmented c l a r p).2.2.2.map (Frame.mapTag fst)) := by
  fun_induction popMinAugmented c l a r p with
  | case1 => rfl
  | case2 c a r p lc ll la lr ih => rw [← ih]; rfl

lemma augmented_popMinAugmented {c : Color × β}
    (h : Augmented snd compute (node c l a r)) (hp : AugFrames snd compute (some c.2) p) :
    Augmented snd compute (popMinAugmented c l a r p).2.2.1 ∧
      ∃ v, AugFrames snd compute v (popMinAugmented c l a r p).2.2.2 := by
  fun_induction popMinAugmented c l a r p with
  | case1 c a r p => exact ⟨h.2.2, _, hp⟩
  | case2 c a r p lc ll la lr ih => exact ih h.2.1 ⟨h.1, h.2.2, hp⟩

/-- `fillHole` in an augmented tree. -/
def fillHoleAugmented (c : Color) (child : AugRoot β α) (childColor : Color)
    (p : List (Frame (Color × β) α)) : AugRoot β α :=
  match child with
  | nil => if c = .black then eraseColorAugmented compute nil p else plug nil p
  | node (_, v) l a r => plug (node (childColor, v) l a r) p

lemma mapTag_fillHoleAugmented (child : AugRoot β α) (cc : Color) :
    (fillHoleAugmented compute c child cc p).mapTag fst =
      fillHole c (child.mapTag fst) cc (p.map (Frame.mapTag fst)) := by
  cases child with
  | nil =>
    simp only [fillHoleAugmented, fillHole]
    split_ifs <;> simp [mapTag_eraseColorAugmented]
  | node d l a r => simp [fillHoleAugmented, fillHole]

variable {compute p} in
lemma augmented_fillHoleAugmented (hrot : Rotatable compute) {child : AugRoot β α} (cc : Color)
    (h : Augmented snd compute child)
    (hp : AugFrames snd compute (child.cached snd) p) :
    Augmented snd compute (fillHoleAugmented compute c child cc p) := by
  cases child with
  | nil =>
    have hplug : Augmented snd compute (plug nil p) := by simpa using hp
    unfold fillHoleAugmented
    split_ifs
    · exact augmented_eraseColorAugmented nil p hrot hplug
    · exact hplug
  | node d l a r => exact (BinTree.augmented_plug ..).2 ⟨h, hp⟩

/-- `__rb_erase_augmented` and the rebalancing, for the node of colour and value `c` at a
position. The successor takes over the value of the node it replaces (`augment->copy`); the
values are then recomputed below it, and from it upwards. -/
def eraseAtAugmented [DecidableEq β] (c : Color × β) (l r : AugRoot β α)
    (p : List (Frame (Color × β) α)) : AugRoot β α :=
  match l, r with
  | nil, r => fillHoleAugmented compute c.1 r c.1 (propagate compute (r.cached snd) p)
  | l, nil => fillHoleAugmented compute c.1 l c.1 (propagate compute (l.cached snd) p)
  | l, node rc rl ra rr =>
    match popMinAugmented rc rl ra rr [] with
    | (sc, sa, child2, q) =>
      fillHoleAugmented compute sc child2 .black
        (propagate compute (child2.cached snd) q ++
          propagate compute
            ((plug child2 (propagate compute (child2.cached snd) q)).cached snd)
            (.right c l sa :: p))

lemma mapTag_eraseAtAugmented [DecidableEq β] (c : Color × β) (l r : AugRoot β α)
    (p : List (Frame (Color × β) α)) :
    (eraseAtAugmented compute c l r p).mapTag fst =
      eraseAt c.1 (l.mapTag fst) (r.mapTag fst) (p.map (Frame.mapTag fst)) := by
  fun_cases eraseAtAugmented compute c l r p with
  | case1 => simp [mapTag_fillHoleAugmented, eraseAt]
  | case2 l hl =>
    cases l with
    | nil => exact (hl rfl).elim
    | node d ll la lr => simp [mapTag_fillHoleAugmented, eraseAt]
  | case3 l rc rl ra rr hl sc sa child2 q hq =>
    have hpop := mapTag_popMinAugmented rl ra rr [] rc
    rw [hq] at hpop
    cases l with
    | nil => exact (hl rfl).elim
    | node d ll la lr =>
      simp only [List.map_nil] at hpop
      simp [mapTag_fillHoleAugmented, eraseAt, hpop]

lemma augmented_eraseAtAugmented [DecidableEq β] (hrot : Rotatable compute) (c : Color × β)
    (l : AugRoot β α) (x : α) (r : AugRoot β α) (p : List (Frame (Color × β) α))
    (h : Augmented snd compute (plug (node c l x r) p)) :
    Augmented snd compute (eraseAtAugmented compute c l r p) := by
  obtain ⟨⟨-, hl, hr⟩, hp⟩ := (BinTree.augmented_plug ..).1 h
  have hpp := fun w => augFrames_propagate compute w p (rightAbove_of_augFrames compute hp)
  fun_cases eraseAtAugmented compute c l r p with
  | case1 => exact augmented_fillHoleAugmented _ hrot _ hr (hpp _)
  | case2 => exact augmented_fillHoleAugmented _ hrot _ hl (hpp _)
  | case3 l rc rl ra rr hl' sc sa child2 q hq =>
    obtain ⟨hc2, v, hv⟩ := augmented_popMinAugmented compute rl ra rr [] hr trivial
    rw [hq] at hc2 hv
    have hq' := augFrames_propagate compute (child2.cached snd) q
      (rightAbove_of_augFrames compute hv)
    refine augmented_fillHoleAugmented _ hrot _ hc2 ?_
    refine (BinTree.augFrames_append ..).2 ⟨hq', augFrames_propagate compute _ _ ⟨hl, hp⟩⟩

/-- `rb_erase_augmented`. -/
def eraseAugmented [DecidableEq α] [DecidableEq β] (x : α) (t : AugRoot β α) : AugRoot β α :=
  match t.locate x [] with
  | some (node c l _ r, p) => eraseAtAugmented compute c l r p
  | _ => t

lemma mapTag_eraseAugmented [DecidableEq α] [DecidableEq β] (x : α) (t : AugRoot β α) :
    (eraseAugmented compute x t).mapTag fst = rbErase x (t.mapTag fst) := by
  have hloc := BinTree.locate_mapTag fst t [] x
  rw [List.map_nil] at hloc
  unfold rbErase eraseAugmented
  rw [hloc]
  match h : t.locate x [] with
  | none => rfl
  | some (nil, p) => rfl
  | some (node c l a r, p) => exact mapTag_eraseAtAugmented compute c l r p

lemma inorder_eraseAugmented [DecidableEq α] [DecidableEq β] {x : α} {t : AugRoot β α}
    (hn : t.inorder.Nodup) : (eraseAugmented compute x t).inorder = t.inorder.erase x := by
  rw [← BinTree.inorder_mapTag fst, mapTag_eraseAugmented, inorder_rbErase] <;> simp [hn]

/-- **Erasure keeps the values right.** -/
theorem augmented_eraseAugmented [DecidableEq α] [DecidableEq β] (hrot : Rotatable compute)
    (x : α) (t : AugRoot β α) (h : Augmented snd compute t) :
    Augmented snd compute (eraseAugmented compute x t) := by
  unfold eraseAugmented
  match hloc : t.locate x [] with
  | none => exact h
  | some (nil, p) => exact h
  | some (node c l a r, p) =>
    have hplug : plug (node c l a r) p = t := (BinTree.locate_some hloc).1
    exact augmented_eraseAtAugmented compute hrot c l a r p (hplug ▸ h)

/-! ## The cached leftmost node -/

/-- `rb_insert_augmented_cached` of a node linked with value `v` at the end of the frames. -/
def RbRootCached.insert (t : RbRootCached β α) (v : β) (x : α) (newleft : Bool)
    (p : List (Frame (Color × β) α)) : RbRootCached β α where
  root := insertAugmented compute v nil x nil p
  leftmost := if newleft then some x else t.leftmost

/-- `rb_erase_augmented_cached`. -/
def RbRootCached.erase [DecidableEq α] [DecidableEq β] (t : RbRootCached β α) (x : α) :
    RbRootCached β α where
  root := eraseAugmented compute x t.root
  leftmost := if t.leftmost = some x then t.root.next x else t.leftmost

end KmsDrm.RbTree
