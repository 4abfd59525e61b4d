import KmsDrm.LinuxKpi.RbTreeAugmented

/-!
# Interval trees of the Linux compatibility layer

The functions that the macro `INTERVAL_TREE_DEFINE` of `interval_tree_generic.h` defines, for
nodes `α` with end points `itStart` and `itLast`. The tree is ordered by the start points; each
node caches the largest last point of its subtree, and the root caches the leftmost node.

## Main results

* `IntervalTree.Valid.insert`, `Valid.remove` — the updates keep the tree valid, and add or
  remove exactly their node.
* `IntervalTree.Valid.iterFirst_eq`, `Valid.iterNext_eq` — in a valid tree the iteration
  goes from one interval that meets the range to the next one in order.
* `IntervalTree.iteration_visits` — the iteration after any calls.

## Implementation notes

End points are only compared with each other, so a natural number stands for a value of
`ITTYPE`. The elements of the tree are pointers; `itStart` and `itLast` read the memory behind
them, and `Valid.congr` says that a write to a node outside of the tree does not matter.
-/

namespace KmsDrm.IntervalTree

open KmsDrm.Lib Prod
open KmsDrm.Lib.BinTree (nil node Frame plug before after cached Augmented AugFrames mapTag)
open KmsDrm.RbTree (Color AugRoot RbRootCached Rotatable)

variable {α : Type}

/-- An interval tree: every node has its colour and `ITSUBTREE`. -/
abbrev Root (α : Type) := RbRootCached ℕ α

section

variable (itStart itLast : α → ℕ)

/-- `ITPREFIX_compute_subtree_last`. -/
def computeSubtreeLast (l : Option ℕ) (a : α) (r : Option ℕ) : ℕ :=
  let max := match l with
    | some s => if itLast a < s then s else itLast a
    | none => itLast a
  match r with
  | some s => if max < s then s else max
  | none => max

lemma computeSubtreeLast_eq (l : Option ℕ) (a : α) (r : Option ℕ) :
    computeSubtreeLast itLast l a r = max (itLast a) (max (l.getD 0) (r.getD 0)) := by
  cases l <;> cases r <;>
    simp only [computeSubtreeLast] <;> grind

lemma rotatable_computeSubtreeLast : Rotatable (computeSubtreeLast itLast) := by
  intro l a m b r
  simp only [computeSubtreeLast_eq]
  grind

/-! ## Insertion and removal -/

/-- The descent of `ITPREFIX_insert`: every node passed gets the new last point if that is
larger; the flag stays set while the descent only goes to the left. -/
def insertPath (start last : ℕ) :
    AugRoot ℕ α → List (Frame (Color × ℕ) α) → Bool → List (Frame (Color × ℕ) α) × Bool
  | nil, p, leftmost => (p, leftmost)
  | node (c, s) l a r, p, leftmost =>
    let s' := if s < last then last else s
    if start < itStart a then insertPath start last l (.left (c, s') a r :: p) leftmost
    else insertPath start last r (.right (c, s') l a :: p) false

/-- `ITPREFIX_insert`. -/
def insert (x : α) (t : Root α) : Root α :=
  let path := insertPath itStart (itStart x) (itLast x) t.root [] true
  t.insert (computeSubtreeLast itLast) (itLast x) x path.2 path.1

/-- `ITPREFIX_remove`. -/
def remove [DecidableEq α] (x : α) (t : Root α) : Root α := t.erase (computeSubtreeLast itLast) x

/-! ## Iteration -/

/-- `start <= right->ITSUBTREE` for a subtree that may be missing. -/
def reaches (start : ℕ) (t : AugRoot ℕ α) : Bool :=
  match t.cached snd with
  | some s => start ≤ s
  | none => false

/-- `ITPREFIX_subtree_search`. -/
def subtreeSearch (start last : ℕ) : AugRoot ℕ α → Option α
  | nil => none
  | node _ l a r =>
    if reaches start l then subtreeSearch start last l
    else if itStart a ≤ last then
      if start ≤ itLast a then some a
      else if reaches start r then subtreeSearch start last r
      else none
    else none

/-- `ITPREFIX_iter_first`. The source takes it for granted that a tree with a root has a
leftmost node; nothing is found where it would follow a `NULL` pointer. -/
def iterFirst (t : Root α) (start last : ℕ) : Option α :=
  match t.root, t.leftmost with
  | node c l a r, some leftmost =>
    if c.2 < start then none
    else if last < itStart leftmost then none
    else subtreeSearch itStart itLast start last (node c l a r)
  | _, _ => none

/-- The way up of `ITPREFIX_iter_next`, from a node whose right subtree is done. -/
def iterUp (start last : ℕ) : List (Frame (Color × ℕ) α) → Option α
  | [] => none
  | .right _ _ _ :: p => iterUp start last p
  | .left _ a r :: p =>
    if last < itStart a then none
    else if start ≤ itLast a then some a
    else if reaches start r then subtreeSearch itStart itLast start last r
    else iterUp start last p

/-- `ITPREFIX_iter_next`. -/
def iterNext [DecidableEq α] (t : Root α) (x : α) (start last : ℕ) : Option α :=
  match t.root.locate x [] with
  | some (node _ _ _ r, p) =>
    if reaches start r then subtreeSearch itStart itLast start last r
    else iterUp itStart itLast start last p
  | _ => none

/-! ## Valid trees -/

/-- The intervals of a node and of a query meet (`Cond1` and `Cond2`). -/
def meets (start last : ℕ) (a : α) : Bool := itStart a ≤ last && start ≤ itLast a

/-- The nodes of a tree, from left to right. -/
abbrev elements (t : Root α) : List α := t.root.inorder

/-- A tree in the state that the insertions and removals are meant to keep. -/
structure Valid (t : Root α) : Prop where
  /-- The nodes stand in the order of their start points. -/
  ordered : (elements t).Pairwise fun a b => itStart a ≤ itStart b
  /-- No node is linked twice. -/
  nodup : (elements t).Nodup
  /-- Every `ITSUBTREE` is right. -/
  augmented : Augmented snd (computeSubtreeLast itLast) t.root
  /-- `rb_leftmost` is the first node. -/
  leftmost : t.leftmost = (elements t).head?

lemma valid_empty : Valid itStart itLast (RbRootCached.empty : Root α) := by
  constructor <;> simp [RbRootCached.empty, elements]

variable {itStart itLast} in
lemma Valid.congr {t : Root α} (h : Valid itStart itLast t) {itStart' itLast' : α → ℕ}
    (hs : ∀ a ∈ elements t, itStart' a = itStart a) (hl : ∀ a ∈ elements t, itLast' a = itLast a) :
    Valid itStart' itLast' t where
  ordered := by
    refine h.ordered.imp_of_mem fun {a b} ha hb hab => ?_
    rwa [hs a ha, hs b hb]
  nodup := h.nodup
  augmented := by
    refine h.augmented.congr fun a ha l r => ?_
    rw [computeSubtreeLast_eq, computeSubtreeLast_eq, hl a ha]
  leftmost := h.leftmost

/-! ## What the updates do -/

lemma mapTag_insertPath (start last : ℕ) (t : AugRoot ℕ α) (p : List (Frame (Color × ℕ) α))
    (lm : Bool) :
    (insertPath itStart start last t p lm).1.map (Frame.mapTag fst) =
      (t.mapTag fst).attachPath (fun a => decide (start < itStart a))
        (p.map (Frame.mapTag fst)) := by
  induction t generalizing p lm with
  | nil => rfl
  | node c l a r ihl ihr =>
    by_cases h : start < itStart a
    · simp [insertPath, BinTree.attachPath, h, ihl]
    · simp [insertPath, BinTree.attachPath, h, ihr]

variable {itStart itLast}
variable {t : Root α} {x : α} {xs ys : List α} {last start : ℕ}

lemma insertPath_flag (start last : ℕ) {t : AugRoot ℕ α}
    (h : t.inorder.Pairwise fun a b => itStart a ≤ itStart b) (p : List (Frame (Color × ℕ) α))
    (lm : Bool) :
    (insertPath itStart start last t p lm).2 =
      (lm && t.inorder.all fun a => decide (start < itStart a)) := by
  induction t generalizing p lm with
  | nil => simp [insertPath]
  | node c l a r ihl ihr =>
    rw [BinTree.inorder_node, List.pairwise_append, List.pairwise_cons] at h
    obtain ⟨hl, ⟨har, hr⟩, -⟩ := h
    by_cases hlt : start < itStart a
    · have hall : r.inorder.all (fun b => decide (start < itStart b)) = true := by
        rw [List.all_eq_true]
        intro b hb
        exact decide_eq_true (hlt.trans_le (har b hb))
      simp [insertPath, hlt, ihl hl, hall]
    · simp [insertPath, hlt, ihr hr]

lemma augFrames_insertPath (start last : ℕ) {t : AugRoot ℕ α}
    (h : Augmented snd (computeSubtreeLast itLast) t) (p : List (Frame (Color × ℕ) α))
    (lm : Bool) (hp : AugFrames snd (computeSubtreeLast itLast)
      (some (max last ((t.cached snd).getD 0))) p) :
    AugFrames snd (computeSubtreeLast itLast) (some last)
      (insertPath itStart start last t p lm).1 := by
  induction t generalizing p lm with
  | nil => simpa [insertPath] using hp
  | node c l a r ihl ihr =>
    obtain ⟨c, s⟩ := c
    obtain ⟨hs, hl, hr⟩ := h
    have hmax : (if s < last then last else s) = max last s := by grind
    simp only [computeSubtreeLast_eq] at hs
    simp only [insertPath, hmax]
    split_ifs
    · refine ihl hl _ _ ⟨?_, hr, hp⟩
      simp only [computeSubtreeLast_eq]
      grind
    · refine ihr hr _ _ ⟨?_, hl, hp⟩
      simp only [computeSubtreeLast_eq]
      grind

section

variable (h : Valid itStart itLast t)

include h

/-- **Insertion.** The new node goes behind all nodes that do not start after it. -/
theorem Valid.elements_insert (x : α) :
    ∃ xs ys, elements t = xs ++ ys ∧ elements (insert itStart itLast x t) = xs ++ x :: ys ∧
      (∀ a ∈ xs, itStart a ≤ itStart x) ∧ ∀ a ∈ ys, itStart x < itStart a := by
  set path := (insertPath itStart (itStart x) (itLast x) t.root [] true).1 with hpath
  have hmap := mapTag_insertPath itStart (itStart x) (itLast x) t.root [] true
  have hpair : (t.root.mapTag fst).inorder.Pairwise fun a b =>
      decide (itStart x < itStart a) = true → decide (itStart x < itStart b) = true := by
    rw [BinTree.inorder_mapTag]
    refine h.ordered.imp fun {a b} hab ha => ?_
    rw [decide_eq_true_eq] at ha ⊢
    exact ha.trans_le hab
  have hbefore : before path = t.root.inorder.filter fun a => !decide (itStart x < itStart a) := by
    rw [← BinTree.before_mapTag fst, hmap, (BinTree.attachPath_spec _ _ hpair).1]
    simp [before]
  have hafter : after path = t.root.inorder.filter fun a => decide (itStart x < itStart a) := by
    rw [← BinTree.after_mapTag fst, hmap, (BinTree.attachPath_spec _ _ hpair).2]
    simp [after]
  refine ⟨before path, after path, ?_, ?_, ?_, ?_⟩
  · have hplug := congrArg BinTree.inorder
      (BinTree.plug_attachPath (fun a => decide (itStart x < itStart a)) (t.root.mapTag fst) [])
    rw [BinTree.inorder_plug, ← List.map_nil, ← hmap] at hplug
    simpa [plug] using hplug.symm
  · simp [elements, insert, RbRootCached.insert, RbTree.inorder_insertAugmented, hpath]
  · intro a ha
    rw [hbefore, List.mem_filter] at ha
    simpa using ha.2
  · intro a ha
    rw [hafter, List.mem_filter] at ha
    simpa using ha.2

lemma Valid.mem_insert (x a : α) :
    a ∈ elements (insert itStart itLast x t) ↔ a = x ∨ a ∈ elements t := by
  obtain ⟨xs, ys, hxy, hins, -, -⟩ := h.elements_insert x
  rw [hins, hxy]
  simp only [List.mem_append, List.mem_cons]
  tauto

/-- **Insertion keeps the tree valid.** -/
theorem Valid.insert (hx : x ∉ elements t) : Valid itStart itLast (insert itStart itLast x t) := by
  obtain ⟨xs, ys, hxy, hins, hxs, hys⟩ := h.elements_insert x
  have hord := h.ordered
  have hnd := h.nodup
  rw [hxy, List.pairwise_append] at hord
  rw [hxy] at hnd hx
  constructor
  · rw [hins, List.pairwise_append, List.pairwise_cons]
    refine ⟨hord.1, ⟨fun a ha => (hys a ha).le, hord.2.1⟩, fun a ha b hb => ?_⟩
    rcases List.mem_cons.1 hb with rfl | hb
    · exact hxs a ha
    · exact hord.2.2 a ha b hb
  · rw [hins]
    exact List.nodup_middle.2 (List.nodup_cons.2 ⟨hx, hnd⟩)
  · apply RbTree.augmented_insertAugmented _ _ _ _ _ (rotatable_computeSubtreeLast itLast)
    rw [BinTree.augmented_plug]
    refine ⟨⟨by simp [computeSubtreeLast], trivial, trivial⟩, ?_⟩
    exact augFrames_insertPath (itStart x) (itLast x) h.augmented [] true trivial
  · have hflag := insertPath_flag (itStart x) (itLast x) h.ordered [] true
    rw [hins]
    change (if _ then some x else t.leftmost) = _
    rw [hflag, h.leftmost, ← elements, hxy]
    cases xs with
    | nil =>
      have hall : ys.all (fun a => decide (itStart x < itStart a)) = true := by simpa using hys
      rw [List.nil_append, hall]
      rfl
    | cons a xs =>
      have ha : ¬ itStart x < itStart a := not_lt.2 (hxs a (by simp))
      simp [ha]

lemma Valid.elements_remove [DecidableEq α] (x : α) :
    elements (remove itLast x t) = (elements t).erase x :=
  RbTree.inorder_eraseAugmented _ h.nodup

lemma Valid.mem_remove [DecidableEq α] (x a : α) :
    a ∈ elements (remove itLast x t) ↔ a ≠ x ∧ a ∈ elements t := by
  rw [h.elements_remove, h.nodup.mem_erase_iff]

/-- **Removal keeps the tree valid.** -/
theorem Valid.remove [DecidableEq α] (x : α) : Valid itStart itLast (remove itLast x t) := by
  have herase := h.elements_remove x
  constructor
  · rw [herase]
    exact h.ordered.sublist List.erase_sublist
  · rw [herase]
    exact h.nodup.erase x
  · exact RbTree.augmented_eraseAugmented _ (rotatable_computeSubtreeLast itLast) x _ h.augmented
  · rw [herase]
    change (if t.leftmost = some x then t.root.next x else t.leftmost) = _
    rw [h.leftmost]
    match hel : t.root.inorder with
    | [] => simp [hel]
    | a :: ys =>
      by_cases hax : a = x
      · subst hax
        have hnext : t.root.next a = ys.head? := BinTree.next_eq h.nodup
          (hel.trans (List.nil_append _).symm)
        simp [hel, hnext]
      · simp [hel, hax]

end

/-! ## What the iteration finds -/

lemma cached_eq_some {t : AugRoot ℕ α} (h : Augmented snd (computeSubtreeLast itLast) t)
    {s : ℕ} (hs : t.cached snd = some s) :
    (∃ a ∈ t.inorder, itLast a = s) ∧ ∀ a ∈ t.inorder, itLast a ≤ s := by
  induction t generalizing s with
  | nil => simp at hs
  | node c l a r ihl ihr =>
    obtain ⟨hc, hl, hr⟩ := h
    rw [BinTree.cached_node] at hs
    rw [computeSubtreeLast_eq] at hc
    have hsub : ∀ u : AugRoot ℕ α, (u.cached snd = none ∧ u.inorder = []) ∨
        ∃ v, u.cached snd = some v := by
      intro u
      cases u <;> simp
    simp only [BinTree.inorder_node]
    rcases hsub l with ⟨hlc, hli⟩ | ⟨v, hlc⟩ <;> rcases hsub r with ⟨hrc, hri⟩ | ⟨w, hrc⟩ <;>
      simp only [hlc] at hc <;> grind

lemma reaches_iff {t : AugRoot ℕ α} (h : Augmented snd (computeSubtreeLast itLast) t) :
    reaches start t = true ↔ ∃ a ∈ t.inorder, start ≤ itLast a := by
  unfold reaches
  cases hc : t.cached snd with
  | none =>
    cases t with
    | nil => simp
    | node c l a r => simp at hc
  | some s =>
    obtain ⟨⟨b, hb, hbs⟩, hle⟩ := cached_eq_some h hc
    simp only [decide_eq_true_eq]
    constructor
    · intro hs
      exact ⟨b, hb, hbs ▸ hs⟩
    · rintro ⟨a, ha, has⟩
      exact has.trans (hle a ha)

/-- If an interval of an ordered sequence reaches the query from the left and no interval of the
sequence meets it, the intervals that follow do not meet it either. -/
lemma find?_append_of_reaches (hord : (xs ++ ys).Pairwise fun a b => itStart a ≤ itStart b)
    (hr : ∃ a ∈ xs, start ≤ itLast a) :
    (xs ++ ys).find? (meets itStart itLast start last) =
      xs.find? (meets itStart itLast start last) := by
  rw [List.find?_append]
  cases hf : xs.find? (meets itStart itLast start last) with
  | some a => rfl
  | none =>
    obtain ⟨a, ha, has⟩ := hr
    have hna := List.find?_eq_none.1 hf a ha
    simp only [Option.none_or, List.find?_eq_none]
    intro b hb
    have hab := (List.pairwise_append.1 hord).2.2 a ha b hb
    simp only [meets, Bool.and_eq_true, decide_eq_true_eq] at hna ⊢
    omega

lemma find?_eq_none_of_not_reaches (h : ¬ ∃ a ∈ xs, start ≤ itLast a) :
    xs.find? (meets itStart itLast start last) = none := by
  rw [List.find?_eq_none]
  intro a ha hm
  simp only [meets, Bool.and_eq_true, decide_eq_true_eq] at hm
  exact h ⟨a, ha, hm.2⟩

lemma find?_eq_none_of_lt (h : ∀ a ∈ xs, last < itStart a) :
    xs.find? (meets itStart itLast start last) = none := by
  rw [List.find?_eq_none]
  intro a ha hm
  simp only [meets, Bool.and_eq_true, decide_eq_true_eq] at hm
  exact (h a ha).not_ge hm.1

/-- **Search in a subtree.** The search finds the first interval that meets the query. -/
theorem subtreeSearch_eq {t : AugRoot ℕ α} (haug : Augmented snd (computeSubtreeLast itLast) t)
    (hord : t.inorder.Pairwise fun a b => itStart a ≤ itStart b) :
    subtreeSearch itStart itLast start last t =
      t.inorder.find? (meets itStart itLast start last) := by
  induction t with
  | nil => rfl
  | node c l a r ihl ihr =>
    obtain ⟨-, hl, hr⟩ := haug
    have hord' := hord
    rw [BinTree.inorder_node, List.pairwise_append, List.pairwise_cons] at hord'
    obtain ⟨hol, ⟨har, hor⟩, -⟩ := hord'
    rw [subtreeSearch, BinTree.inorder_node]
    by_cases hrl : reaches start l = true
    · rw [if_pos hrl, ihl hl hol, find?_append_of_reaches hord ((reaches_iff hl).1 hrl)]
    · rw [if_neg hrl, List.find?_append,
        find?_eq_none_of_not_reaches (mt (reaches_iff hl).2 hrl), Option.none_or]
      by_cases hle : itStart a ≤ last
      · rw [if_pos hle]
        by_cases hsa : start ≤ itLast a
        · rw [if_pos hsa, List.find?_cons_of_pos (by simp [meets, hle, hsa])]
        · rw [if_neg hsa, List.find?_cons_of_neg (by simp [meets, hsa])]
          by_cases hrr : reaches start r = true
          · rw [if_pos hrr, ihr hr hor]
          · rw [if_neg hrr, find?_eq_none_of_not_reaches (mt (reaches_iff hr).2 hrr)]
      · rw [if_neg hle, find?_eq_none_of_lt]
        intro b hb
        rcases List.mem_cons.1 hb with rfl | hb
        · exact not_le.1 hle
        · exact (not_le.1 hle).trans_le (har b hb)

/-- **First interval.** In a valid tree `ITPREFIX_iter_first` returns the first interval that meets
the query. -/
theorem Valid.iterFirst_eq (h : Valid itStart itLast t) (start last : ℕ) :
    iterFirst itStart itLast t start last =
      (elements t).find? (meets itStart itLast start last) := by
  have hsearch : subtreeSearch itStart itLast start last t.root = _ :=
    subtreeSearch_eq h.augmented h.ordered
  have hlm := h.leftmost
  have haug := h.augmented
  have hord := h.ordered
  unfold iterFirst
  unfold elements at hlm hord ⊢
  match hroot : t.root with
  | nil => rfl
  | node c l a r =>
    rw [hroot] at hsearch hlm haug hord
    obtain ⟨b, ys, hb⟩ := List.exists_cons_of_ne_nil
      (show (node c l a r).inorder ≠ [] by simp)
    rw [hb, List.head?_cons] at hlm
    rw [hlm]
    dsimp only
    by_cases hc : c.2 < start
    · rw [if_pos hc, find?_eq_none_of_not_reaches]
      rw [← reaches_iff haug]
      simpa [reaches] using hc
    · rw [if_neg hc]
      by_cases hlt : last < itStart b
      · rw [if_pos hlt, find?_eq_none_of_lt]
        rw [hb] at hord ⊢
        intro d hd
        rcases List.mem_cons.1 hd with rfl | hd
        · exact hlt
        · exact hlt.trans_le ((List.pairwise_cons.1 hord).1 d hd)
      · rw [if_neg hlt, hsearch]

lemma iterUp_eq {v : Option ℕ} {p : List (Frame (Color × ℕ) α)}
    (haug : AugFrames snd (computeSubtreeLast itLast) v p)
    (hord : (after p).Pairwise fun a b => itStart a ≤ itStart b) :
    iterUp itStart itLast start last p = (after p).find? (meets itStart itLast start last) := by
  induction p generalizing v with
  | nil => rfl
  | cons f p ih =>
    cases f with
    | right c l a => exact ih haug.2.2 hord
    | left c a r =>
      obtain ⟨-, hr, hp⟩ := haug
      have hord' := hord
      rw [after, List.cons_append, List.pairwise_cons, List.pairwise_append] at hord'
      obtain ⟨har, hor, hop, -⟩ := hord'
      rw [iterUp, after, List.cons_append]
      by_cases hlt : last < itStart a
      · rw [if_pos hlt, find?_eq_none_of_lt]
        intro d hd
        rcases List.mem_cons.1 hd with rfl | hd
        · exact hlt
        · exact hlt.trans_le (har d hd)
      · rw [if_neg hlt]
        by_cases hsa : start ≤ itLast a
        · rw [if_pos hsa, List.find?_cons_of_pos (by simp [meets, hsa, not_lt.1 hlt])]
        · rw [if_neg hsa, List.find?_cons_of_neg (by simp [meets, hsa])]
          by_cases hrr : reaches start r = true
          · rw [if_pos hrr, subtreeSearch_eq hr hor,
              find?_append_of_reaches (List.pairwise_cons.1 hord).2 ((reaches_iff hr).1 hrr)]
          · rw [if_neg hrr, ih hp hop, List.find?_append,
              find?_eq_none_of_not_reaches (mt (reaches_iff hr).2 hrr), Option.none_or]

/-- **Next interval.** In a valid tree `ITPREFIX_iter_next` returns the first interval after the
given one that meets the query. -/
theorem Valid.iterNext_eq [DecidableEq α] (h : Valid itStart itLast t)
    (hx : elements t = xs ++ x :: ys) (start last : ℕ) :
    iterNext itStart itLast t x start last = ys.find? (meets itStart itLast start last) := by
  have hmem : x ∈ t.root.inorder := by rw [← elements, hx]; simp
  obtain ⟨c, l, r, p, hloc, hio⟩ := BinTree.locate_spec hmem
  have hys : ys = r.inorder ++ after p :=
    (BinTree.append_cons_inj_of_nodup (hx.symm.trans hio) (hx ▸ h.nodup)).2
  have hplug : plug (node c l x r) p = t.root := by
    simpa [plug] using (BinTree.locate_some hloc).1
  have haug := h.augmented
  rw [← hplug, BinTree.augmented_plug] at haug
  obtain ⟨⟨-, -, hr⟩, hp⟩ := haug
  have hord := h.ordered
  rw [hx, List.pairwise_append, List.pairwise_cons, hys, List.pairwise_append] at hord
  obtain ⟨-, ⟨-, hor, hop, hrp⟩, -⟩ := hord
  have hrest : (r.inorder ++ after p).Pairwise fun a b => itStart a ≤ itStart b :=
    List.pairwise_append.2 ⟨hor, hop, hrp⟩
  rw [iterNext, hloc, hys]
  dsimp only
  by_cases hrr : reaches start r = true
  · rw [if_pos hrr, subtreeSearch_eq hr hor, find?_append_of_reaches hrest ((reaches_iff hr).1 hrr)]
  · rw [if_neg hrr, iterUp_eq hp hop, List.find?_append,
      find?_eq_none_of_not_reaches (mt (reaches_iff hr).2 hrr), Option.none_or]

/-! ## Whole runs -/

open List

variable [DecidableEq α] (itStart itLast)

/-- The tree and its nodes after calls, the last one first. A node is inserted only if it is not
linked, and removed only if it is. -/
def build : List (Bool × α) → Root α × Finset α
  | [] => (.empty, ∅)
  | (link, x) :: calls =>
    let (t, s) := build calls
    if x ∈ s then if link then (t, s) else (remove itLast x t, s.erase x)
    else if link then (insert itStart itLast x t, Insert.insert x s) else (t, s)

/-- The loop over `iter_first` and `iter_next`, for at most so many turns. -/
def iterate (t : Root α) (start last : ℕ) : ℕ → Option α → List α
  | turns + 1, some x => x :: iterate t start last turns (iterNext itStart itLast t x start last)
  | _, _ => []

lemma valid_build (calls : List (Bool × α)) :
    let (t, s) := build itStart itLast calls
    Valid itStart itLast t ∧ (elements t).toFinset = s := by
  induction calls with
  | nil => exact ⟨valid_empty _ _, rfl⟩
  | cons call calls ih =>
    obtain ⟨hv, hs⟩ := ih
    simp only [build, ← hs, mem_toFinset]
    split_ifs with hx
    · exact ⟨hv, rfl⟩
    · exact ⟨hv.remove _, by ext; simp [hv.mem_remove]⟩
    · exact ⟨hv.insert hx, by ext; simp [hv.mem_insert]⟩
    · exact ⟨hv, rfl⟩

variable {itStart itLast}

lemma Valid.iterate_eq (h : Valid itStart itLast t) {turns : ℕ} (hys : elements t = xs ++ ys)
    (hn : ys.length ≤ turns) :
    iterate itStart itLast t start last turns (ys.find? (meets itStart itLast start last)) =
      ys.filter (meets itStart itLast start last) := by
  induction ys generalizing xs turns with
  | nil => cases turns <;> rfl
  | cons y ys ih =>
    have hnext := @ih (xs ++ [y])
    rw [append_assoc] at hnext
    rw [length_cons] at hn
    by_cases hy : meets itStart itLast start last y
    · obtain ⟨n, rfl⟩ := Nat.exists_eq_add_of_lt hn
      rw [find?_cons_of_pos hy, filter_cons_of_pos hy, iterate, h.iterNext_eq hys]
      exact congrArg _ (hnext hys (by omega))
    · rw [find?_cons_of_neg hy, filter_cons_of_neg hy]
      exact hnext hys (by omega)

/-- **Iteration.** After any calls the loop ends within as many turns as there are nodes. It visits
those that meet the range, each once and in order. -/
theorem iteration_visits (calls : List (Bool × α)) (start last more : ℕ) :
    let (t, s) := build itStart itLast calls
    let xs := iterate itStart itLast t start last (s.card + more)
      (iterFirst itStart itLast t start last)
    xs.Nodup ∧ xs.Pairwise (fun a b => itStart a ≤ itStart b) ∧
      ∀ a, a ∈ xs ↔ a ∈ s ∧ itStart a ≤ last ∧ start ≤ itLast a := by
  obtain ⟨hv, hs⟩ := valid_build itStart itLast calls
  dsimp only
  rw [← hs, toFinset_card_of_nodup hv.nodup, hv.iterFirst_eq,
    hv.iterate_eq (nil_append _).symm (Nat.le_add_right _ _)]
  exact ⟨hv.nodup.filter _, hv.ordered.filter _, fun a => by simp [meets]⟩

end

end KmsDrm.IntervalTree
