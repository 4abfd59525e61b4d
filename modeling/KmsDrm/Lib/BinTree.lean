import Mathlib

/-!
# Binary trees and positions in them

Tagged binary trees, together with the positions that a program holding parent pointers can be
at: a position is the subtree in focus and the list of frames from there up to the root. All
facts are stated about the in-order sequence, so that a rebalancing which keeps that sequence
is transparent to the users of a search tree.

## Main results

* `BinTree.inorder_plug` — the in-order sequence around a position.
* `BinTree.attachPath_spec` — in an ordered tree the descent ends between the elements that
  do not precede and those that do.
* `BinTree.next_eq`, `BinTree.prev_eq` — `next` and `prev` are the in-order neighbours.
* `BinTree.lowerBound_eq`, `BinTree.probe_spec` — what the two searches find.
-/

namespace KmsDrm.Lib

open List

/-- Binary trees whose nodes carry a tag (for example a colour) and an element. -/
inductive BinTree (κ α : Type) where
  | nil
  | node (c : κ) (l : BinTree κ α) (a : α) (r : BinTree κ α)
  deriving DecidableEq, Repr

namespace BinTree

variable {κ α : Type}

/-- The elements from left to right. -/
def inorder : BinTree κ α → List α
  | nil => []
  | node _ l a r => inorder l ++ a :: inorder r

@[simp] lemma inorder_nil : (nil : BinTree κ α).inorder = [] := rfl

@[simp] lemma inorder_node (c : κ) (l : BinTree κ α) (a : α) (r : BinTree κ α) :
    (node c l a r).inorder = l.inorder ++ a :: r.inorder := rfl

/-- Replace every element. -/
def map (f : α → α) : BinTree κ α → BinTree κ α
  | nil => nil
  | node c l a r => node c (map f l) (f a) (map f r)

@[simp] lemma inorder_map (f : α → α) (t : BinTree κ α) :
    (t.map f).inorder = t.inorder.map f := by
  induction t with
  | nil => rfl
  | node c l a r ihl ihr => simp [map, ihl, ihr]

/-! ## Positions -/

/-- One step of the way up to the root: the node above, and its other subtree. -/
inductive Frame (κ α : Type) where
  /-- The focus is the left child. -/
  | left (c : κ) (a : α) (r : BinTree κ α)
  /-- The focus is the right child. -/
  | right (c : κ) (l : BinTree κ α) (a : α)
  deriving DecidableEq, Repr

/-- Put a subtree back under its frames, nearest frame first. -/
def plug : BinTree κ α → List (Frame κ α) → BinTree κ α
  | t, [] => t
  | t, .left c a r :: p => plug (node c t a r) p
  | t, .right c l a :: p => plug (node c l a t) p

/-- The elements to the left of a position. -/
def before : List (Frame κ α) → List α
  | [] => []
  | .left _ _ _ :: p => before p
  | .right _ l a :: p => before p ++ (l.inorder ++ [a])

/-- The elements to the right of a position. -/
def after : List (Frame κ α) → List α
  | [] => []
  | .left _ a r :: p => (a :: r.inorder) ++ after p
  | .right _ _ _ :: p => after p

lemma inorder_plug (t : BinTree κ α) (p : List (Frame κ α)) :
    (plug t p).inorder = before p ++ (t.inorder ++ after p) := by
  induction p generalizing t with
  | nil => simp [plug, before, after]
  | cons f p ih =>
    cases f with
    | left c a r => simp [plug, before, after, ih]
    | right c l a => simp [plug, before, after, ih]

/-! ## The empty link at the end of a descent -/

/-- Walk down, to the left at every node whose element satisfies `lt`, until the link is empty. -/
def attachPath (lt : α → Bool) : BinTree κ α → List (Frame κ α) → List (Frame κ α)
  | nil, p => p
  | node c l a r, p =>
    if lt a then attachPath lt l (.left c a r :: p) else attachPath lt r (.right c l a :: p)

lemma plug_attachPath (lt : α → Bool) (t : BinTree κ α) (p : List (Frame κ α)) :
    plug nil (attachPath lt t p) = plug t p := by
  induction t generalizing p with
  | nil => rfl
  | node c l a r ihl ihr =>
    unfold attachPath
    split_ifs
    · rw [ihl, plug]
    · rw [ihr, plug]

lemma attachPath_spec {lt : α → Bool} (t : BinTree κ α) (p : List (Frame κ α))
    (h : t.inorder.Pairwise fun a b => lt a = true → lt b = true) :
    before (attachPath lt t p) = before p ++ t.inorder.filter (fun a => !lt a) ∧
      after (attachPath lt t p) = t.inorder.filter lt ++ after p := by
  induction t generalizing p with
  | nil => simp [attachPath]
  | node c l a r ihl ihr =>
    rw [inorder_node, pairwise_append, pairwise_cons] at h
    obtain ⟨hl, ⟨har, hr⟩, hlr⟩ := h
    cases ha : lt a with
    | true =>
      have hall : ∀ b ∈ r.inorder, lt b = true := fun b hb => har b hb ha
      have hnone : r.inorder.filter (fun b => !lt b) = [] :=
        filter_eq_nil_iff.2 fun b hb => by simp [hall b hb]
      simp [attachPath, ha, ihl _ hl, before, after, hnone, filter_eq_self.2 hall]
    | false =>
      have hnot : ∀ b ∈ l.inorder, ¬ lt b = true := fun b hb hb' => by
        simp [hlr b hb a (by simp) hb'] at ha
      have hall : l.inorder.filter (fun b => !lt b) = l.inorder :=
        filter_eq_self.2 fun b hb => by simp [hnot b hb]
      simp [attachPath, ha, ihr _ hr, before, after, hall, filter_eq_nil_iff.2 hnot]

/-! ## The position of an element -/

/-- The position of the node carrying `x`: what a pointer to that node gives access to. -/
def locate [DecidableEq α] (x : α) :
    BinTree κ α → List (Frame κ α) → Option (BinTree κ α × List (Frame κ α))
  | nil, _ => none
  | node c l a r, p =>
    if a = x then some (node c l a r, p)
    else match locate x l (.left c a r :: p) with
      | some z => some z
      | none => locate x r (.right c l a :: p)

lemma locate_some [DecidableEq α] {x : α} {t u : BinTree κ α} {p q : List (Frame κ α)}
    (h : locate x t p = some (u, q)) :
    plug u q = plug t p ∧ ∃ c l r, u = node c l x r := by
  induction t generalizing p with
  | nil => simp [locate] at h
  | node c l a r ihl ihr =>
    unfold locate at h
    split_ifs at h with hax
    · obtain ⟨rfl, rfl⟩ := h
      exact ⟨rfl, c, l, r, by rw [hax]⟩
    · split at h
      · rename_i z hz
        obtain rfl : z = (u, q) := by simpa using h
        exact ihl hz
      · exact ihr h

lemma exists_locate [DecidableEq α] {x : α} {t : BinTree κ α} (p : List (Frame κ α))
    (h : x ∈ t.inorder) : ∃ z, locate x t p = some z := by
  induction t generalizing p with
  | nil => simp at h
  | node c l a r ihl ihr =>
    unfold locate
    by_cases hax : a = x
    · exact ⟨_, if_pos hax⟩
    · rw [if_neg hax]
      cases hl : locate x l (.left c a r :: p) with
      | some z => exact ⟨z, rfl⟩
      | none =>
        rw [inorder_node, mem_append, mem_cons] at h
        rcases h with h | h | h
        · obtain ⟨z, hz⟩ := ihl (.left c a r :: p) h
          rw [hl] at hz
          cases hz
        · exact absurd h.symm hax
        · exact ihr _ h

lemma locate_spec [DecidableEq α] {x : α} {t : BinTree κ α} (h : x ∈ t.inorder) :
    ∃ c l r p, locate x t [] = some (node c l x r, p) ∧
      t.inorder = (before p ++ l.inorder) ++ x :: (r.inorder ++ after p) := by
  obtain ⟨⟨u, p⟩, hz⟩ := exists_locate [] h
  obtain ⟨hplug, c, l, r, rfl⟩ := locate_some hz
  refine ⟨c, l, r, p, hz, ?_⟩
  have := inorder_plug (node c l x r) p
  rw [hplug] at this
  simpa [plug] using this

lemma locate_eq_none [DecidableEq α] {x : α} {t : BinTree κ α} (h : x ∉ t.inorder) :
    locate x t [] = none := by
  cases hz : locate x t [] with
  | none => rfl
  | some z =>
    obtain ⟨hplug, c, l, r, hu⟩ := locate_some (u := z.1) (q := z.2) hz
    have hin := inorder_plug z.1 z.2
    rw [hplug, hu] at hin
    exact absurd (by simp only [plug] at hin; rw [hin]; simp) h

lemma append_cons_inj_of_nodup {xs ys xs' ys' : List α} {x : α}
    (h : xs ++ x :: ys = xs' ++ x :: ys') (hn : (xs ++ x :: ys).Nodup) :
    xs = xs' ∧ ys = ys' := by
  have hx : x ∉ xs := by
    rw [nodup_append] at hn
    intro hx
    exact hn.2.2 x hx x (by simp) rfl
  have hx' : x ∉ xs' := by
    rw [h, nodup_append] at hn
    intro hx'
    exact hn.2.2 x hx' x (by simp) rfl
  obtain ⟨as, rfl, hb⟩ | ⟨as, rfl, hb⟩ := append_eq_append_iff.1 h
  · cases as with
    | nil => simpa using hb
    | cons a as =>
      simp only [cons_append, List.cons.injEq] at hb
      exact absurd (by simp [← hb.1]) hx'
  · cases as with
    | nil => simpa using hb.symm
    | cons a as =>
      simp only [cons_append, List.cons.injEq] at hb
      exact absurd (by simp [← hb.1]) hx

/-! ## In-order neighbours -/

/-- The leftmost element of a tree, `d` for the empty one. -/
def leftmost : BinTree κ α → α → α
  | nil, d => d
  | node _ l a _, _ => leftmost l a

/-- The rightmost element of a tree, `d` for the empty one. -/
def rightmost : BinTree κ α → α → α
  | nil, d => d
  | node _ _ a r, _ => rightmost r a

lemma head?_inorder_append (t : BinTree κ α) (d : α) (ys : List α) :
    (t.inorder ++ d :: ys).head? = some (t.leftmost d) := by
  induction t generalizing d ys with
  | nil => rfl
  | node c l a r ihl ihr =>
    rw [inorder_node, append_assoc, cons_append, ihl, leftmost]

lemma getLast?_append_inorder (t : BinTree κ α) (d : α) (xs : List α) :
    (xs ++ d :: t.inorder).getLast? = some (t.rightmost d) := by
  induction t generalizing d xs with
  | nil => simp [rightmost]
  | node c l a r ihl ihr =>
    have hsplit : xs ++ d :: (node c l a r).inorder = (xs ++ d :: l.inorder) ++ a :: r.inorder := by
      simp
    rw [hsplit, ihr, rightmost]

/-- Climb while the focus is a right child; the first parent reached from the left. -/
def nextUp : List (Frame κ α) → Option α
  | [] => none
  | .left _ a _ :: _ => some a
  | .right _ _ _ :: p => nextUp p

/-- Climb while the focus is a left child; the first parent reached from the right. -/
def prevUp : List (Frame κ α) → Option α
  | [] => none
  | .left _ _ _ :: p => prevUp p
  | .right _ _ a :: _ => some a

lemma nextUp_eq (p : List (Frame κ α)) : nextUp p = (after p).head? := by
  induction p with
  | nil => rfl
  | cons f p ih => cases f <;> simp [nextUp, after, ih]

lemma prevUp_eq (p : List (Frame κ α)) : prevUp p = (before p).getLast? := by
  induction p with
  | nil => rfl
  | cons f p ih => cases f <;> simp [prevUp, before, ih]

/-- The in-order successor of the node carrying `x`: the leftmost element of its right subtree,
or the first ancestor of which it lies to the left. -/
def next [DecidableEq α] (t : BinTree κ α) (x : α) : Option α :=
  match locate x t [] with
  | some (node _ _ _ nil, p) => nextUp p
  | some (node _ _ _ (node _ l a _), _) => some (l.leftmost a)
  | _ => none

/-- The in-order predecessor of the node carrying `x`. -/
def prev [DecidableEq α] (t : BinTree κ α) (x : α) : Option α :=
  match locate x t [] with
  | some (node _ nil _ _, p) => prevUp p
  | some (node _ (node _ _ a r) _ _, _) => some (r.rightmost a)
  | _ => none

lemma next_eq [DecidableEq α] {t : BinTree κ α} {x : α} {xs ys : List α}
    (hn : t.inorder.Nodup) (h : t.inorder = xs ++ x :: ys) : t.next x = ys.head? := by
  obtain ⟨c, l, r, p, hloc, hio⟩ := locate_spec (x := x) (t := t) (by simp [h])
  have hys : ys = r.inorder ++ after p := (append_cons_inj_of_nodup (h ▸ hio) (h ▸ hn)).2
  rw [next, hloc, hys]
  cases r with
  | nil => simp [nextUp_eq]
  | node c' l' a' r' =>
    rw [inorder_node, append_assoc, cons_append, head?_inorder_append]

lemma prev_eq [DecidableEq α] {t : BinTree κ α} {x : α} {xs ys : List α}
    (hn : t.inorder.Nodup) (h : t.inorder = xs ++ x :: ys) : t.prev x = xs.getLast? := by
  obtain ⟨c, l, r, p, hloc, hio⟩ := locate_spec (x := x) (t := t) (by simp [h])
  have hxs : xs = before p ++ l.inorder := (append_cons_inj_of_nodup (h ▸ hio) (h ▸ hn)).1
  rw [prev, hloc, hxs]
  cases l with
  | nil => simp [prevUp_eq]
  | node c' l' a' r' =>
    rw [inorder_node, ← append_assoc, getLast?_append_inorder]

/-! ## Searches by descent -/

/-- Walk down, to the left at every node whose element satisfies `ok`, remembering the last one
that did. -/
def lowerBound (ok : α → Bool) : BinTree κ α → Option α → Option α
  | nil, best => best
  | node _ l a r, best => if ok a then lowerBound ok l (some a) else lowerBound ok r best

lemma lowerBound_eq {ok : α → Bool} (t : BinTree κ α) (best : Option α)
    (h : t.inorder.Pairwise fun a b => ok a = true → ok b = true) :
    t.lowerBound ok best = (t.inorder.find? ok).or best := by
  induction t generalizing best with
  | nil => simp [lowerBound]
  | node c l a r ihl ihr =>
    rw [inorder_node, pairwise_append, pairwise_cons] at h
    obtain ⟨hl, ⟨har, hr⟩, hlr⟩ := h
    rw [lowerBound, inorder_node, List.find?_append, List.find?_cons]
    cases ha : ok a with
    | true =>
      rw [ihl _ hl]
      cases l.inorder.find? ok <;> rfl
    | false =>
      have hl' : l.inorder.find? ok = none := by
        rw [List.find?_eq_none]
        intro b hb hb'
        simp [hlr b hb a (by simp) hb'] at ha
      rw [ihr _ hr, hl']
      rfl

/-- Walk down by a three-way comparison, keeping the last node seen: the element that compares
equal, or the one above the empty link where the descent ends. -/
def probe (cmp : α → Ordering) : BinTree κ α → Option α → Option α
  | nil, seen => seen
  | node _ l a r, _ =>
    match cmp a with
    | .lt => probe cmp l (some a)
    | .gt => probe cmp r (some a)
    | .eq => some a

/-- What a descent by a three-way comparison ends on, in a tree whose in-order sequence has the
elements to the right of the target (`lt`) after the others and those to the left of it (`gt`)
before the others: an element of the tree such that everything before it is to the left of the
target and everything after it to the right. The element itself may lie on either side.

**Proof sketch.** Induction on the tree. At a node that compares equal both halves follow from
the ordering. Otherwise the descent enters one side: if that side is empty, the node itself is
the result and all elements of the other side compare the same way as it does; if not, the
induction hypothesis speaks of the side entered and the ordering of the other one. -/
lemma probe_spec {cmp : α → Ordering} (t : BinTree κ α) (seen : Option α)
    (h : t.inorder.Pairwise fun a b =>
      (cmp a = .lt → cmp b = .lt) ∧ (cmp b = .gt → cmp a = .gt) ∧ (cmp a = .eq → cmp b = .lt)) :
    (t = nil ∧ t.probe cmp seen = seen) ∨
      ∃ xs x ys, t.inorder = xs ++ x :: ys ∧ t.probe cmp seen = some x ∧
        (∀ y ∈ xs, cmp y = .gt) ∧ (∀ y ∈ ys, cmp y = .lt) := by
  induction t generalizing seen with
  | nil => exact .inl ⟨rfl, rfl⟩
  | node c l a r ihl ihr =>
    right
    rw [inorder_node, pairwise_append, pairwise_cons] at h
    obtain ⟨hl, ⟨har, hr⟩, hlr⟩ := h
    cases ha : cmp a with
    | eq =>
      refine ⟨l.inorder, a, r.inorder, rfl, by simp [probe, ha], fun y hy => ?_, fun y hy => ?_⟩
      · have hya := hlr y hy a (by simp)
        cases hy' : cmp y with
        | lt => simp [hya.1 hy'] at ha
        | eq => simp [hya.2.2 hy'] at ha
        | gt => rfl
      · exact (har y hy).2.2 ha
    | lt =>
      rcases ihl (some a) hl with ⟨rfl, -⟩ | ⟨xs, x, ys, hio, hp, hxs, hys⟩
      · exact ⟨[], a, r.inorder, rfl, by simp [probe, ha], by simp,
          fun y hy => (har y hy).1 ha⟩
      · refine ⟨xs, x, ys ++ a :: r.inorder, by simp [hio], by simp [probe, ha, hp], hxs, ?_⟩
        intro y hy
        rw [mem_append, mem_cons] at hy
        rcases hy with hy | rfl | hy
        · exact hys y hy
        · exact ha
        · exact (har y hy).1 ha
    | gt =>
      rcases ihr (some a) hr with ⟨rfl, -⟩ | ⟨xs, x, ys, hio, hp, hxs, hys⟩
      · exact ⟨l.inorder, a, [], rfl, by simp [probe, ha],
          fun y hy => (hlr y hy a (by simp)).2.1 ha, by simp⟩
      · refine ⟨l.inorder ++ a :: xs, x, ys, by simp [hio], by simp [probe, ha, hp], ?_, hys⟩
        intro y hy
        rw [mem_append, mem_cons] at hy
        rcases hy with hy | rfl | hy
        · exact (hlr y hy a (by simp)).2.1 ha
        · exact ha
        · exact hxs y hy

end BinTree

end KmsDrm.Lib
