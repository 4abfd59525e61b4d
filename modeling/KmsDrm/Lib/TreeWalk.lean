import KmsDrm.Lib.CircList
import KmsDrm.Lib.Loop

/-!
# The walk through a tree without a stack

An element of a tree in memory has a list of children and a pointer to its parent. With both the
tree can be walked without a stack: down to the first child, over to the next one in the parent's
list, and up again from the last one.

## Main results

* `Lib.TreeWalk.mem_preorder_iff` — they are the ones that can be reached from the root.
* `Lib.TreeWalk.Walkable.run_eq` — the walk ends and visits them in this order.
-/

namespace KmsDrm.Lib.TreeWalk

open List

variable {α σ : Type} [DecidableEq α]

/-- Where the walk is: about to visit an element, or on the way up from it. -/
inductive Place (α : Type) where
  | at (a : α)
  | up (a : α)

/-- Where the walk goes on when a part of the list of children of `p` is left. -/
def Place.along (p : α) : List α → Place α
  | [] => .up p
  | b :: _ => .at b

section Definitions

variable (children : σ → α → List α) (parent : σ → α → Option α) (visit : α → σ → σ)

/-- One turn of the walk below `top`. The walk is left without a state if there is no parent, or no
next element, where one is asked for. -/
def turn (top : α) : σ × Place α → Loop.Turn (σ × Place α) (Option σ)
  | (s, .at a) => .next (visit a s, .along a (children (visit a s) a))
  | (s, .up a) =>
    if a = top then .leave (some s)
    else
      match parent s a with
      | none => .leave none
      | some p =>
        if (children s p).getLast? = some a then .next (s, .up p)
        else
          match CircList.nextAfter (children s p) a with
          | some b => .next (s, .at b)
          | none => .leave none

end Definitions

/-- The tree below an element, to the given depth. -/
def preorder (kids : α → List α) : ℕ → α → List α
  | 0, a => [a]
  | depth + 1, a => a :: (kids a).flatMap (preorder kids depth)

section Preorder

variable {kids : α → List α} {rank : α → ℕ} {bound : ℕ}

omit [DecidableEq α] in
lemma mem_preorder_iff (hrank : ∀ p, ∀ c ∈ kids p, rank p < rank c ∧ rank c < bound)
    {depth : ℕ} {a b : α} (hdepth : bound ≤ rank a + depth + 1) :
    b ∈ preorder kids depth a ↔ Relation.ReflTransGen (fun p c => c ∈ kids p) a b := by
  induction depth generalizing a with
  | zero =>
    rw [preorder, mem_singleton]
    refine ⟨fun h => h ▸ .refl, fun h => ?_⟩
    rcases h.cases_head with rfl | ⟨c, hc, -⟩
    · rfl
    · have := hrank a c hc
      omega
  | succ depth ih =>
    have hkid : ∀ c ∈ kids a, (b ∈ preorder kids depth c ↔
        Relation.ReflTransGen (fun p c => c ∈ kids p) c b) := by
      intro c hc
      have := hrank a c hc
      exact ih (by omega)
    rw [preorder, mem_cons, mem_flatMap, Relation.ReflTransGen.cases_head_iff, eq_comm]
    refine or_congr_right (exists_congr fun c => and_congr_right fun hc => hkid c hc)

end Preorder

/-- What the walk relies on, in the states that satisfy `I`: parents match the lists of children, no
list has an element twice, children have larger numbers, and a visit changes none of this. -/
structure Walkable (children : σ → α → List α) (parent : σ → α → Option α) (visit : α → σ → σ)
    (kids : α → List α) (rank : α → ℕ) (bound : ℕ) (I : σ → Prop) : Prop where
  children_eq : ∀ s, I s → children s = kids
  parent_eq : ∀ s, I s → ∀ p, ∀ c ∈ kids p, parent s c = some p
  nodup : ∀ p, (kids p).Nodup
  rank : ∀ p, ∀ c ∈ kids p, rank p < rank c ∧ rank c < bound
  visit : ∀ s a, I s → I (visit a s)

namespace Walkable

variable {children : σ → α → List α} {parent : σ → α → Option α} {visit : α → σ → σ}
  {kids : α → List α} {rank : α → ℕ} {bound : ℕ} {I : σ → Prop} {s : σ} {top : α}

omit [DecidableEq α] in
lemma foldl (hw : Walkable children parent visit kids rank bound I) (l : List α) (hs : I s) :
    I (l.foldl (fun s a => visit a s) s) := by
  induction l generalizing s with
  | nil => exact hs
  | cons a l ih => exact ih (hw.visit s a hs)

section

variable (hw : Walkable children parent visit kids rank bound I)

include hw

lemma turn_up (hs : I s) {a p : α}
    {done rest : List α} (htop : rank top ≤ rank p) (hkids : kids p = done ++ a :: rest) :
    turn children parent visit top (s, .up a) = .next (s, .along p rest) := by
  have hmem : a ∈ kids p := by simp [hkids]
  have hne : a ≠ top := by
    rintro rfl
    have := hw.rank p a hmem
    omega
  have hnodup := hw.nodup p
  have hnext := CircList.nextAfter_eq hnodup hkids
  cases rest with
  | nil => simp [turn, Place.along, hne, hw.parent_eq s hs p a hmem, hw.children_eq s hs, hkids]
  | cons b rest =>
    have hlast : (kids p).getLast? ≠ some a := by
      intro hlast
      rw [hkids, List.getLast?_append_of_ne_nil _ (by simp)] at hlast
      rw [hkids, nodup_append] at hnodup
      exact (nodup_cons.1 hnodup.2.1).1 (mem_of_getLast? hlast)
    simp [turn, Place.along, hne, hw.parent_eq s hs p a hmem, hw.children_eq s hs, hnext, hlast]

/-- The walk visits the tree below an element and is then on the way up from it.

**Proof sketch.** By induction on the depth. For the children an inner induction goes along the
part of the list that is left. -/
lemma reaches_up {depth : ℕ} {a : α}
    (hs : I s) (htop : rank top ≤ rank a) (hdepth : bound ≤ rank a + depth + 1) :
    Loop.Reaches (turn children parent visit top) (s, .at a)
      ((preorder kids depth a).foldl (fun s a => visit a s) s, .up a) := by
  have hfirst : ∀ s a, I s → turn children parent visit top (s, .at a) =
      .next (visit a s, .along a (kids a)) := by
    intro s a hs
    rw [turn, hw.children_eq _ (hw.visit s a hs)]
  induction depth generalizing s a with
  | zero =>
    have hnil : kids a = [] := eq_nil_iff_forall_not_mem.2 fun c hc => by
      have := hw.rank a c hc
      omega
    have hturn := hfirst s a hs
    rw [hnil] at hturn
    exact .single hturn
  | succ depth ih =>
    refine .head (hfirst s a hs) ?_
    suffices h : ∀ done rest t, kids a = done ++ rest → I t →
        Loop.Reaches (turn children parent visit top) (t, .along a rest)
          ((rest.flatMap (preorder kids depth)).foldl (fun s a => visit a s) t, .up a) from
      h [] (kids a) (visit a s) rfl (hw.visit s a hs)
    intro done rest t hkids ht
    induction rest generalizing done t with
    | nil => exact .refl
    | cons c rest ihrest =>
      have hrank := hw.rank a c (by simp [hkids])
      have hdown := ih (a := c) ht (by omega) (by omega)
      have ht2 := hw.foldl (preorder kids depth c) ht
      rw [flatMap_cons, foldl_append]
      exact hdown.trans (.head (hw.turn_up ht2 htop hkids)
        (ihrest (done ++ [c]) _ (by simp [hkids]) ht2))

/-- **The walk ends**, and it has visited the tree below `top` in preorder. Its result does not
depend on the number of turns it is given. -/
theorem run_eq (hs : I s) (top : α) :
    (∃ n, ∀ turns, n ≤ turns →
      Loop.run (turn children parent visit top) turns (s, .at top) =
        some (some ((preorder kids bound top).foldl (fun s a => visit a s) s))) ∧
    ∀ turns r, Loop.run (turn children parent visit top) turns (s, .at top) = some r →
      r = some ((preorder kids bound top).foldl (fun s a => visit a s) s) := by
  have hdepth : bound ≤ rank top + bound + 1 := by omega
  obtain ⟨n, hn⟩ := (hw.reaches_up hs (le_refl (rank top)) hdepth).run_eq (if_pos rfl)
  exact ⟨⟨n, hn⟩, fun turns r hr => Loop.run_unique hr (hn n (le_refl n))⟩

end

end Walkable

end KmsDrm.Lib.TreeWalk
