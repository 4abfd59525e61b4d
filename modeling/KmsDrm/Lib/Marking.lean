import Mathlib

/-!
# A search that marks what it visits

A depth-first search over a finite graph with a flag for each node. It passes over the nodes that
are marked, marks the others as it enters them, and stops at the first node that it looks for. The
fuel bounds the depth; the number of nodes without the mark is enough.

## Main results

* `Lib.Search.visit_spec` — a search ends, and has marked what it can reach or found a node.
-/

namespace KmsDrm.Lib

open Relation (ReflTransGen)
open Function (update update_apply update_self)
open List

/-- A search: the successors of the nodes, the nodes that it looks for, and its mark. -/
structure Search (α : Type) where
  next : α → List α
  stop : α → Bool
  mark : Bool

namespace Search

variable {α : Type}

/-- Visit the nodes of a list, up to the first one with the result `true`. -/
def visitAll (visit : α → (α → Bool) → Option (Bool × (α → Bool))) :
    List α → (α → Bool) → Option (Bool × (α → Bool))
  | [], flags => some (false, flags)
  | a :: l, flags => (visit a flags).bind fun r => if r.1 then some r else visitAll visit l r.2

/-- What a search from the nodes `l` does to the flags. -/
structure Done (S : Search α) (l : List α) (flags : α → Bool) (found : Bool)
    (flags' : α → Bool) : Prop where
  mono : ∀ a, flags a = S.mark → flags' a = S.mark
  /-- The nodes with a new mark are reached over marked nodes. -/
  reach : ∀ a, flags' a = S.mark → flags a = S.mark ∨ ∃ b ∈ l, flags' b = S.mark ∧
    ReflTransGen (fun x y => y ∈ S.next x ∧ flags' y = S.mark) b a
  hit : found = true → ∃ a, S.stop a = true ∧ flags' a = S.mark
  /-- A search that finds nothing marks all that it can reach. -/
  closed : found = false → (∀ b ∈ l, flags' b = S.mark) ∧ ∀ a, flags' a = S.mark →
    flags a = S.mark ∨ S.stop a = false ∧ ∀ b ∈ S.next a, flags' b = S.mark

variable {S : Search α} {a : α} {l : List α} {flags flags' flags'' : α → Bool} {found : Bool}

namespace Done

lemma refl (h : ∀ a ∈ l, flags a = S.mark) : S.Done l flags false flags :=
  ⟨fun _ h => h, fun _ => .inl, nofun, fun _ => ⟨h, fun _ => .inl⟩⟩

lemma cons_of_found (h : S.Done [a] flags true flags') : S.Done (a :: l) flags true flags' where
  mono := h.mono
  reach b hb := by
    refine (h.reach b hb).imp_right fun ⟨c, hc, hreach⟩ => ⟨c, ?_, hreach⟩
    exact mem_cons.2 (.inl (mem_singleton.1 hc))
  hit := h.hit
  closed := nofun

lemma cons (h : S.Done [a] flags false flags') (h' : S.Done l flags' found flags'') :
    S.Done (a :: l) flags found flags'' where
  mono b hb := h'.mono b (h.mono b hb)
  reach b hb := by
    rcases h'.reach b hb with hb | ⟨c, hc, hreach⟩
    · refine (h.reach b hb).imp_right fun ⟨c, hc, hmark, hpath⟩ => ⟨c, ?_, h'.mono c hmark, ?_⟩
      · exact mem_cons.2 (.inl (mem_singleton.1 hc))
      · exact ReflTransGen.mono (fun _ y hxy => ⟨hxy.1, h'.mono y hxy.2⟩) _ _ hpath
    · exact .inr ⟨c, .tail _ hc, hreach⟩
  hit := h'.hit
  closed hfound := by
    obtain ⟨hl, hclosed⟩ := h.closed rfl
    obtain ⟨hl', hclosed'⟩ := h'.closed hfound
    refine ⟨forall_mem_cons.2 ⟨h'.mono a (hl a mem_cons_self), hl'⟩, fun b hb => ?_⟩
    rcases hclosed' b hb with hb | hb
    · exact (hclosed b hb).imp_right fun hb => ⟨hb.1, fun c hc => h'.mono c (hb.2 c hc)⟩
    · exact .inr hb

lemma marked_of_path {b : α} (h : S.Done [a] flags false flags') (ha : flags a ≠ S.mark)
    (hpath : ReflTransGen (fun x y => y ∈ S.next x ∧ flags y ≠ S.mark) a b) :
    flags' b = S.mark ∧ S.stop b = false := by
  obtain ⟨hl, hclosed⟩ := h.closed rfl
  have hb : flags b ≠ S.mark ∧ flags' b = S.mark := by
    induction hpath with
    | refl => exact ⟨ha, hl a mem_cons_self⟩
    | tail _ hxy ih => exact ⟨hxy.2, ((hclosed _ ih.2).resolve_left ih.1).2 _ hxy.1⟩
  exact ⟨hb.2, ((hclosed b hb.2).resolve_left hb.1).1⟩

end Done

variable [DecidableEq α]

lemma update_eq_mark {mark : Bool} {b : α} :
    update flags a mark b = mark ↔ b = a ∨ flags b = mark := by
  rw [update_apply]
  split_ifs with hb
  · simp [hb]
  · simp [hb]

lemma Done.stopped (hstop : S.stop a = true) : S.Done [a] flags true (update flags a S.mark) where
  mono b hb := update_eq_mark.2 (.inr hb)
  reach b hb := by
    rcases update_eq_mark.1 hb with rfl | hb
    · exact .inr ⟨b, mem_cons_self, update_self .., .refl⟩
    · exact .inl hb
  hit _ := ⟨a, hstop, update_self ..⟩
  closed := nofun

lemma Done.node (hstop : S.stop a = false)
    (h : S.Done (S.next a) (update flags a S.mark) found flags') :
    S.Done [a] flags found flags' := by
  have ha := h.mono a (update_self ..)
  refine ⟨fun b hb => h.mono b (update_eq_mark.2 (.inr hb)), fun b hb => ?_, h.hit,
    fun hfound => ?_⟩
  · rcases h.reach b hb with hb | ⟨c, hc, hmark, hpath⟩
    · rcases update_eq_mark.1 hb with rfl | hb
      · exact .inr ⟨b, mem_cons_self, ha, .refl⟩
      · exact .inl hb
    · exact .inr ⟨a, mem_cons_self, ha, .head ⟨hc, hmark⟩ hpath⟩
  · obtain ⟨hnext, hclosed⟩ := h.closed hfound
    refine ⟨by simpa using ha, fun b hb => ?_⟩
    rcases hclosed b hb with hb | hb
    · rcases update_eq_mark.1 hb with rfl | hb
      · exact .inr ⟨hstop, hnext⟩
      · exact .inl hb
    · exact .inr hb

variable (S)

/-- Visit a node. -/
def visit : ℕ → α → (α → Bool) → Option (Bool × (α → Bool))
  | 0, _, _ => none
  | fuel + 1, a, flags =>
    if flags a = S.mark then some (false, flags)
    else if S.stop a then some (true, update flags a S.mark)
    else visitAll (visit fuel) (S.next a) (update flags a S.mark)

variable [Fintype α]

/-- The nodes without the mark. -/
def unmarked (flags : α → Bool) : Finset α := Finset.univ.filter fun a => flags a ≠ S.mark

omit [DecidableEq α] in
lemma visitAll_spec {f : α → (α → Bool) → Option (Bool × (α → Bool))} {fuel : ℕ}
    (hf : ∀ a flags, (S.unmarked flags).card < fuel → ∃ found flags',
      f a flags = some (found, flags') ∧ S.Done [a] flags found flags')
    (l : List α) (flags : α → Bool) (hfuel : (S.unmarked flags).card < fuel) :
    ∃ found flags', visitAll f l flags = some (found, flags') ∧ S.Done l flags found flags' := by
  induction l generalizing flags with
  | nil => exact ⟨false, flags, rfl, .refl nofun⟩
  | cons a l ih =>
    obtain ⟨found, flags', heq, h⟩ := hf a flags hfuel
    rw [visitAll, heq]
    cases found with
    | true => exact ⟨true, flags', rfl, h.cons_of_found⟩
    | false =>
      have hle : (S.unmarked flags').card ≤ (S.unmarked flags).card :=
        Finset.card_le_card (Finset.monotone_filter_right _ fun b _ hb hmark => hb (h.mono b hmark))
      obtain ⟨found, flags'', heq', h'⟩ := ih flags' (hle.trans_lt hfuel)
      exact ⟨found, flags'', heq', h.cons h'⟩

/-- **A search ends and has marked what it can reach.** -/
theorem visit_spec (fuel : ℕ) (a : α) (flags : α → Bool) (hfuel : (S.unmarked flags).card < fuel) :
    ∃ found flags', S.visit fuel a flags = some (found, flags') ∧
      S.Done [a] flags found flags' := by
  induction fuel generalizing a flags with
  | zero => exact absurd hfuel (Nat.not_lt_zero _)
  | succ fuel ih =>
    rw [visit]
    split_ifs with hmark hstop
    · exact ⟨false, flags, rfl, .refl (by simpa using hmark)⟩
    · exact ⟨true, _, rfl, .stopped hstop⟩
    · have herase : S.unmarked (update flags a S.mark) = (S.unmarked flags).erase a := by
        ext b
        simp [unmarked, update_eq_mark]
      have hlt := Finset.card_erase_lt_of_mem (show a ∈ S.unmarked flags by
        simpa [unmarked] using hmark)
      obtain ⟨found, flags', heq, h⟩ := S.visitAll_spec ih (S.next a) (update flags a S.mark)
        (by rw [herase]; omega)
      exact ⟨found, flags', heq, .node (by simpa using hstop) h⟩

end Search

end KmsDrm.Lib
