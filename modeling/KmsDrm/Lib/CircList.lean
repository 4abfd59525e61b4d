import Mathlib

/-!
# Circular lists with a sentinel

A circular doubly linked list whose head is a sentinel, seen as the list of its entries. A
pointer into it is an `Option`: `none` is the sentinel, `some a` the entry `a`. Following the
links past the last entry leads back to the sentinel, so "next" is a total function on pointers.

## Main results

* `Lib.CircList.next_insertAfter`, `next_erase`, `next_map` — how the forward links change
  when an entry is linked, unlinked or renamed.
* `Lib.CircList.next_prev` — the forward link of the predecessor.
* `Lib.CircList.isChain_ptrs` — a relation between all neighbours is a chain.
-/

namespace KmsDrm.Lib.CircList

open List

variable {α : Type} [DecidableEq α]
variable {l xs ys : List α} {a b c x : α} {q r : Option α} {R : Option α → Option α → Prop}

/-- The sentinel and all entries, in list order. -/
def ptrs (l : List α) : List (Option α) := none :: l.map some

omit [DecidableEq α] in
/-- The sentinel is a pointer of the list. -/
@[simp] lemma none_mem_ptrs (l : List α) : none ∈ ptrs l := by simp [ptrs]

omit [DecidableEq α] in
/-- The other pointers are the entries. -/
@[simp] lemma some_mem_ptrs : some a ∈ ptrs l ↔ a ∈ l := by simp [ptrs]

/-- The entry behind `a`, `none` at the end of the list. -/
def nextAfter : List α → α → Option α
  | [], _ => none
  | b :: l, a => if b = a then l.head? else nextAfter l a

/-- Follow the forward link. -/
def next (l : List α) : Option α → Option α
  | none => l.head?
  | some a => nextAfter l a

/-- The entry before `a`, with `d` standing before the list. -/
def prevBefore (d : Option α) : List α → α → Option α
  | [], _ => none
  | b :: l, a => if b = a then d else prevBefore (some b) l a

/-- Follow the backward link of an entry. -/
def prev (l : List α) (a : α) : Option α := prevBefore none l a

/-- Link a new entry behind a pointer. -/
def insertAfter : List α → Option α → α → List α
  | l, none, a => a :: l
  | [], some _, _ => []
  | c :: l, some b, a => if c = b then c :: a :: l else c :: insertAfter l (some b) a

/-! ## Following links -/

/-- The entry behind another one is in the list. -/
lemma nextAfter_mem (h : nextAfter l a = some b) : b ∈ l := by
  induction l with
  | nil => simp [nextAfter] at h
  | cons c l ih =>
    unfold nextAfter at h
    split_ifs at h with hc
    · exact .tail _ (mem_of_mem_head? h)
    · exact .tail _ (ih h)

/-- The entry behind `x` is the head of what follows. -/
lemma nextAfter_eq (hn : l.Nodup) (h : l = xs ++ x :: ys) : nextAfter l x = ys.head? := by
  subst h
  induction xs with
  | nil => simp [nextAfter]
  | cons c xs ih =>
    rw [cons_append, nodup_cons] at hn
    have hcx : c ≠ x := by rintro rfl; simp at hn
    rw [cons_append, nextAfter, if_neg hcx, ih hn.2]

/-- A forward link stays in the list. -/
lemma next_mem_ptrs (l : List α) (q : Option α) : next l q ∈ ptrs l := by
  cases h : next l q with
  | none => simp
  | some b =>
    rw [some_mem_ptrs]
    cases q with
    | none => exact mem_of_mem_head? h
    | some a => exact nextAfter_mem h

/-- The entry before another one is in the list, or stands before it. -/
lemma prevBefore_mem {d : Option α} (h : prevBefore d l a = some b) : d = some b ∨ b ∈ l := by
  induction l generalizing d with
  | nil => simp [prevBefore] at h
  | cons c l ih =>
    unfold prevBefore at h
    split_ifs at h with hc
    · exact .inl h
    · rcases ih h with h' | h'
      · right; simp_all
      · right; simp [h']

/-- A backward link stays in the list. -/
lemma prev_mem_ptrs (l : List α) (a : α) : prev l a ∈ ptrs l := by
  cases h : prev l a with
  | none => simp
  | some b =>
    rw [some_mem_ptrs]
    rcases prevBefore_mem h with h' | h'
    · cases h'
    · exact h'

/-- The entry before `a` has `a` behind it. -/
lemma nextAfter_cons_prevBefore (hn : (c :: l).Nodup) (ha : a ∈ l) :
    ∃ b, prevBefore (some c) l a = some b ∧ nextAfter (c :: l) b = some a := by
  induction l generalizing c with
  | nil => simp at ha
  | cons d l ih =>
    rw [nodup_cons] at hn
    by_cases hd : d = a
    · exact ⟨c, by simp [prevBefore, hd], by simp [nextAfter, hd]⟩
    · have hal : a ∈ l := mem_of_ne_of_mem (Ne.symm hd) ha
      obtain ⟨b, hb, hnext⟩ := ih hn.2 hal
      refine ⟨b, by simp [prevBefore, hd, hb], ?_⟩
      have hbc : c ≠ b := by
        rintro rfl
        rcases prevBefore_mem hb with h | h
        · exact hn.1 (by simp [Option.some.inj h])
        · exact hn.1 (by simp [h])
      rw [nextAfter, if_neg hbc, hnext]

/-- The forward link of the predecessor leads back. -/
lemma next_prev (hn : l.Nodup) (ha : a ∈ l) : next l (prev l a) = some a := by
  cases l with
  | nil => simp at ha
  | cons c l =>
    by_cases hc : c = a
    · simp [prev, prevBefore, hc, next]
    · have hal : a ∈ l := mem_of_ne_of_mem (Ne.symm hc) ha
      obtain ⟨b, hb, hnext⟩ := nextAfter_cons_prevBefore hn hal
      rw [prev, prevBefore, if_neg hc, hb]
      exact hnext

/-- No entry is behind itself. -/
lemma nextAfter_ne_self (hn : l.Nodup) (a : α) : nextAfter l a ≠ some a := by
  induction l with
  | nil => simp [nextAfter]
  | cons b l ih =>
    rw [nodup_cons] at hn
    unfold nextAfter
    split_ifs with hb
    · intro h
      exact hn.1 (hb ▸ mem_of_mem_head? h)
    · exact ih hn.2

/-- No entry is before itself. -/
lemma prev_ne_self (hn : l.Nodup) (ha : a ∈ l) : prev l a ≠ some a := by
  intro h
  have := next_prev hn ha
  rw [h] at this
  exact nextAfter_ne_self hn a this

/-! ## Linking an entry -/

/-- Linking adds the one entry. -/
lemma insertAfter_perm (a : α) (hr : r ∈ ptrs l) : (insertAfter l r a).Perm (a :: l) := by
  cases r with
  | none => cases l <;> exact List.Perm.refl _
  | some b =>
    rw [some_mem_ptrs] at hr
    induction l with
    | nil => simp at hr
    | cons c l ih =>
      unfold insertAfter
      split_ifs with hc
      · exact List.Perm.swap a c l
      · have hbl : b ∈ l := mem_of_ne_of_mem (Ne.symm hc) hr
        exact ((ih hbl).cons c).trans (List.Perm.swap a c l)

/-- Linking behind an entry keeps the first one. -/
lemma head?_insertAfter_some (a : α) : (insertAfter l (some b) a).head? = l.head? := by
  cases l with
  | nil => rfl
  | cons c l => unfold insertAfter; split_ifs <;> rfl

/-- The links of the entries after an entry was linked. -/
lemma nextAfter_insertAfter (ha : a ∉ l) (hb : b ∈ l) (x : α) :
    nextAfter (insertAfter l (some b) a) x =
      if x = b then some a else if x = a then nextAfter l b else nextAfter l x := by
  induction l with
  | nil => simp at hb
  | cons c l ih =>
    rw [mem_cons, not_or] at ha
    by_cases hcb : c = b
    · subst hcb
      by_cases hx : x = c
      · simp [insertAfter, nextAfter, hx]
      · by_cases hxa : x = a
        · simp [insertAfter, nextAfter, hxa, ha.1, Ne.symm ha.1]
        · simp [insertAfter, nextAfter, hx, hxa, Ne.symm hx, Ne.symm hxa]
    · have hbl : b ∈ l := mem_of_ne_of_mem (Ne.symm hcb) hb
      rw [insertAfter]
      by_cases hcx : c = x
      · subst hcx
        simp [nextAfter, hcb, head?_insertAfter_some, Ne.symm ha.1]
      · simp only [nextAfter, if_neg hcx, if_neg hcb]
        exact ih ha.2 hbl

/-- Linking changes two forward links: the one of `r` and the one of the new entry. -/
lemma next_insertAfter (ha : a ∉ l) (hr : r ∈ ptrs l) (q : Option α) :
    next (insertAfter l r a) q =
      if q = r then some a else if q = some a then next l r else next l q := by
  cases r with
  | none =>
    cases q with
    | none => simp [insertAfter, next]
    | some x =>
      by_cases hx : x = a
      · simp [insertAfter, next, nextAfter, hx]
      · simp [insertAfter, next, nextAfter, hx, Ne.symm hx]
  | some b =>
    rw [some_mem_ptrs] at hr
    cases q with
    | none => simp [next, head?_insertAfter_some]
    | some x => simp [next, nextAfter_insertAfter ha hr]

/-! ## Unlinking an entry -/

/-- The links of the other entries after an entry was unlinked. -/
lemma nextAfter_erase_of_ne (hn : (c :: l).Nodup) (ha : a ∈ l) (hx : x ≠ a) :
    nextAfter (c :: l.erase a) x =
      if some x = prevBefore (some c) l a then nextAfter l a else nextAfter (c :: l) x := by
  induction l generalizing c with
  | nil => simp at ha
  | cons d l ih =>
    have hcd : c ≠ d := by rintro rfl; simp at hn
    rw [nodup_cons] at hn
    by_cases hda : d = a
    · subst hda
      by_cases hxc : c = x
      · simp [nextAfter, prevBefore, hxc]
      · have hxc' : x ≠ c := Ne.symm hxc
        simp [nextAfter, prevBefore, hxc, hxc', Ne.symm hx]
    · have hal : a ∈ l := mem_of_ne_of_mem (Ne.symm hda) ha
      have hrec := ih hn.2 hal
      rw [erase_cons_tail (by simpa using hda)]
      by_cases hxc : c = x
      · subst hxc
        have hne : some c ≠ prevBefore (some d) l a := by
          intro h
          rcases prevBefore_mem h.symm with h' | h'
          · exact hcd (Option.some.inj h').symm
          · exact hn.1 (by simp [h'])
        simp [nextAfter, prevBefore, hda, hne]
      · rw [nextAfter, hrec, prevBefore]
        simp only [nextAfter, if_neg hda, if_neg hxc]

/-- Unlinking changes one forward link, the one of the predecessor. -/
lemma next_erase (hn : l.Nodup) (ha : a ∈ l) (hq : q ≠ some a) :
    next (l.erase a) q = if q = prev l a then next l (some a) else next l q := by
  cases l with
  | nil => simp at ha
  | cons c l =>
    by_cases hca : c = a
    · subst hca
      cases q with
      | none => simp [next, prev, prevBefore, nextAfter]
      | some x =>
        have hx : c ≠ x := fun h => hq (by rw [h])
        simp [next, prev, prevBefore, nextAfter, hx]
    · have hal : a ∈ l := mem_of_ne_of_mem (Ne.symm hca) ha
      rw [erase_cons_tail (by simpa using hca)]
      obtain ⟨b, hb, -⟩ := nextAfter_cons_prevBefore hn hal
      cases q with
      | none => simp [next, prev, prevBefore, hca, hb]
      | some x =>
        have hx : x ≠ a := fun h => hq (by rw [h])
        simp only [next, prev, prevBefore]
        rw [nextAfter_erase_of_ne hn hal hx]
        simp only [nextAfter, if_neg hca]

/-! ## Renaming an entry -/

/-- The links of renamed entries. -/
lemma next_map {f : α → α} (hinj : ∀ x ∈ l, ∀ y, q = some y → f x = f y → x = y) :
    next (l.map f) (q.map f) = (next l q).map f := by
  cases q with
  | none => simp [next]
  | some y =>
    simp only [next, Option.map_some]
    induction l with
    | nil => rfl
    | cons c l ih =>
      have hc := hinj c (by simp) y rfl
      have ih := ih fun x hx => hinj x (by simp [hx])
      by_cases hcy : c = y
      · simp [nextAfter, hcy]
      · have hfc : f c ≠ f y := fun h => hcy (hc h)
        simp [nextAfter, hcy, hfc, ih]

/-! ## Relations between neighbours -/

/-- A relation between all neighbours in a list that is not empty. -/
lemma isChain_of_nextAfter (hn : (c :: l).Nodup)
    (h : ∀ x ∈ c :: l, ∀ b, nextAfter (c :: l) x = some b → R (some x) (some b)) :
    List.IsChain R ((c :: l).map some) := by
  induction l generalizing c with
  | nil => simp
  | cons d l ih =>
    rw [nodup_cons] at hn
    rw [map_cons, map_cons, isChain_cons_cons]
    refine ⟨h c (by simp) d (by simp [nextAfter]), ih hn.2 fun x hx b hb => ?_⟩
    have hcx : c ≠ x := fun h => hn.1 (h ▸ hx)
    exact h x (.tail _ hx) b (by rw [nextAfter, if_neg hcx, hb])

/-- A relation along all forward links is a chain over the pointers. -/
lemma isChain_ptrs (hn : l.Nodup) (h : ∀ q ∈ ptrs l, ∀ b, next l q = some b → R q (some b)) :
    List.IsChain R (ptrs l) := by
  cases l with
  | nil => simp [ptrs]
  | cons c l =>
    rw [ptrs, map_cons, isChain_cons_cons]
    exact ⟨h none (by simp) c rfl,
      isChain_of_nextAfter hn fun x hx b hb => h (some x) (by simpa using hx) b hb⟩

/-! ## Cutting the list in two -/

/-- The entry before `a` is the last one of what comes first. -/
lemma prevBefore_append (d : Option α) (ys : List α) (ha : a ∉ xs) :
    prevBefore d (xs ++ a :: ys) a = xs.getLast?.or d := by
  induction xs generalizing d with
  | nil => simp [prevBefore]
  | cons c xs ih =>
    rw [mem_cons, not_or] at ha
    rw [cons_append, prevBefore, if_neg (Ne.symm ha.1), ih (some c) ha.2, List.getLast?_cons]
    cases xs.getLast? <;> rfl

/-- The backward link at a cut. -/
lemma prev_append (ys : List α) (ha : a ∉ xs) : prev (xs ++ a :: ys) a = xs.getLast? := by
  rw [prev, prevBefore_append none ys ha, Option.or_none]

omit [DecidableEq α] in
/-- A pointer cuts the list behind it. -/
lemma exists_append_of_mem_ptrs (h : r ∈ ptrs l) : ∃ xs ys, l = xs ++ ys ∧ r = xs.getLast? := by
  cases r with
  | none => exact ⟨[], l, rfl, rfl⟩
  | some a =>
    obtain ⟨xs, ys, rfl⟩ := append_of_mem (some_mem_ptrs.1 h)
    exact ⟨xs ++ [a], ys, by simp, by simp⟩

/-- The other pointers stay when an entry is unlinked. -/
lemma mem_ptrs_erase (h : r ∈ ptrs l) (hne : r ≠ some a) : r ∈ ptrs (l.erase a) := by
  cases r with
  | none => simp
  | some b =>
    have hba : b ≠ a := fun hba => hne (by rw [hba])
    exact some_mem_ptrs.2 ((mem_erase_of_ne hba).2 (some_mem_ptrs.1 h))

/-- The forward link at a cut. -/
lemma next_append (hn : (xs ++ ys).Nodup) : next (xs ++ ys) xs.getLast? = ys.head? := by
  rcases eq_nil_or_concat xs with rfl | ⟨zs, z, rfl⟩
  · rfl
  · rw [concat_eq_append, List.getLast?_concat]
    rw [concat_eq_append] at hn
    exact nextAfter_eq hn (append_cons zs z ys).symm

/-- Linking at a cut. -/
lemma insertAfter_append (hn : xs.Nodup) (ys : List α) (a : α) :
    insertAfter (xs ++ ys) xs.getLast? a = xs ++ a :: ys := by
  rcases eq_nil_or_concat xs with rfl | ⟨zs, z, rfl⟩
  · simp [insertAfter]
  · rw [concat_eq_append, List.getLast?_concat, append_assoc]
    rw [concat_eq_append, nodup_append] at hn
    have hz : z ∉ zs := fun hz => hn.2.2 z hz z (mem_singleton_self z) rfl
    clear hn
    induction zs with
    | nil => simp [insertAfter]
    | cons c zs ih =>
      rw [mem_cons, not_or] at hz
      rw [cons_append, insertAfter, if_neg (Ne.symm hz.1), ih hz.2]
      rfl

/-- Unlinking undoes linking. -/
lemma erase_insertAfter (ha : a ∉ l) (r : Option α) : (insertAfter l r a).erase a = l := by
  cases r with
  | none => cases l <;> simp [insertAfter]
  | some b =>
    induction l with
    | nil => rfl
    | cons c l ih =>
      rw [mem_cons, not_or] at ha
      rw [insertAfter]
      split_ifs <;> simp [Ne.symm ha.1, ih ha.2]

/-- Linking behind the old predecessor undoes unlinking. -/
lemma insertAfter_prev_erase (hn : l.Nodup) (ha : a ∈ l) :
    insertAfter (l.erase a) (prev l a) a = l := by
  obtain ⟨xs, ys, rfl⟩ := append_of_mem ha
  have hx : a ∉ xs := fun hx => (nodup_append.1 hn).2.2 a hx a (by simp) rfl
  rw [prev_append ys hx, erase_append_right _ hx, erase_cons_head]
  exact insertAfter_append (nodup_append.1 hn).1 ys a

end KmsDrm.Lib.CircList
