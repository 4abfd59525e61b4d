import KmsDrm.I915.SyncMap.Basic

/-!
# The tree of a sync map

The invariant of the heap of layers is local: it speaks of a layer and its neighbours. It says
that the pointers to children and to parents belong together, that heights go down by multiples
of four, that the prefix of a child continues the prefix of its parent, and that at most one layer
has no parent. From this it follows that the layers which cover an identifier lie on one path, so
that climbing and descending find the leaf of an identifier if there is one.

## Main results

* `I915.SyncMap.TreeInv.anc_of_covers` — a layer that covers an identifier is above its
  leaf.
* `I915.SyncMap.climbLater_spec`, `I915.SyncMap.descendLater_spec`,
  `I915.SyncMap.climbSet_spec`, `I915.SyncMap.climbTop_spec` — what the loops find,
  and that 16 turns are enough.
-/

namespace KmsDrm.I915.SyncMap

open Option

variable {m n : Layer} {a b id l p : ℕ}

/-- The identifier is below the layer. -/
def Layer.Covers (n : Layer) (id : ℕ) : Prop := n.branchPrefix id = n.pfx

instance (n : Layer) (id : ℕ) : Decidable (n.Covers id) := inferInstanceAs (Decidable (_ = _))

/-- The layer `m` is the child of `n` in the slot `i`, by its prefix and its height. -/
structure Fits (n m : Layer) (i : ℕ) : Prop where
  idx : i < 16
  height : m.height < n.height
  pfx : m.pfx >>> (n.height - m.height - 4) = 16 * n.pfx + i

/-- The invariant of the heap of layers. -/
structure TreeInv (nodes : ℕ → Option Layer) : Prop where
  /-- Heights are multiples of four, and a layer covers identifiers of 64 bits. -/
  height : ∀ a n, nodes a = some n → 4 ∣ n.height ∧ n.height ≤ 60 ∧ n.pfx < 2 ^ (60 - n.height)
  /-- A child points back to its parent and continues its prefix. -/
  child : ∀ a n i b, nodes a = some n → n.height ≠ 0 → n.child i = some b →
    ∃ m, nodes b = some m ∧ m.parent = some a ∧ Fits n m i
  /-- The bitmap of a branch says which slots have a child. -/
  bitmap : ∀ a n i, nodes a = some n → n.height ≠ 0 →
    (n.bitmap.getLsbD i = true ↔ n.child i ≠ none)
  /-- A parent has the layer in one of its slots. -/
  parent : ∀ b m a, nodes b = some m → m.parent = some a →
    ∃ n i, nodes a = some n ∧ n.height ≠ 0 ∧ n.child i = some b
  /-- At most one layer has no parent. -/
  top : ∀ a b n m, nodes a = some n → nodes b = some m → n.parent = none → m.parent = none → a = b

/-- The layer `a` is the layer `b` or above it. -/
inductive Anc (nodes : ℕ → Option Layer) : ℕ → ℕ → Prop
  | refl (a : ℕ) : Anc nodes a a
  | up {a b c : ℕ} {m : Layer} (h : Anc nodes b c) (hb : nodes b = some m)
      (ha : m.parent = some a) : Anc nodes a c

/-! ## Prefixes -/

lemma and_mask (x : ℕ) : x &&& mask = x % 16 := Nat.and_two_pow_sub_one_eq_mod x 4

lemma Layer.Covers.shiftRight (h : n.Covers id) :
    id >>> n.height = 16 * n.pfx + n.branchIdx id := by
  unfold Layer.Covers Layer.branchPrefix shift at h
  unfold Layer.branchIdx
  rw [and_mask]
  omega

lemma Layer.covers_of_shiftRight {i : ℕ} (hi : i < 16) (h : id >>> n.height = 16 * n.pfx + i) :
    n.Covers id ∧ n.branchIdx id = i := by
  unfold Layer.Covers Layer.branchPrefix Layer.branchIdx shift
  rw [and_mask]
  omega

lemma Layer.branchIdx_lt (n : Layer) (id : ℕ) : n.branchIdx id < 16 := by
  unfold Layer.branchIdx
  rw [and_mask]
  exact Nat.mod_lt _ (by decide)

lemma Fits.covers {i : ℕ} (h : Fits n m i) (hn : 4 ∣ n.height) (hm : 4 ∣ m.height)
    (hc : m.Covers id) : n.Covers id ∧ n.branchIdx id = i := by
  apply Layer.covers_of_shiftRight h.idx
  have hlt := h.height
  have hsum : n.height = m.height + 4 + (n.height - m.height - 4) := by omega
  unfold Layer.Covers Layer.branchPrefix shift at hc
  rw [hsum, Nat.shiftRight_add, Nat.shiftRight_add, hc]
  exact h.pfx

lemma Layer.covers_leaf (h : n.height = 0) (id : ℕ) : n.Covers id ↔ leafPrefix id = n.pfx := by
  unfold Layer.Covers Layer.branchPrefix leafPrefix
  rw [h, Nat.shiftRight_zero]

/-! ## Paths -/

lemma Anc.trans {nodes : ℕ → Option Layer} {c : ℕ} (h : Anc nodes a b) (h' : Anc nodes b c) :
    Anc nodes a c := by
  induction h with
  | refl => exact h'
  | up _ hb ha ih => exact .up (ih h') hb ha

namespace TreeInv

variable {nodes : ℕ → Option Layer} (hi : TreeInv nodes)

include hi

lemma child_fits {i : ℕ} (ha : nodes a = some n) (hne : n.height ≠ 0)
    (hchild : n.child i = some b) (hb : nodes b = some m) : Fits n m i := by
  obtain ⟨m', hm', -, hfits⟩ := hi.child a n i b ha hne hchild
  obtain rfl := mem_unique hb hm'
  exact hfits

lemma child_ne {i : ℕ} (ha : nodes a = some n) (hne : n.height ≠ 0)
    (hchild : n.child i = some b) : b ≠ a := by
  rintro rfl
  exact absurd (hi.child_fits ha hne hchild ha).height (Nat.lt_irrefl _)

lemma parent_covers (hb : nodes b = some m) (ha : m.parent = some a) (hc : m.Covers id) :
    ∃ n, nodes a = some n ∧ n.height ≠ 0 ∧ m.height < n.height ∧ n.Covers id ∧
      n.child (n.branchIdx id) = some b := by
  obtain ⟨n, i, hn, hne, hchild⟩ := hi.parent b m a hb ha
  have hfits := hi.child_fits hn hne hchild hb
  obtain ⟨hcov, hidx⟩ := hfits.covers (hi.height a n hn).1 (hi.height b m hb).1 hc
  exact ⟨n, hn, hne, hfits.height, hcov, hidx ▸ hchild⟩

lemma parent_height (hb : nodes b = some m) (ha : m.parent = some a) :
    ∃ n, nodes a = some n ∧ n.height ≠ 0 ∧ m.height + 4 ≤ n.height ∧ n.height ≤ 60 := by
  obtain ⟨n, i, hn, hne, hchild⟩ := hi.parent b m a hb ha
  have hfits := hi.child_fits hn hne hchild hb
  have hlt := hfits.height
  obtain ⟨h4, hle, -⟩ := hi.height a n hn
  have h4' := (hi.height b m hb).1
  exact ⟨n, hn, hne, by omega, hle⟩

lemma anc_covers (h : Anc nodes a b) (hb : nodes b = some m) (hc : m.Covers id) :
    ∃ n, nodes a = some n ∧ n.Covers id := by
  induction h with
  | refl => exact ⟨m, hb, hc⟩
  | up _ hb' ha ih =>
    obtain ⟨n, hn, hcov⟩ := ih hb
    obtain rfl := mem_unique hb' hn
    obtain ⟨n', hn', -, -, hcov', -⟩ := hi.parent_covers hb' ha hcov
    exact ⟨n', hn', hcov'⟩

lemma exists_top (hb : nodes b = some m) :
    ∃ a n, Anc nodes a b ∧ nodes a = some n ∧ n.parent = none := by
  -- induction on what is left up to the greatest height
  induction hk : 60 - m.height using Nat.strongRecOn generalizing b m with
  | ind k ih =>
    rcases ha : m.parent with _ | a
    · exact ⟨b, m, .refl b, hb, ha⟩
    · obtain ⟨n, hn, -, hlt, hle⟩ := hi.parent_height hb ha
      obtain ⟨t, nt, hanc, ht, htop⟩ := ih (60 - n.height) (by omega) hn rfl
      exact ⟨t, nt, hanc.trans (.up (.refl b) hb ha), ht, htop⟩

lemma top_covers {t : ℕ} (ht : nodes t = some n) (htop : n.parent = none) (hb : nodes b = some m)
    (hc : m.Covers id) :
    n.Covers id ∧ Anc nodes t b := by
  obtain ⟨a, na, hanc, ha, hnone⟩ := hi.exists_top hb
  obtain rfl := hi.top a t na n ha ht hnone htop
  obtain ⟨n', hn', hcov⟩ := hi.anc_covers hanc hb hc
  obtain rfl := mem_unique ht hn'
  exact ⟨hcov, hanc⟩

/-- Between a branch and the leaf of an identifier below it is the layer in the slot of the
identifier. -/
lemma child_of_anc (hp : nodes p = some n) (hne : n.height ≠ 0) (hl : nodes l = some m)
    (hm : m.height = 0) (hlc : m.Covers id) (hanc : Anc nodes p l) :
    ∃ q nq, n.child (n.branchIdx id) = some q ∧ nodes q = some nq ∧ nq.Covers id ∧
      Anc nodes q l := by
  cases hanc with
  | refl =>
    obtain rfl := mem_unique hp hl
    exact absurd hm hne
  | @up _ b _ nb hb hnb hpar =>
    obtain ⟨nb', hnb', hcb⟩ := hi.anc_covers hb hl hlc
    obtain rfl := mem_unique hnb hnb'
    obtain ⟨n', hn', -, -, -, hchild⟩ := hi.parent_covers hnb hpar hcb
    obtain rfl := mem_unique hp hn'
    exact ⟨b, nb, hchild, hnb, hcb, hb⟩

/-- **The layers that cover an identifier lie on one path.** A layer that covers an identifier is
the leaf of the identifier or above it.

**Proof sketch.** Induction from the top down. The layer without a parent is above every layer.
Below it, the parent of the layer covers the identifier too, so it is above the leaf. The next
layer on the path to the leaf covers the identifier, so it is in the same slot of the parent as
the given layer. -/
lemma anc_of_covers (hp : nodes p = some n) (hc : n.Covers id) (hl : nodes l = some m)
    (hm : m.height = 0) (hlc : m.Covers id) : Anc nodes p l := by
  induction hk : 60 - n.height using Nat.strongRecOn generalizing p n with
  | ind k ih =>
    rcases ha : n.parent with _ | a
    · exact (hi.top_covers hp ha hl hlc).2
    · obtain ⟨na, hna, hne, hlt, hcov, hchild⟩ := hi.parent_covers hp ha hc
      have hle := (hi.height a na hna).2.1
      obtain ⟨b, nb, hchild', -, -, hb⟩ :=
        hi.child_of_anc hna hne hl hm hlc (ih (60 - na.height) (by omega) hna hcov rfl)
      obtain rfl := mem_unique hchild hchild'
      exact hb

lemma leaf_unique {l' : ℕ} {m' : Layer} (hl : nodes l = some m) (hm : m.height = 0)
    (hc : m.Covers id) (hl' : nodes l' = some m') (hm' : m'.height = 0) (hc' : m'.Covers id) :
    l = l' := by
  cases hi.anc_of_covers hl hc hl' hm' hc' with
  | refl => rfl
  | up _ hb ha =>
    obtain ⟨n, hn, hne, -⟩ := hi.parent_height hb ha
    obtain rfl := mem_unique hl hn
    exact absurd hm hne

end TreeInv

/-! ## The loops -/

section Loops

variable {s : State} (hi : TreeInv s.nodes) {id : ℕ}

include hi

/-- Climbing from a layer that does not cover the identifier: it finds a branch that covers it, or
no layer does. -/
lemma climbLater_spec (turns : ℕ) (hp : s.nodes p = some n) (hc : ¬ n.Covers id)
    (ht : 60 - n.height < 4 * turns) :
    ∃ r, climbLater s id turns p = some r ∧
      match r with
      | some q => ∃ m, s.nodes q = some m ∧ m.Covers id
      | none => ∀ a m, s.nodes a = some m → ¬ m.Covers id := by
  induction turns generalizing p n with
  | zero => omega
  | succ turns ih =>
    simp only [climbLater, hp, bind_eq_bind, bind_some]
    rcases hpar : n.parent with _ | q
    · exact ⟨none, rfl, fun a m ha hm => hc (hi.top_covers hp hpar ha hm).1⟩
    · obtain ⟨m, hq, -, hlt, hle⟩ := hi.parent_height hp hpar
      simp only [hq, bind_some]
      by_cases hm : m.branchPrefix id = m.pfx
      · rw [if_pos hm]
        exact ⟨some q, rfl, m, hq, hm⟩
      · rw [if_neg hm]
        exact ih hq hm (by omega)

variable (id) in
/-- Climbing in order to set a value: it finds a branch that covers the identifier, or the layer
without a parent. -/
lemma climbSet_spec (turns : ℕ) (hp : s.nodes p = some n) (ht : 60 - n.height < 4 * turns) :
    ∃ q m, climbSet s id turns p = some q ∧ s.nodes q = some m ∧
      (m.Covers id ∨ m.parent = none) := by
  induction turns generalizing p n with
  | zero => omega
  | succ turns ih =>
    simp only [climbSet, hp, bind_eq_bind, bind_some]
    rcases hpar : n.parent with _ | q
    · exact ⟨p, n, rfl, hp, .inr hpar⟩
    · obtain ⟨m, hq, -, hlt, hle⟩ := hi.parent_height hp hpar
      simp only [hq, bind_some]
      by_cases hm : m.branchPrefix id = m.pfx
      · rw [if_pos hm]
        exact ⟨q, m, rfl, hq, .inl hm⟩
      · rw [if_neg hm]
        exact ih hq (by omega)

omit id in
lemma climbTop_spec (turns : ℕ) (hp : s.nodes p = some n) (ht : 60 - n.height < 4 * turns) :
    ∃ q m, climbTop s turns p = some q ∧ s.nodes q = some m ∧ m.parent = none := by
  induction turns generalizing p n with
  | zero => omega
  | succ turns ih =>
    simp only [climbTop, hp, bind_eq_bind, bind_some]
    rcases hpar : n.parent with _ | q
    · exact ⟨p, n, rfl, hp, hpar⟩
    · obtain ⟨m, hq, -, hlt, hle⟩ := hi.parent_height hp hpar
      exact ih hq (by omega)

/-- Descending from a layer that covers the identifier: it finds the leaf of the identifier, or
there is none. -/
lemma descendLater_spec (turns : ℕ) (hp : s.nodes p = some n) (hc : n.Covers id)
    (ht : n.height < 4 * turns) :
    ∃ r, descendLater s id turns p = some r ∧
      match r with
      | some q => ∃ m, s.nodes q = some m ∧ m.height = 0 ∧ m.Covers id
      | none => ∀ a m, s.nodes a = some m → m.height = 0 → ¬ m.Covers id := by
  induction turns generalizing p n with
  | zero => omega
  | succ turns ih =>
    simp only [descendLater, hp, bind_eq_bind, bind_some]
    by_cases hh : n.height = 0
    · rw [if_pos hh]
      exact ⟨some p, rfl, n, hp, hh, hc⟩
    · rw [if_neg hh]
      rcases hchild : n.child (n.branchIdx id) with _ | q
      · refine ⟨none, rfl, fun a m ha hm hcm => ?_⟩
        obtain ⟨q, nq, hq, -⟩ :=
          hi.child_of_anc hp hh ha hm hcm (hi.anc_of_covers hp hc ha hm hcm)
        simp [hchild] at hq
      · obtain ⟨m, hq, -, hfits⟩ := hi.child p n _ q hp hh hchild
        have hlt := hfits.height
        have h4 := (hi.height p n hp).1
        simp only [hq, bind_some]
        by_cases hm : m.branchPrefix id = m.pfx
        · rw [if_neg (not_not.2 hm)]
          exact ih hq hm (by omega)
        · rw [if_pos hm]
          refine ⟨none, rfl, fun a ma ha hma hcm => ?_⟩
          obtain ⟨q', nq, hq', hnq, hcov, -⟩ :=
            hi.child_of_anc hp hh ha hma hcm (hi.anc_of_covers hp hc ha hma hcm)
          obtain rfl := mem_unique hchild hq'
          obtain rfl := mem_unique hq hnq
          exact hm hcov

end Loops

end KmsDrm.I915.SyncMap
