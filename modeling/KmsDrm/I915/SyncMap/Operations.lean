import KmsDrm.I915.SyncMap.Insert

/-!
# The functions of a sync map

What each function does to the map that the heap represents. No function fails, and every one of
them leaves a tree, with the pointer to a leaf of it or to nothing.

## Main results

* `I915.SyncMap.isLater_spec`, `I915.SyncMap.set_spec` — one specification for each
  function.
-/

namespace KmsDrm.I915.SyncMap

open Function (update update_apply update_of_ne update_self)
open Option

variable {n : Layer} {s : State} {id p : ℕ} {nodes : ℕ → Option Layer}

/-- The invariant of a sync map: the heap is a tree, and the pointer is null if it is empty and
points to a leaf else. -/
structure Inv (s : State) : Prop where
  tree : TreeInv s.nodes
  fresh : ∀ a, s.fresh ≤ a → s.nodes a = none
  empty : s.root = none → ∀ a, s.nodes a = none
  leaf : ∀ p, s.root = some p → ∃ n, s.nodes p = some n ∧ n.height = 0

lemma ne_of_none {a : ℕ} (ha : nodes a = none) (hp : nodes p = some n) : a ≠ p := by
  rintro rfl
  simp [ha] at hp

/-! ## The value of an identifier -/

lemma leafAt_eq_some {a pfx : ℕ} {bitmap : BitVec 32} {seqno : ℕ → BitVec 32} :
    leafAt nodes a = some (pfx, bitmap, seqno) ↔
      ∃ n, nodes a = some n ∧ n.height = 0 ∧ n.pfx = pfx ∧ n.bitmap = bitmap ∧ n.seqno = seqno := by
  unfold leafAt
  constructor
  · intro h
    obtain ⟨n, hn, hif⟩ := bind_eq_some_iff.1 h
    split_ifs at hif with hh
    simp only [Option.some.injEq, Prod.mk.injEq] at hif
    exact ⟨n, hn, hh, hif⟩
  · rintro ⟨n, hn, hh, rfl, rfl, rfl⟩
    simp [hn, hh]

lemma TreeInv.value_iff (hi : TreeInv nodes) (hp : nodes p = some n) (hh : n.height = 0)
    (hc : n.Covers id) (v : BitVec 32) :
    Value nodes id v ↔ n.bitmap.getLsbD (leafIdx id) = true ∧ n.seqno (leafIdx id) = v := by
  constructor
  · rintro ⟨a, bitmap, seqno, hleaf, hbit, hv⟩
    obtain ⟨m, hm, hmh, hpfx, rfl, rfl⟩ := leafAt_eq_some.1 hleaf
    have hmc : m.Covers id := (Layer.covers_leaf hmh id).2 hpfx.symm
    obtain rfl := hi.leaf_unique hp hh hc hm hmh hmc
    obtain rfl := mem_unique hp hm
    exact ⟨hbit, hv⟩
  · rintro ⟨hbit, hv⟩
    refine ⟨p, n.bitmap, n.seqno, leafAt_eq_some.2 ⟨n, hp, hh, ?_, rfl, rfl⟩, hbit, hv⟩
    exact ((Layer.covers_leaf hh id).1 hc).symm

lemma not_value_of_not_covers (nodes : ℕ → Option Layer) (id : ℕ)
    (h : ∀ a m, nodes a = some m → m.height = 0 → ¬ m.Covers id) (v : BitVec 32) :
    ¬ Value nodes id v := by
  rintro ⟨a, bitmap, seqno, hleaf, -, -⟩
  obtain ⟨m, hm, hmh, hpfx, -, -⟩ := leafAt_eq_some.1 hleaf
  exact h a m hm hmh ((Layer.covers_leaf hmh id).2 hpfx.symm)

/-! ## `i915_syncmap_is_later` -/

lemma compareSeqno_spec (hi : TreeInv s.nodes) (hp : s.nodes p = some n) (hh : n.height = 0)
    (hc : n.Covers id) (seqno : BitVec 32) :
    ∃ b, compareSeqno s p id seqno = some (s, b) ∧
      (b = true ↔ ∃ v, Value s.nodes id v ∧ seqnoLater v seqno = true) := by
  simp only [compareSeqno, hp, bugOn, hh, bind_eq_bind, bind_some, ne_eq,
    not_true_eq_false, if_false, hi.value_iff hp hh hc]
  split_ifs with hbit
  · exact ⟨_, rfl, by simp [hbit]⟩
  · exact ⟨_, rfl, by simp [hbit]⟩

/-- **What `i915_syncmap_is_later` returns.** It compares with the value of the identifier; it may
move the pointer to another leaf. -/
theorem isLater_spec (hi : Inv s) (id : ℕ) (seqno : BitVec 32) :
    ∃ s' b, isLater s id seqno = some (s', b) ∧ Inv s' ∧ s'.nodes = s.nodes ∧
      (b = true ↔ ∃ v, Value s.nodes id v ∧ seqnoLater v seqno = true) := by
  unfold isLater
  rcases hroot : s.root with _ | p
  · refine ⟨s, false, rfl, hi, rfl, ?_⟩
    have hnone := hi.empty hroot
    simp [not_value_of_not_covers s.nodes id (by simp [hnone])]
  · obtain ⟨n, hp, hh⟩ := hi.leaf p hroot
    simp only [hp, bugOn, hh, bind_eq_bind, bind_some, ne_eq, not_true_eq_false,
      if_false]
    split_ifs with hpfx
    · obtain ⟨b, hb, hiff⟩ := compareSeqno_spec hi.tree hp hh
        ((Layer.covers_leaf hh id).2 hpfx) seqno
      exact ⟨s, b, hb, hi, rfl, hiff⟩
    · have hnc : ¬ n.Covers id := fun h => hpfx ((Layer.covers_leaf hh id).1 h)
      obtain ⟨r, hr, hspec⟩ := climbLater_spec hi.tree 16 hp hnc (by omega)
      rw [hr]
      rcases r with _ | q
      · refine ⟨s, false, rfl, hi, rfl, ?_⟩
        simp [not_value_of_not_covers s.nodes id fun a m ha _ => hspec a m ha]
      · obtain ⟨m, hq, hcov⟩ := hspec
        have hle := (hi.tree.height q m hq).2.1
        obtain ⟨r', hr', hspec'⟩ := descendLater_spec hi.tree 16 hq hcov (by omega)
        simp only [bind_some, hr']
        rcases r' with _ | l
        · refine ⟨s, false, rfl, hi, rfl, ?_⟩
          simp [not_value_of_not_covers s.nodes id hspec']
        · obtain ⟨ml, hl, hlh, hlc⟩ := hspec'
          obtain ⟨b, hb, hiff⟩ := compareSeqno_spec (s := { s with root := some l }) hi.tree hl hlh
            hlc seqno
          refine ⟨_, b, hb, ⟨hi.tree, hi.fresh, by simp, ?_⟩, rfl, hiff⟩
          intro p' hp'
          cases hp'
          exact ⟨ml, hl, hlh⟩

/-! ## `i915_syncmap_set` -/

lemma eq_of_leafPrefix_leafIdx {id' : ℕ} (hp : leafPrefix id' = leafPrefix id)
    (hidx : leafIdx id' = leafIdx id) : id' = id := by
  unfold leafPrefix shift at hp
  unfold leafIdx at hidx
  rw [and_mask, and_mask] at hidx
  omega

lemma leafIdx_lt (id : ℕ) : leafIdx id < 16 := by
  unfold leafIdx
  rw [and_mask]
  exact Nat.mod_lt _ (by decide)

lemma TreeInv.update_leaf (hi : TreeInv nodes) (n' : Layer) (hp : nodes p = some n)
    (hh : n.height = 0) (hpfx : n'.pfx = n.pfx) (hheight : n'.height = n.height)
    (hparent : n'.parent = n.parent) :
    TreeInv (update nodes p (some n')) := by
  -- every layer has the same prefix, height and parent as before, and a branch is the same
  have key : ∀ a m, update nodes p (some n') a = some m → ∃ m0, nodes a = some m0 ∧
      m.pfx = m0.pfx ∧ m.height = m0.height ∧ m.parent = m0.parent ∧ (m.height ≠ 0 → m = m0) := by
    intro a m ha
    by_cases hap : a = p
    · subst hap
      rw [update_self] at ha
      cases ha
      exact ⟨n, hp, hpfx, hheight, hparent, fun hne => absurd (hheight.trans hh) hne⟩
    · rw [update_of_ne hap] at ha
      exact ⟨m, ha, rfl, rfl, rfl, fun _ => rfl⟩
  have back : ∀ a m0, nodes a = some m0 → ∃ m, update nodes p (some n') a = some m ∧
      m.pfx = m0.pfx ∧ m.height = m0.height ∧ m.parent = m0.parent ∧ (m.height ≠ 0 → m = m0) := by
    intro a m0 ha
    by_cases hap : a = p
    · subst hap
      obtain rfl := mem_unique hp ha
      exact ⟨n', update_self .., hpfx, hheight, hparent,
        fun hne => absurd (hheight.trans hh) hne⟩
    · exact ⟨m0, (update_of_ne hap ..).trans ha, rfl, rfl, rfl, fun _ => rfl⟩
  constructor
  · intro a m ha
    obtain ⟨m0, hm0, h1, h2, -, -⟩ := key a m ha
    rw [h1, h2]
    exact hi.height a m0 hm0
  · intro a m i b ha hne hb
    obtain ⟨m0, hm0, -, -, -, heq⟩ := key a m ha
    obtain rfl := heq hne
    obtain ⟨c0, hc0, hpar, hfits⟩ := hi.child a m i b hm0 hne hb
    obtain ⟨c, hc, h1, h2, h3, -⟩ := back b c0 hc0
    exact ⟨c, hc, h3.trans hpar, hfits.congr rfl rfl h2 h1⟩
  · intro a m i ha hne
    obtain ⟨m0, hm0, -, -, -, heq⟩ := key a m ha
    obtain rfl := heq hne
    exact hi.bitmap a m i hm0 hne
  · intro b m a hb ha
    obtain ⟨m0, hm0, -, -, h3, -⟩ := key b m hb
    obtain ⟨c0, i, hc0, hne, hchild⟩ := hi.parent b m0 a hm0 (h3 ▸ ha)
    obtain ⟨c, hc, -, h2, -, heq⟩ := back a c0 hc0
    have hne' : c.height ≠ 0 := h2 ▸ hne
    obtain rfl := heq hne'
    exact ⟨c, i, hc, hne, hchild⟩
  · intro a b m m' ha hb hm hm'
    obtain ⟨m0, hm0, -, -, h3, -⟩ := key a m ha
    obtain ⟨m1, hm1, -, -, h3', -⟩ := key b m' hb
    exact hi.top a b m0 m1 hm0 hm1 (h3 ▸ hm) (h3' ▸ hm')

/-- The map after a value was set. -/
def SetTo (nodes nodes' : ℕ → Option Layer) (id : ℕ) (seqno : BitVec 32) : Prop :=
  ∀ id' v, Value nodes' id' v ↔ if id' = id then v = seqno else Value nodes id' v

/-- A leaf with a value set. -/
def Layer.withSeqno (n : Layer) (id : ℕ) (seqno : BitVec 32) : Layer :=
  { n with
    bitmap := n.bitmap ||| (1#32 <<< leafIdx id)
    seqno := update n.seqno (leafIdx id) seqno }

lemma setSeqno_eq (hp : s.nodes p = some n) (hh : n.height = 0) (id : ℕ) (seqno : BitVec 32) :
    setSeqno s p id seqno =
      some { s with nodes := update s.nodes p (some (n.withSeqno id seqno)) } := by
  simp only [setSeqno, hp, bugOn, bind_eq_bind, bind_some]
  rw [if_neg (not_not.2 hh)]
  rfl

lemma TreeInv.setTo_withSeqno (hi : TreeInv nodes) (hp : nodes p = some n) (hh : n.height = 0)
    (hc : n.Covers id) (seqno : BitVec 32) :
    SetTo nodes (update nodes p (some (n.withSeqno id seqno))) id seqno := by
  have hi' := hi.update_leaf (n.withSeqno id seqno) hp hh rfl rfl rfl
  intro id' v
  have hidx := leafIdx_lt id
  by_cases hcov : n.Covers id'
  · -- an identifier of the same leaf
    rw [hi'.value_iff (update_self ..) hh hcov, hi.value_iff hp hh hcov]
    unfold Layer.withSeqno
    rw [getLsbD_setBit _ (by omega)]
    by_cases hid : id' = id
    · subst hid
      simp [eq_comm]
    · have hne : leafIdx id' ≠ leafIdx id := by
        intro heq
        refine hid (eq_of_leafPrefix_leafIdx ?_ heq)
        rw [(Layer.covers_leaf hh id').1 hcov, (Layer.covers_leaf hh id).1 hc]
      simp [hid, hne]
  · -- an identifier of another leaf
    have hid : id' ≠ id := by
      rintro rfl
      exact hcov hc
    have hpfx : n.pfx ≠ leafPrefix id' := fun h => hcov ((Layer.covers_leaf hh id').2 h.symm)
    have hleaf : ∀ a bitmap sq,
        leafAt (update nodes p (some (n.withSeqno id seqno))) a =
          some (leafPrefix id', bitmap, sq) ↔
        leafAt nodes a = some (leafPrefix id', bitmap, sq) := by
      intro a bitmap sq
      by_cases hap : a = p
      · subst hap
        rw [leafAt_eq_some, leafAt_eq_some]
        simp [hp, hpfx, Layer.withSeqno]
      · unfold leafAt
        rw [update_of_ne hap]
    rw [if_neg hid]
    unfold Value
    simp only [hleaf]

/-- The heap `s'` has grown from `s`, with the same values. -/
structure Grown (s s' : State) : Prop where
  tree : TreeInv s'.nodes
  fresh : ∀ a, s'.fresh ≤ a → s'.nodes a = none
  value : ∀ id v, Value s'.nodes id v ↔ Value s.nodes id v
  root : s'.root = s.root
  leaf : ∀ a n, s.nodes a = some n → n.height = 0 → ∃ n', s'.nodes a = some n' ∧ n'.height = 0

lemma Grown.refl (hi : TreeInv s.nodes) (hf : ∀ a, s.fresh ≤ a → s.nodes a = none) : Grown s s :=
  ⟨hi, hf, fun _ _ => Iff.rfl, rfl, fun _ n hn hh => ⟨n, hn, hh⟩⟩

lemma Grown.trans {s' s'' : State} (h : Grown s s') (h' : Grown s' s'') : Grown s s'' := by
  refine ⟨h'.tree, h'.fresh, fun id v => (h'.value id v).trans (h.value id v),
    h'.root.trans h.root, fun a n hn hh => ?_⟩
  obtain ⟨n', hn', hh'⟩ := h.leaf a n hn hh
  exact h'.leaf a n' hn' hh'

lemma leaf_of_leafAt {nodes' : ℕ → Option Layer} {a : ℕ} (h : leafAt nodes' a = leafAt nodes a)
    (hn : nodes a = some n) (hh : n.height = 0) :
    ∃ n', nodes' a = some n' ∧ n'.height = 0 := by
  have hleaf := leafAt_eq_some.2 ⟨n, hn, hh, rfl, rfl, rfl⟩
  rw [← h] at hleaf
  obtain ⟨n', hn', hh', -⟩ := leafAt_eq_some.1 hleaf
  exact ⟨n', hn', hh'⟩

/-- The position of the loop: the layer covers the identifier, or a join belongs above it. -/
def Position (s : State) (p : ℕ) (n : Layer) (id : ℕ) : Prop :=
  s.nodes p = some n ∧ (n.Covers id ∨ JoinSite s p n id)

section Grow

variable (hi : TreeInv s.nodes) (hf : ∀ a, s.fresh ≤ a → s.nodes a = none) (hid : id < 2 ^ 64)

include hi hf hid

lemma grown_joined (h : JoinSite s p n id) :
    Grown s { s with nodes := joined s p n id, fresh := s.fresh + 1 } := by
  have hfresh := hf s.fresh (Nat.le_refl _)
  have hleaf := leafAt_joined hfresh h
  refine ⟨joined_treeInv hi hfresh h hid, ?_, value_congr hleaf, rfl,
    fun a m hm hh => leaf_of_leafAt (hleaf a) hm hh⟩
  intro a ha
  dsimp only at ha ⊢
  have hnone := hf a (by omega)
  rw [joined_of_ne (ne_of_none hnone h.node) (by omega), hnone]
  rfl

lemma grown_leafed (h : LeafSite s p n id) :
    Grown s { s with nodes := leafed s p n id, fresh := s.fresh + 1 } := by
  have hfresh := hf s.fresh (Nat.le_refl _)
  have hleaf := leafAt_leafed hfresh h
  refine ⟨leafed_treeInv hi hfresh h hid, ?_, ?_, rfl, ?_⟩
  · intro a ha
    dsimp only at ha ⊢
    have hnone := hf a (by omega)
    rw [leafed_of_ne (ne_of_none hnone h.node) (by omega), hnone]
  · -- the new leaf has no values
    intro id' v
    constructor
    · rintro ⟨a, bitmap, seqno, ha, hbit, hv⟩
      rw [hleaf] at ha
      split_ifs at ha
      · simp only [Option.some.injEq, Prod.mk.injEq] at ha
        obtain ⟨-, rfl, -⟩ := ha
        simp at hbit
      · exact ⟨a, bitmap, seqno, ha, hbit, hv⟩
    · rintro ⟨a, bitmap, seqno, ha, hbit, hv⟩
      refine ⟨a, bitmap, seqno, ?_, hbit, hv⟩
      rw [hleaf, if_neg, ha]
      rintro rfl
      simp [leafAt, hfresh] at ha
  · intro a m hm hh
    refine leaf_of_leafAt ?_ hm hh
    rw [hleaf, if_neg (ne_fresh hfresh hm)]

lemma enterLayer_spec (alloc : ℕ → Bool) (hp : s.nodes p = some n) (hne : n.height ≠ 0)
    (hc : n.Covers id) :
    ∃ s' r, enterLayer alloc s p id = some (s', r) ∧ Grown s s' ∧
      match r with
      | .next q => s' = s ∧ n.child (n.branchIdx id) = some q
      | .found q => ∃ m, s'.nodes q = some m ∧ m.height = 0 ∧ m.Covers id
      | .enomem => True := by
  simp only [enterLayer, hp, bugOn, hne, bind_eq_bind, bind_some, if_false]
  rcases hchild : n.child (n.branchIdx id) with _ | q
  · split_ifs
    · have hsite : LeafSite s p n id := ⟨hp, hne, hc, hchild⟩
      have hpf : s.fresh ≠ p := Ne.symm (ne_fresh (hf s.fresh (Nat.le_refl _)) hp)
      have hnodes : update (allocLeaf s (some p) id).nodes p
          (some (n.setChild (n.branchIdx id) s.fresh)) = leafed s p n id := by
        funext a
        unfold leafed allocLeaf
        simp only [update_apply]
        rfl
      refine ⟨_, _, rfl, ?_, ?_⟩
      · rw [hnodes]
        exact grown_leafed hi hf hid hsite
      · dsimp only
        rw [hnodes, leafed_fresh hpf]
        exact ⟨_, rfl, rfl, (Layer.covers_leaf rfl id).2 rfl⟩
    · exact ⟨s, .enomem, rfl, Grown.refl hi hf, trivial⟩
  · exact ⟨s, .next q, rfl, Grown.refl hi hf, rfl, rfl⟩

lemma descendTurn_spec (alloc : ℕ → Bool) (h : Position s p n id) :
    ∃ s' r, descendTurn alloc s p id = some (s', r) ∧ Grown s s' ∧
      match r with
      | .next q => ∃ m, Position s' q m id ∧ m.height + 4 ≤ n.height
      | .found q => ∃ m, s'.nodes q = some m ∧ m.height = 0 ∧ m.Covers id
      | .enomem => True := by
  obtain ⟨hp, hpos⟩ := h
  simp only [descendTurn, hp, bind_eq_bind, bind_some]
  by_cases hc : n.branchPrefix id = n.pfx
  · rw [if_neg (not_not.2 hc)]
    by_cases hh : n.height = 0
    · rw [if_pos hh]
      exact ⟨s, .found p, rfl, Grown.refl hi hf, n, hp, hh, hc⟩
    · rw [if_neg hh]
      obtain ⟨s', r, hr, hgrown, hspec⟩ := enterLayer_spec hi hf hid alloc hp hh hc
      refine ⟨s', r, hr, hgrown, ?_⟩
      cases r with
      | next q =>
        -- the child covers the identifier, or a join belongs above it
        obtain ⟨rfl, hchild⟩ := hspec
        obtain ⟨m, hq, hpar, hfits⟩ := hi.child p n _ q hp hh hchild
        have hlt := hfits.height
        have h4 := (hi.height p n hp).1
        have h4' := (hi.height q m hq).1
        refine ⟨m, ⟨hq, ?_⟩, by omega⟩
        by_cases hm : m.Covers id
        · exact .inl hm
        · refine .inr ⟨hq, hm, fun q' hq' => ?_⟩
          obtain rfl := mem_unique hpar hq'
          exact ⟨n, hp, hh, hc, hchild⟩
      | found q => exact hspec
      | enomem => trivial
  · rw [if_pos hc]
    have hsite := hpos.resolve_left hc
    split_ifs
    · -- a join is inserted, and its slot for the identifier is empty
      have hgrown := grown_joined hi hf hid hsite
      have hpf : s.fresh ≠ p := Ne.symm (ne_fresh (hf s.fresh (Nat.le_refl _)) hp)
      have hne : ((n.join id).setChild (n.joinIdx id) p).height ≠ 0 := by
        have := Layer.four_le_above hsite.notCovers
        simp only [Layer.setChild, Layer.join]
        omega
      rw [insertJoin_eq hi hsite]
      obtain ⟨s', r, hr, hgrown', hspec⟩ := enterLayer_spec hgrown.tree hgrown.fresh hid alloc
        (joined_fresh hpf) hne (n.join_covers id)
      refine ⟨s', r, hr, hgrown.trans hgrown', ?_⟩
      cases r with
      | next q =>
        obtain ⟨-, hchild⟩ := hspec
        rw [join_child, if_neg] at hchild
        · cases hchild
        · exact Layer.join_branchIdx_ne hsite.notCovers
      | found q => exact hspec
      | enomem => trivial
    · exact ⟨s, .enomem, rfl, Grown.refl hi hf, trivial⟩

end Grow

lemma descendSet_spec (alloc : ℕ → Bool) (hid : id < 2 ^ 64) (turns : ℕ) (hi : TreeInv s.nodes)
    (hf : ∀ a, s.fresh ≤ a → s.nodes a = none) (h : Position s p n id) (ht : n.height < 4 * turns) :
    ∃ s' r, descendSet alloc id turns s p = some (s', r) ∧ Grown s s' ∧
      ∀ q, r = some q → ∃ m, s'.nodes q = some m ∧ m.height = 0 ∧ m.Covers id := by
  induction turns generalizing s p n with
  | zero => omega
  | succ turns ih =>
    obtain ⟨s1, r, hr, hgrown, hspec⟩ := descendTurn_spec hi hf hid alloc h
    simp only [descendSet, hr]
    cases r with
    | next q =>
      obtain ⟨m, hpos, hlt⟩ := hspec
      obtain ⟨s2, r2, hr2, hgrown2, hspec2⟩ := ih hgrown.tree hgrown.fresh hpos (by omega)
      exact ⟨s2, r2, hr2, hgrown.trans hgrown2, hspec2⟩
    | found q =>
      refine ⟨s1, some q, rfl, hgrown, fun q' hq' => ?_⟩
      cases hq'
      exact hspec
    | enomem => exact ⟨s1, none, rfl, hgrown, by simp⟩

lemma finishSet_spec (hi : TreeInv s.nodes) (hf : ∀ a, s.fresh ≤ a → s.nodes a = none)
    (hp : s.nodes p = some n) (hh : n.height = 0) (hc : n.Covers id) (seqno : BitVec 32) :
    ∃ s', finishSet s p id seqno = some (s', .zero) ∧ Inv s' ∧ SetTo s.nodes s'.nodes id seqno := by
  have hpfx := (Layer.covers_leaf hh id).1 hc
  have hstep : finishSet s p id seqno = some ({ s with
      nodes := update s.nodes p (some (n.withSeqno id seqno)), root := some p }, .zero) := by
    simp only [finishSet, hp, bind_eq_bind, bind_some, hpfx, ne_eq, setSeqno_eq hp hh]
    rfl
  refine ⟨_, hstep, ⟨hi.update_leaf _ hp hh rfl rfl rfl, ?_, by simp, ?_⟩,
    hi.setTo_withSeqno hp hh hc seqno⟩
  · intro a ha
    exact (update_of_ne (ne_of_none (hf a ha) hp) ..).trans (hf a ha)
  · intro p' hp'
    cases hp'
    exact ⟨_, update_self .., hh⟩

lemma allocLeaf_nodes (s : State) (parent : Option ℕ) (id a : ℕ) :
    (allocLeaf s parent id).nodes a = if a = s.fresh then some (newLeaf parent id) else s.nodes a :=
  update_apply ..

lemma allocLeaf_treeInv (hnone : ∀ a, s.nodes a = none) (hid : id < 2 ^ 64) :
    TreeInv (allocLeaf s none id).nodes := by
  have key : ∀ a m, (allocLeaf s none id).nodes a = some m → a = s.fresh ∧ m = newLeaf none id := by
    intro a m ha
    rw [allocLeaf_nodes] at ha
    split_ifs at ha with haf
    · exact ⟨haf, (Option.some.inj ha).symm⟩
    · rw [hnone] at ha
      cases ha
  constructor
  · intro a m ha
    obtain ⟨-, rfl⟩ := key a m ha
    exact newLeaf_height none hid
  · intro a m i b ha hne _
    obtain ⟨-, rfl⟩ := key a m ha
    exact absurd rfl hne
  · intro a m i ha hne
    obtain ⟨-, rfl⟩ := key a m ha
    exact absurd rfl hne
  · intro b m a hb ha
    obtain ⟨-, rfl⟩ := key b m hb
    cases ha
  · intro a b m m' ha hb _ _
    rw [(key a m ha).1, (key b m' hb).1]

/-- **What `__sync_set` does.** -/
theorem syncSet_spec (alloc : ℕ → Bool) (hi : Inv s) (hid : id < 2 ^ 64) (seqno : BitVec 32)
    (hroot : ∀ p n, s.root = some p → s.nodes p = some n → leafPrefix id ≠ n.pfx) :
    ∃ s' r, syncSet alloc s id seqno = some (s', r) ∧ Inv s' ∧
      (r = .zero → SetTo s.nodes s'.nodes id seqno) ∧
      (r = .enomem → ∀ id' v, Value s'.nodes id' v ↔ Value s.nodes id' v) := by
  unfold syncSet
  rcases hr : s.root with _ | p
  · have hnone := hi.empty hr
    split_ifs
    · have hleaf : (allocLeaf s none id).nodes s.fresh = some (newLeaf none id) := update_self ..
      have hfresh : ∀ a, (allocLeaf s none id).fresh ≤ a →
          (allocLeaf s none id).nodes a = none := by
        intro a ha
        have haf : a ≠ s.fresh := by
          have : s.fresh + 1 ≤ a := ha
          omega
        exact (update_of_ne haf ..).trans (hnone a)
      obtain ⟨s', hs', hinv, hset⟩ := finishSet_spec (allocLeaf_treeInv hnone hid) hfresh hleaf rfl
        ((Layer.covers_leaf rfl id).2 rfl) seqno
      refine ⟨s', .zero, hs', hinv, fun _ => ?_, by simp⟩
      -- neither the empty heap nor the new leaf has values
      intro id' v
      rw [hset id' v]
      by_cases hid' : id' = id
      · rw [if_pos hid', if_pos hid']
      · rw [if_neg hid', if_neg hid']
        refine iff_of_false ?_ (not_value_of_not_covers _ _ (by simp [hnone]) v)
        rintro ⟨a, bitmap, sq, ha, hbit, -⟩
        obtain ⟨m, hm, -, -, rfl, -⟩ := leafAt_eq_some.1 ha
        rw [allocLeaf_nodes] at hm
        split_ifs at hm
        · cases hm
          simp [newLeaf] at hbit
        · rw [hnone] at hm
          cases hm
    · exact ⟨s, .enomem, rfl, hi, by simp, fun _ _ _ => Iff.rfl⟩
  · obtain ⟨n, hp, hh⟩ := hi.leaf p hr
    obtain ⟨q, m, hq, hm, hpos⟩ := climbSet_spec hi.tree id 16 hp (by omega)
    have hle := (hi.tree.height q m hm).2.1
    have hposition : Position s q m id := by
      refine ⟨hm, ?_⟩
      by_cases hc : m.Covers id
      · exact .inl hc
      · have htop := hpos.resolve_left hc
        exact .inr ⟨hm, hc, by simp [htop]⟩
    obtain ⟨s1, r, hr1, hgrown, hspec⟩ :=
      descendSet_spec alloc hid 16 hi.tree hi.fresh hposition (by omega)
    simp only [hp, bind_eq_bind, bind_some, hh, hroot p n hr hp, hq, hr1]
    rcases r with _ | l
    · refine ⟨s1, .enomem, rfl, ⟨hgrown.tree, hgrown.fresh, ?_, ?_⟩, by simp, fun _ => hgrown.value⟩
      · intro hnone
        rw [hgrown.root, hr] at hnone
        cases hnone
      · intro p' hp'
        rw [hgrown.root, hr] at hp'
        cases hp'
        exact hgrown.leaf p n hp hh
    · obtain ⟨ml, hl, hlh, hlc⟩ := hspec l rfl
      obtain ⟨s', hs', hinv, hset⟩ := finishSet_spec hgrown.tree hgrown.fresh hl hlh hlc seqno
      refine ⟨s', .zero, hs', hinv, fun _ id' v => ?_, by simp⟩
      rw [hset id' v, hgrown.value]

/-- **What `i915_syncmap_set` does.** It sets the value of the identifier; or there is no memory,
and the values stay as they are. -/
theorem set_spec (alloc : ℕ → Bool) (hi : Inv s) (hid : id < 2 ^ 64) (seqno : BitVec 32) :
    ∃ s' r, set alloc s id seqno = some (s', r) ∧ Inv s' ∧
      (r = .zero → SetTo s.nodes s'.nodes id seqno) ∧
      (r = .enomem → ∀ id' v, Value s'.nodes id' v ↔ Value s.nodes id' v) := by
  unfold set
  rcases hr : s.root with _ | p
  · exact syncSet_spec alloc hi hid seqno (by simp [hr])
  · obtain ⟨n, hp, hh⟩ := hi.leaf p hr
    simp only [hp, bugOn, hh, bind_eq_bind, bind_some, ne_eq, not_true_eq_false,
      if_false]
    split_ifs with hpfx
    · have hc : n.Covers id := (Layer.covers_leaf hh id).2 hpfx
      rw [setSeqno_eq hp hh]
      refine ⟨_, .zero, rfl, ⟨hi.tree.update_leaf _ hp hh rfl rfl rfl, ?_, by simp [hr], ?_⟩,
        fun _ => hi.tree.setTo_withSeqno hp hh hc seqno, by simp⟩
      · intro a ha
        exact (update_of_ne (ne_of_none (hi.fresh a ha) hp) ..).trans (hi.fresh a ha)
      · intro p' hp'
        obtain rfl := mem_unique hr hp'
        exact ⟨_, update_self .., hh⟩
    · refine syncSet_spec alloc hi hid seqno fun p' n' hp' hn' => ?_
      obtain rfl := mem_unique hr hp'
      obtain rfl := mem_unique hp hn'
      exact hpfx

end KmsDrm.I915.SyncMap
