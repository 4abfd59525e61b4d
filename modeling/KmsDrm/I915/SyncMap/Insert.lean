import KmsDrm.I915.SyncMap.Tree

/-!
# Insertions into the tree of a sync map

The three shapes of an insertion keep the invariant of the heap: the first leaf, a leaf in an
empty slot of a branch, and a join above a layer that does not cover the identifier.

## Main results

* `I915.SyncMap.insertJoin_spec`, `I915.SyncMap.insertLeaf_treeInv`.
-/

namespace KmsDrm.I915.SyncMap

open Option

variable {m n : Layer} {a b i : ℕ}

/-! ## The height of a join -/

lemma fls64_spec {x : ℕ} (hx : x ≠ 0) :
    0 < fls64 x ∧ x < 2 ^ fls64 x ∧ 2 ^ (fls64 x - 1) ≤ x := by
  unfold fls64
  rw [if_neg hx]
  exact ⟨Nat.succ_pos _, Nat.lt_log2_self, Nat.log2_self_le hx⟩

namespace Layer

variable {id : ℕ}

lemma above_dvd (n : Layer) (id : ℕ) : 4 ∣ n.above id := Nat.dvd_mul_left _ _

lemma above_le {k : ℕ} (hk : 4 ∣ k) (h : n.branchPrefix id ^^^ n.pfx < 2 ^ k) :
    n.above id ≤ k := by
  have hfls : fls64 (n.branchPrefix id ^^^ n.pfx) ≤ k := by
    by_cases hx : n.branchPrefix id ^^^ n.pfx = 0
    · simp [fls64, hx]
    · obtain ⟨-, -, hle⟩ := fls64_spec hx
      have := (Nat.pow_lt_pow_iff_right (a := 2) (by decide)).1 (Nat.lt_of_le_of_lt hle h)
      omega
  unfold above roundUp shift
  omega

section

variable (hc : ¬ n.Covers id)

include hc

lemma xor_ne_zero : n.branchPrefix id ^^^ n.pfx ≠ 0 := by
  rwa [Ne, Nat.xor_eq_zero_iff]

lemma four_le_above : 4 ≤ n.above id := by
  have := (fls64_spec (xor_ne_zero hc)).1
  unfold above roundUp shift
  omega

lemma above_agree :
    n.branchPrefix id >>> n.above id = n.pfx >>> n.above id := by
  rw [← Nat.xor_eq_zero_iff, ← Nat.shiftRight_xor_distrib, Nat.shiftRight_eq_div_pow,
    Nat.div_eq_zero_iff]
  right
  refine Nat.lt_of_lt_of_le (fls64_spec (xor_ne_zero hc)).2.1 (Nat.pow_le_pow_right (by decide) ?_)
  unfold above roundUp shift
  omega

lemma above_differ :
    n.branchPrefix id >>> (n.above id - 4) ≠ n.pfx >>> (n.above id - 4) := by
  obtain ⟨hpos, -, hle⟩ := fls64_spec (xor_ne_zero hc)
  rw [Ne, ← Nat.xor_eq_zero_iff, ← Nat.shiftRight_xor_distrib, Nat.shiftRight_eq_div_pow,
    Nat.div_eq_zero_iff, not_or]
  refine ⟨(Nat.two_pow_pos _).ne', Nat.not_lt.2 (Nat.le_trans ?_ hle)⟩
  refine Nat.pow_le_pow_right (by decide) ?_
  unfold above roundUp shift
  omega

def joinIdx (n : Layer) (id : ℕ) : ℕ := (n.pfx >>> (n.above id - shift)) &&& mask

lemma join_pfx : (n.join id).pfx = n.pfx >>> n.above id := by
  rw [← above_agree hc]
  unfold join branchPrefix shift
  simp only [← Nat.shiftRight_add]
  congr 1
  omega

end

lemma join_covers (n : Layer) (id : ℕ) : (n.join id).Covers id := rfl

lemma shiftRight_joinIdx (hc : ¬ n.Covers id) :
    n.pfx >>> (n.above id - 4) = 16 * (n.join id).pfx + n.joinIdx id := by
  have h4 := four_le_above hc
  have hsplit : n.pfx >>> n.above id = n.pfx >>> (n.above id - 4) >>> 4 := by
    rw [← Nat.shiftRight_add]
    congr 1
    omega
  rw [join_pfx hc, joinIdx, and_mask, shift]
  omega

lemma join_fits (hc : ¬ n.Covers id) : Fits (n.join id) n (n.joinIdx id) where
  idx := by
    unfold joinIdx
    rw [and_mask]
    exact Nat.mod_lt _ (by decide)
  height := by
    have := four_le_above hc
    simp only [join]
    omega
  pfx := by
    rw [← shiftRight_joinIdx hc]
    congr 1
    simp only [join]
    omega

lemma join_branchIdx_ne (hc : ¬ n.Covers id) : (n.join id).branchIdx id ≠ n.joinIdx id := by
  have h4 := four_le_above hc
  have hid := (n.join_covers id).shiftRight
  have hpfx := shiftRight_joinIdx hc
  have hdiffer := above_differ hc
  have hshift : n.branchPrefix id >>> (n.above id - 4) = id >>> (n.join id).height := by
    unfold branchPrefix shift
    simp only [← Nat.shiftRight_add, join]
    congr 1
    omega
  rw [hshift, hid, hpfx] at hdiffer
  intro heq
  exact hdiffer (by rw [heq])

lemma join_height (hid : id < 2 ^ 64) (h4 : 4 ∣ n.height) (hle : n.height ≤ 60)
    (hpfx : n.pfx < 2 ^ (60 - n.height)) :
    4 ∣ (n.join id).height ∧ (n.join id).height ≤ 60 ∧
      (n.join id).pfx < 2 ^ (60 - (n.join id).height) := by
  have hbound : ∀ h ≤ 60, id >>> h >>> 4 < 2 ^ (60 - h) := by
    intro h hh
    rw [← Nat.shiftRight_add, Nat.shiftRight_eq_div_pow, Nat.div_lt_iff_lt_mul (Nat.two_pow_pos _),
      ← Nat.pow_add]
    exact Nat.lt_of_lt_of_le hid (Nat.pow_le_pow_right (by decide) (by omega))
  have habove : n.above id ≤ 60 - n.height :=
    above_le (by omega) (Nat.xor_lt_two_pow (hbound n.height hle) hpfx)
  have hdvd := n.above_dvd id
  have hheight : (n.join id).height = n.above id + n.height := rfl
  refine ⟨by omega, by omega, ?_⟩
  exact hbound (n.above id + n.height) (by omega)

lemma fits_join (hm : m.Covers id) (hfits : Fits m n (m.branchIdx id)) (hm4 : 4 ∣ m.height)
    (hn4 : 4 ∣ n.height) : Fits m (n.join id) (m.branchIdx id) := by
  have hlt := hfits.height
  have hheight : (n.join id).height = n.above id + n.height := rfl
  have hshift : n.branchPrefix id >>> (m.height - n.height - 4) = id >>> m.height := by
    unfold branchPrefix shift
    simp only [← Nat.shiftRight_add]
    congr 1
    omega
  have hxor : n.branchPrefix id ^^^ n.pfx < 2 ^ (m.height - n.height - 4) := by
    have hzero : (n.branchPrefix id ^^^ n.pfx) >>> (m.height - n.height - 4) = 0 := by
      rw [Nat.shiftRight_xor_distrib, hshift, hfits.pfx, hm.shiftRight, Nat.xor_self]
    rw [Nat.shiftRight_eq_div_pow, Nat.div_eq_zero_iff] at hzero
    exact hzero.resolve_left (Nat.two_pow_pos _).ne'
  have hle := above_le (by omega) hxor
  refine ⟨m.branchIdx_lt id, by omega, ?_⟩
  rw [← hm.shiftRight]
  simp only [join, shift, ← Nat.shiftRight_add]
  congr 1
  omega

end Layer

/-! ## The leaves -/

/-- What a leaf holds; a branch holds nothing. -/
def leafAt (nodes : ℕ → Option Layer) (a : ℕ) : Option (ℕ × BitVec 32 × (ℕ → BitVec 32)) :=
  (nodes a).bind fun n => if n.height = 0 then some (n.pfx, n.bitmap, n.seqno) else none

/-- The map that a heap represents: the value of an identifier is in its leaf. -/
def Value (nodes : ℕ → Option Layer) (id : ℕ) (v : BitVec 32) : Prop :=
  ∃ a bitmap seqno, leafAt nodes a = some (leafPrefix id, bitmap, seqno) ∧
    bitmap.getLsbD (leafIdx id) = true ∧ seqno (leafIdx id) = v

lemma value_congr {nodes nodes' : ℕ → Option Layer} (h : ∀ a, leafAt nodes' a = leafAt nodes a)
    (id : ℕ) (v : BitVec 32) : Value nodes' id v ↔ Value nodes id v := by
  unfold Value
  simp only [h]

lemma getLsbD_setBit (b : BitVec 32) {idx : ℕ} (hidx : idx < 32) (i : ℕ) :
    (b ||| 1#32 <<< idx).getLsbD i = (b.getLsbD i || decide (i = idx)) := by
  by_cases h : i = idx
  · subst h
    simp [hidx]
  · by_cases hlt : i < idx
    · simp [h, hlt]
    · have : i - idx ≠ 0 := by omega
      simp [h, this]

/-! ## A join -/

/-- Where a join is inserted: above a layer that does not cover the identifier, and below a parent
that does, if there is one. -/
structure JoinSite (s : State) (p : ℕ) (n : Layer) (id : ℕ) : Prop where
  node : s.nodes p = some n
  notCovers : ¬ n.Covers id
  parent : ∀ q, n.parent = some q → ∃ m, s.nodes q = some m ∧ m.height ≠ 0 ∧ m.Covers id ∧
    m.child (m.branchIdx id) = some p

/-- The layer at the address `a` after a join was inserted into the parent. -/
def relink (parent : Option ℕ) (id next a : ℕ) (m : Layer) : Layer :=
  if parent = some a then { m with child := Function.update m.child (m.branchIdx id) (some next) }
  else m

section Relink

variable (parent : Option ℕ) (id next a : ℕ) (m : Layer)

@[simp] lemma relink_pfx : (relink parent id next a m).pfx = m.pfx := by
  unfold relink; split_ifs <;> rfl
@[simp] lemma relink_height : (relink parent id next a m).height = m.height := by
  unfold relink; split_ifs <;> rfl
@[simp] lemma relink_bitmap : (relink parent id next a m).bitmap = m.bitmap := by
  unfold relink; split_ifs <;> rfl
@[simp] lemma relink_parent : (relink parent id next a m).parent = m.parent := by
  unfold relink; split_ifs <;> rfl
@[simp] lemma relink_seqno : (relink parent id next a m).seqno = m.seqno := by
  unfold relink; split_ifs <;> rfl

lemma relink_child (i : ℕ) : (relink parent id next a m).child i =
    if parent = some a ∧ i = m.branchIdx id then some next else m.child i := by
  unfold relink
  by_cases hp : parent = some a
  · by_cases hi : i = m.branchIdx id
    · simp [hp, hi]
    · simp [hp, hi]
  · simp [hp]

variable {parent a} in
lemma map_relink_of_ne (h : parent ≠ some a) (o : Option Layer) :
    o.map (relink parent id next a) = o := by
  cases o with
  | none => rfl
  | some m => simp [relink, h]

end Relink

/-- The heap after a join was inserted. -/
def joined (s : State) (p : ℕ) (n : Layer) (id : ℕ) (a : ℕ) : Option Layer :=
  if a = p then some { n with parent := some s.fresh }
  else if a = s.fresh then some ((n.join id).setChild (n.joinIdx id) p)
  else (s.nodes a).map (relink n.parent id s.fresh a)

lemma insertJoin_eq {s : State} (hi : TreeInv s.nodes) {p : ℕ} {id : ℕ} (h : JoinSite s p n id) :
    insertJoin s p n id = some { s with nodes := joined s p n id, fresh := s.fresh + 1 } := by
  have hparent : insertInParent s.nodes n.parent id s.fresh =
      some fun a => (s.nodes a).map (relink n.parent id s.fresh a) := by
    unfold insertInParent
    rcases hpar : n.parent with _ | q
    · refine congrArg some (funext fun a => ?_)
      rw [map_relink_of_ne _ _ (by simp)]
    · obtain ⟨m, hq, hne, -, hchild⟩ := h.parent q hpar
      have hbit := (hi.bitmap q m (m.branchIdx id) hq hne).2 (by simp [hchild])
      simp only [hq, bugOn, hne, hbit, bind_eq_bind, bind_some, if_false,
        Bool.true_eq_false]
      simp only [pure_def, Option.some.injEq]
      funext a
      by_cases ha : a = q
      · subst ha
        simp [hq, relink]
      · rw [map_relink_of_ne _ _ (by simpa using Ne.symm ha), Function.update_of_ne ha]
  unfold insertJoin
  simp only [hparent, bind_eq_bind, bind_some, pure_def, Option.some.injEq,
    State.mk.injEq, and_true]
  funext a
  simp only [Function.update_apply]
  rfl

section Joined

variable {s : State} {p : ℕ} {id : ℕ}

lemma joined_self : joined s p n id p = some { n with parent := some s.fresh } := if_pos rfl

lemma joined_fresh (hne : s.fresh ≠ p) :
    joined s p n id s.fresh = some ((n.join id).setChild (n.joinIdx id) p) := by
  unfold joined
  rw [if_neg hne, if_pos rfl]

lemma joined_of_ne (hp : a ≠ p) (hf : a ≠ s.fresh) :
    joined s p n id a = (s.nodes a).map (relink n.parent id s.fresh a) := by
  unfold joined
  rw [if_neg hp, if_neg hf]

lemma joined_cases (ha : joined s p n id a = some m) :
    a = p ∧ m = { n with parent := some s.fresh } ∨
      a ≠ p ∧ a = s.fresh ∧ m = (n.join id).setChild (n.joinIdx id) p ∨
      a ≠ p ∧ a ≠ s.fresh ∧ ∃ m0, s.nodes a = some m0 ∧ m = relink n.parent id s.fresh a m0 := by
  unfold joined at ha
  split_ifs at ha with hp hf
  · exact .inl ⟨hp, (Option.some.inj ha).symm⟩
  · exact .inr (.inl ⟨hp, hf, (Option.some.inj ha).symm⟩)
  · obtain ⟨m0, hm0, rfl⟩ := map_eq_some_iff.1 ha
    exact .inr (.inr ⟨hp, hf, m0, hm0, rfl⟩)

lemma join_child (i : ℕ) : ((n.join id).setChild (n.joinIdx id) p).child i =
    if i = n.joinIdx id then some p else none := by
  simp [Layer.setChild, Layer.join, Function.update_apply]

lemma Fits.congr {n' m' : Layer} (h : Fits n m i) (hn : n'.height = n.height)
    (hn' : n'.pfx = n.pfx) (hm : m'.height = m.height) (hm' : m'.pfx = m.pfx) : Fits n' m' i := by
  obtain ⟨h1, h2, h3⟩ := h
  exact ⟨h1, by rwa [hn, hm], by rwa [hn, hm, hn', hm']⟩

lemma Fits.idx_unique {j : ℕ} (h : Fits n m i) (h' : Fits n m j) : i = j := by
  have := h.pfx.symm.trans h'.pfx
  omega

lemma ne_fresh (hfresh : s.nodes s.fresh = none) (ha : s.nodes a = some m) : a ≠ s.fresh := by
  rintro rfl
  simp [hfresh] at ha

variable (hi : TreeInv s.nodes) (hfresh : s.nodes s.fresh = none) (h : JoinSite s p n id)
  (hid : id < 2 ^ 64)

include hi h

include hid in
lemma joined_height (ha : joined s p n id a = some m) :
    4 ∣ m.height ∧ m.height ≤ 60 ∧ m.pfx < 2 ^ (60 - m.height) := by
  obtain ⟨h4, hle, hpfx⟩ := hi.height p n h.node
  rcases joined_cases ha with ⟨rfl, rfl⟩ | ⟨-, rfl, rfl⟩ | ⟨-, -, m0, hm0, rfl⟩
  · exact ⟨h4, hle, hpfx⟩
  · exact Layer.join_height hid h4 hle hpfx
  · simpa using hi.height a m0 hm0

include hfresh in
lemma joined_child (ha : joined s p n id a = some m) (hne : m.height ≠ 0)
    (hb : m.child i = some b) :
    ∃ m', joined s p n id b = some m' ∧ m'.parent = some a ∧ Fits m m' i := by
  have hpf : p ≠ s.fresh := ne_fresh hfresh h.node
  rcases joined_cases ha with ⟨rfl, rfl⟩ | ⟨-, rfl, rfl⟩ | ⟨-, -, m0, hm0, rfl⟩
  · -- the children of the layer itself
    obtain ⟨m', hm', hpar, hfits⟩ := hi.child a n i b h.node hne hb
    rw [joined_of_ne (hi.child_ne h.node hne hb) (ne_fresh hfresh hm'), hm']
    exact ⟨_, rfl, by simpa using hpar, hfits.congr rfl rfl (by simp) (by simp)⟩
  · -- the child of the join
    rw [join_child] at hb
    split_ifs at hb with hidx
    cases hb
    subst hidx
    exact ⟨_, joined_self, rfl, (Layer.join_fits h.notCovers).congr rfl rfl rfl rfl⟩
  · rw [relink_height] at hne
    rw [relink_child] at hb
    split_ifs at hb with hslot
    · -- the join, in the slot of the layer
      cases hb
      obtain ⟨hpar, rfl⟩ := hslot
      obtain ⟨m1, hm1, -, hcov, hchild⟩ := h.parent a hpar
      obtain rfl := mem_unique hm0 hm1
      have hfits := hi.child_fits hm0 hne hchild h.node
      refine ⟨_, joined_fresh (Ne.symm hpf), hpar, ?_⟩
      exact (Layer.fits_join hcov hfits (hi.height a m0 hm0).1 (hi.height p n h.node).1).congr
        (by simp) (by simp) rfl rfl
    · -- another child
      obtain ⟨m', hm', hpar, hfits⟩ := hi.child a m0 i b hm0 hne hb
      have hbp : b ≠ p := by
        rintro rfl
        obtain rfl := mem_unique h.node hm'
        obtain ⟨m1, hm1, -, -, hchild⟩ := h.parent a hpar
        obtain rfl := mem_unique hm0 hm1
        exact hslot ⟨hpar, hfits.idx_unique (hi.child_fits hm0 hne hchild h.node)⟩
      rw [joined_of_ne hbp (ne_fresh hfresh hm'), hm']
      exact ⟨_, rfl, by simpa using hpar,
        hfits.congr (by simp) (by simp) (by simp) (by simp)⟩

lemma joined_bitmap (i : ℕ) (ha : joined s p n id a = some m) (hne : m.height ≠ 0) :
    m.bitmap.getLsbD i = true ↔ m.child i ≠ none := by
  rcases joined_cases ha with ⟨rfl, rfl⟩ | ⟨-, rfl, rfl⟩ | ⟨-, -, m0, hm0, rfl⟩
  · exact hi.bitmap a n i h.node hne
  · have hidx := (Layer.join_fits h.notCovers).idx
    rw [join_child]
    unfold Layer.setChild
    rw [getLsbD_setBit _ (by omega)]
    simp [Layer.join]
  · rw [relink_height] at hne
    rw [relink_bitmap, relink_child, hi.bitmap a m0 i hm0 hne]
    split_ifs with hslot
    · obtain ⟨hpar, rfl⟩ := hslot
      obtain ⟨m1, hm1, -, -, hchild⟩ := h.parent a hpar
      obtain rfl := mem_unique hm0 hm1
      simp [hchild]
    · rfl

include hfresh in
lemma joined_parent (hb : joined s p n id b = some m) (ha : m.parent = some a) :
    ∃ n' i, joined s p n id a = some n' ∧ n'.height ≠ 0 ∧ n'.child i = some b := by
  have hpf : p ≠ s.fresh := ne_fresh hfresh h.node
  rcases joined_cases hb with ⟨rfl, rfl⟩ | ⟨-, rfl, rfl⟩ | ⟨hbp, -, m0, hm0, rfl⟩
  · -- the layer is below the join now
    cases ha
    refine ⟨_, n.joinIdx id, joined_fresh (Ne.symm hpf), ?_, by simp [join_child]⟩
    have := Layer.four_le_above h.notCovers
    simp only [Layer.setChild, Layer.join]
    omega
  · -- the join is where the layer was
    have hpar : n.parent = some a := ha
    obtain ⟨m, hm, hne, -, -⟩ := h.parent a hpar
    have hap : a ≠ p := by
      rintro rfl
      obtain ⟨m', hm', -, hlt, -⟩ := hi.parent_height h.node hpar
      obtain rfl := mem_unique h.node hm'
      omega
    refine ⟨_, m.branchIdx id, joined_of_ne hap (ne_fresh hfresh hm) |>.trans (by rw [hm]; rfl),
      by simpa using hne, ?_⟩
    rw [relink_child, if_pos ⟨hpar, rfl⟩]
  · rw [relink_parent] at ha
    obtain ⟨na, i, hna, hne, hchild⟩ := hi.parent b m0 a hm0 ha
    by_cases hap : a = p
    · subst hap
      obtain rfl := mem_unique h.node hna
      exact ⟨_, i, joined_self, hne, hchild⟩
    · refine ⟨_, i, joined_of_ne hap (ne_fresh hfresh hna) |>.trans (by rw [hna]; rfl),
        by simpa using hne, ?_⟩
      rw [relink_child, if_neg, hchild]
      rintro ⟨hpar, rfl⟩
      obtain ⟨m1, hm1, -, -, hchild'⟩ := h.parent a hpar
      obtain rfl := mem_unique hna hm1
      exact hbp (mem_unique hchild hchild')

lemma joined_top {m' : Layer} (ha : joined s p n id a = some m) (hb : joined s p n id b = some m')
    (hm : m.parent = none) (hm' : m'.parent = none) :
    a = b := by
  -- the join is the top if the layer was, and else the top is where it was
  have key : ∀ x mx, joined s p n id x = some mx → mx.parent = none →
      x ≠ p ∧ (x = s.fresh ∧ n.parent = none ∨
        x ≠ s.fresh ∧ ∃ m0, s.nodes x = some m0 ∧ m0.parent = none) := by
    intro x mx hx hmx
    rcases joined_cases hx with ⟨-, rfl⟩ | ⟨hxp, hxf, rfl⟩ | ⟨hxp, hxf, m0, hm0, rfl⟩
    · cases hmx
    · exact ⟨hxp, .inl ⟨hxf, hmx⟩⟩
    · exact ⟨hxp, .inr ⟨hxf, m0, hm0, by simpa using hmx⟩⟩
  obtain ⟨hap, hca⟩ := key a m ha hm
  obtain ⟨hbp, hcb⟩ := key b m' hb hm'
  rcases hca with ⟨rfl, hnone⟩ | ⟨-, ma, hma, hpa⟩
  · rcases hcb with ⟨rfl, -⟩ | ⟨-, mb, hmb, hpb⟩
    · rfl
    · exact absurd (hi.top b p mb n hmb h.node hpb hnone) hbp
  · rcases hcb with ⟨rfl, hnone⟩ | ⟨-, mb, hmb, hpb⟩
    · exact absurd (hi.top a p ma n hma h.node hpa hnone) hap
    · exact hi.top a b ma mb hma hmb hpa hpb

include hfresh hid in
/-- **A join keeps the invariant of the heap.** -/
theorem joined_treeInv : TreeInv (joined s p n id) where
  height := fun _ _ ha => joined_height hi h hid ha
  child := fun _ _ _ _ ha hne hb => joined_child hi hfresh h ha hne hb
  bitmap := fun _ _ i ha hne => joined_bitmap hi h i ha hne
  parent := fun _ _ _ hb ha => joined_parent hi hfresh h hb ha
  top := fun _ _ _ _ ha hb hm hm' => joined_top hi h ha hb hm hm'

omit hi in
include hfresh in
lemma leafAt_joined (a : ℕ) : leafAt (joined s p n id) a = leafAt s.nodes a := by
  unfold leafAt
  by_cases hap : a = p
  · subst hap
    rw [joined_self, h.node]
    rfl
  · by_cases haf : a = s.fresh
    · subst haf
      have h4 := Layer.four_le_above h.notCovers
      have hne : ((n.join id).setChild (n.joinIdx id) p).height ≠ 0 := by
        simp only [Layer.setChild, Layer.join]
        omega
      rw [joined_fresh hap, hfresh, bind_some, if_neg hne]
      rfl
    · rw [joined_of_ne hap haf]
      cases s.nodes a <;> simp

end Joined

/-! ## A leaf -/

def newLeaf (parent : Option ℕ) (id : ℕ) : Layer :=
  { pfx := leafPrefix id, height := 0, bitmap := 0, parent := parent }

lemma newLeaf_height (parent : Option ℕ) {id : ℕ} (hid : id < 2 ^ 64) :
    4 ∣ (newLeaf parent id).height ∧ (newLeaf parent id).height ≤ 60 ∧
      (newLeaf parent id).pfx < 2 ^ (60 - (newLeaf parent id).height) := by
  refine ⟨by simp [newLeaf], by simp [newLeaf], ?_⟩
  simp only [newLeaf, leafPrefix, shift]
  omega

/-- The heap after a leaf was added to the branch `p`, which is `n`. -/
def leafed (s : State) (p : ℕ) (n : Layer) (id : ℕ) (a : ℕ) : Option Layer :=
  if a = p then some (n.setChild (n.branchIdx id) s.fresh)
  else if a = s.fresh then some (newLeaf (some p) id)
  else s.nodes a

/-- Where a leaf is added: in an empty slot of a branch that covers the identifier. -/
structure LeafSite (s : State) (p : ℕ) (n : Layer) (id : ℕ) : Prop where
  node : s.nodes p = some n
  branch : n.height ≠ 0
  covers : n.Covers id
  empty : n.child (n.branchIdx id) = none

section Leafed

variable {s : State} {p : ℕ} {id : ℕ}

lemma leafed_self : leafed s p n id p = some (n.setChild (n.branchIdx id) s.fresh) := if_pos rfl

lemma leafed_fresh (hne : s.fresh ≠ p) :
    leafed s p n id s.fresh = some (newLeaf (some p) id) := by
  unfold leafed
  rw [if_neg hne, if_pos rfl]

lemma leafed_of_ne (hp : a ≠ p) (hf : a ≠ s.fresh) : leafed s p n id a = s.nodes a := by
  unfold leafed
  rw [if_neg hp, if_neg hf]

lemma leafed_cases (ha : leafed s p n id a = some m) :
    a = p ∧ m = n.setChild (n.branchIdx id) s.fresh ∨
      a ≠ p ∧ a = s.fresh ∧ m = newLeaf (some p) id ∨
      a ≠ p ∧ a ≠ s.fresh ∧ s.nodes a = some m := by
  unfold leafed at ha
  grind

lemma setChild_child (idx c i : ℕ) :
    (n.setChild idx c).child i = if i = idx then some c else n.child i :=
  Function.update_apply ..

variable (hi : TreeInv s.nodes) (hfresh : s.nodes s.fresh = none) (h : LeafSite s p n id)
  (hid : id < 2 ^ 64)

include hi hfresh h

omit hfresh in
lemma leafed_fits : Fits n (newLeaf (some p) id) (n.branchIdx id) := by
  have h4 := (hi.height p n h.node).1
  have hne := h.branch
  refine ⟨n.branchIdx_lt id, Nat.pos_of_ne_zero hne, ?_⟩
  rw [← h.covers.shiftRight]
  simp only [newLeaf, leafPrefix, shift, ← Nat.shiftRight_add]
  congr 1
  omega

lemma leafed_child (ha : leafed s p n id a = some m) (hne : m.height ≠ 0)
    (hb : m.child i = some b) :
    ∃ m', leafed s p n id b = some m' ∧ m'.parent = some a ∧ Fits m m' i := by
  have hpf : p ≠ s.fresh := ne_fresh hfresh h.node
  rcases leafed_cases ha with ⟨rfl, rfl⟩ | ⟨-, -, rfl⟩ | ⟨hap, -, ha⟩
  · rw [setChild_child] at hb
    split_ifs at hb with hidx
    · cases hb
      subst hidx
      exact ⟨_, leafed_fresh (Ne.symm hpf), rfl, (leafed_fits hi h).congr rfl rfl rfl rfl⟩
    · obtain ⟨m', hm', hpar, hfits⟩ := hi.child a n i b h.node h.branch hb
      rw [leafed_of_ne (hi.child_ne h.node h.branch hb) (ne_fresh hfresh hm')]
      exact ⟨m', hm', hpar, hfits.congr rfl rfl rfl rfl⟩
  · exact absurd rfl hne
  · obtain ⟨m', hm', hpar, hfits⟩ := hi.child a m i b ha hne hb
    by_cases hbp : b = p
    · subst hbp
      obtain rfl := mem_unique h.node hm'
      exact ⟨_, leafed_self, hpar, hfits.congr rfl rfl rfl rfl⟩
    · rw [leafed_of_ne hbp (ne_fresh hfresh hm')]
      exact ⟨m', hm', hpar, hfits⟩

lemma leafed_parent (hb : leafed s p n id b = some m) (ha : m.parent = some a) :
    ∃ n' i, leafed s p n id a = some n' ∧ n'.height ≠ 0 ∧ n'.child i = some b := by
  -- the branches of the old heap keep their children
  have key : ∀ na i, s.nodes a = some na → na.height ≠ 0 → na.child i = some b →
      ∃ n' i, leafed s p n id a = some n' ∧ n'.height ≠ 0 ∧ n'.child i = some b := by
    intro na i hna hne hchild
    by_cases hap : a = p
    · subst hap
      obtain rfl := mem_unique h.node hna
      refine ⟨_, i, leafed_self, hne, ?_⟩
      rw [setChild_child, if_neg, hchild]
      rintro rfl
      simp [h.empty] at hchild
    · exact ⟨na, i, (leafed_of_ne hap (ne_fresh hfresh hna)).trans hna, hne, hchild⟩
  rcases leafed_cases hb with ⟨rfl, rfl⟩ | ⟨-, rfl, rfl⟩ | ⟨-, -, hb⟩
  · obtain ⟨na, i, hna, hne, hchild⟩ := hi.parent b n a h.node ha
    exact key na i hna hne hchild
  · cases ha
    exact ⟨_, n.branchIdx id, leafed_self, h.branch, by simp [setChild_child]⟩
  · obtain ⟨na, i, hna, hne, hchild⟩ := hi.parent b m a hb ha
    exact key na i hna hne hchild

include hid in
/-- **A leaf keeps the invariant of the heap.** -/
theorem leafed_treeInv : TreeInv (leafed s p n id) where
  height := by
    intro a m ha
    rcases leafed_cases ha with ⟨rfl, rfl⟩ | ⟨-, -, rfl⟩ | ⟨-, -, ha⟩
    · exact hi.height a n h.node
    · exact newLeaf_height _ hid
    · exact hi.height a m ha
  child := fun _ _ _ _ ha hne hb => leafed_child hi hfresh h ha hne hb
  bitmap := by
    intro a m i ha hne
    rcases leafed_cases ha with ⟨rfl, rfl⟩ | ⟨-, -, rfl⟩ | ⟨-, -, ha⟩
    · have hidx := n.branchIdx_lt id
      have hold := hi.bitmap a n i h.node h.branch
      unfold Layer.setChild
      rw [getLsbD_setBit _ (by omega)]
      by_cases hi' : i = n.branchIdx id
      · simp [hi']
      · simpa [hi'] using hold
    · exact absurd rfl hne
    · exact hi.bitmap a m i ha hne
  parent := fun _ _ _ hb ha => leafed_parent hi hfresh h hb ha
  top := by
    -- the new leaf has a parent, and the others keep theirs
    have key : ∀ x mx, leafed s p n id x = some mx → mx.parent = none →
        ∃ m0, s.nodes x = some m0 ∧ m0.parent = none := by
      intro x mx hx hmx
      rcases leafed_cases hx with ⟨rfl, rfl⟩ | ⟨-, -, rfl⟩ | ⟨-, -, hx⟩
      · exact ⟨n, h.node, hmx⟩
      · cases hmx
      · exact ⟨mx, hx, hmx⟩
    intro a b m m' ha hb hm hm'
    obtain ⟨ma, hma, hpa⟩ := key a m ha hm
    obtain ⟨mb, hmb, hpb⟩ := key b m' hb hm'
    exact hi.top a b ma mb hma hmb hpa hpb

omit hi in
lemma leafAt_leafed (a : ℕ) : leafAt (leafed s p n id) a =
    if a = s.fresh then some (leafPrefix id, 0, fun _ => 0) else leafAt s.nodes a := by
  have hpf : p ≠ s.fresh := ne_fresh hfresh h.node
  unfold leafAt
  by_cases haf : a = s.fresh
  · subst haf
    rw [leafed_fresh (Ne.symm hpf), if_pos rfl]
    rfl
  · rw [if_neg haf]
    by_cases hap : a = p
    · subst hap
      have hne : (n.setChild (n.branchIdx id) s.fresh).height ≠ 0 := h.branch
      rw [leafed_self, h.node, bind_some, bind_some, if_neg hne, if_neg h.branch]
    · rw [leafed_of_ne hap haf]

end Leafed

end KmsDrm.I915.SyncMap
