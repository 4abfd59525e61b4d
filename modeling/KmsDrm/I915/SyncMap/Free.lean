import KmsDrm.I915.SyncMap.Operations

/-!
# Freeing a sync map

`__sync_free` frees a layer after the layers below it. The subtrees of two children have no layer
in common, so no layer is freed twice or used after it was freed, and freeing from the top leaves
an empty heap.

## Main results

* `I915.SyncMap.freeLayer_spec` — the layers below a layer are freed, and no others.
* `I915.SyncMap.free_spec` — what `i915_syncmap_free` does.
-/

namespace KmsDrm.I915.SyncMap

open List Option

variable {nodes : ℕ → Option Layer}

/-! ## Subtrees -/

lemma Anc.eq_or_parent {a b : ℕ} (h : Anc nodes a b) :
    a = b ∨ ∃ m q, nodes b = some m ∧ m.parent = some q ∧ Anc nodes a q := by
  induction h with
  | refl => exact .inl rfl
  | @up a b' b m' _ hb' ha ih =>
    rcases ih with rfl | ⟨m, q, hm, hq, hanc⟩
    · exact .inr ⟨m', a, hb', ha, .refl a⟩
    · exact .inr ⟨m, q, hm, hq, .up hanc hb' ha⟩

lemma Anc.total {a b c : ℕ} (ha : Anc nodes a c) (hb : Anc nodes b c) :
    Anc nodes a b ∨ Anc nodes b a := by
  induction ha with
  | refl => exact .inr hb
  | @up a x _ m _ hx hpar ih =>
    rcases ih hb with hxb | hbx
    · exact .inl (.up hxb hx hpar)
    · rcases hbx.eq_or_parent with rfl | ⟨m', q, hm', hq, hanc⟩
      · exact .inl (.up (.refl b) hx hpar)
      · obtain rfl := mem_unique hx hm'
        obtain rfl := mem_unique hpar hq
        exact .inr hanc

namespace TreeInv

variable (hi : TreeInv nodes)

include hi

lemma anc_height {a b : ℕ} {n m : Layer} (h : Anc nodes a b) (ha : nodes a = some n)
    (hb : nodes b = some m) : m.height ≤ n.height := by
  induction h generalizing n with
  | refl =>
    obtain rfl := mem_unique ha hb
    exact Nat.le_refl _
  | up _ hx hpar ih =>
    have hle := ih hx hb
    obtain ⟨n', hn', -, hlt, -⟩ := hi.parent_height hx hpar
    obtain rfl := mem_unique ha hn'
    omega

lemma children_disjoint {p i j c d a : ℕ} {n : Layer} (hp : nodes p = some n)
    (hne : n.height ≠ 0) (hc : n.child i = some c) (hd : n.child j = some d) (hij : i ≠ j)
    (hca : Anc nodes c a) (hda : Anc nodes d a) : False := by
  -- a child of the layer is not above another one
  have key : ∀ i j c d, n.child i = some c → n.child j = some d → i ≠ j → ¬ Anc nodes c d := by
    intro i j c d hc hd hij hanc
    obtain ⟨mc, hmc, -, hfc⟩ := hi.child p n i c hp hne hc
    obtain ⟨md, hmd, hpd, hfd⟩ := hi.child p n j d hp hne hd
    rcases hanc.eq_or_parent with rfl | ⟨m, q, hm, hq, hcq⟩
    · obtain rfl := mem_unique hmc hmd
      exact hij (hfc.idx_unique hfd)
    · obtain rfl := mem_unique hmd hm
      obtain rfl := mem_unique hpd hq
      have hle := hi.anc_height hcq hmc hp
      have hlt := hfc.height
      omega
  rcases hca.total hda with hcd | hdc
  · exact key i j c d hc hd hij hcd
  · exact key j i d c hd hc (Ne.symm hij) hdc

lemma anc_iff {p a : ℕ} {n : Layer} (hp : nodes p = some n) :
    Anc nodes p a ↔ a = p ∨ n.height ≠ 0 ∧ ∃ i c, n.child i = some c ∧ Anc nodes c a := by
  constructor
  · intro h
    cases h with
    | refl => exact .inl rfl
    | @up _ b _ m hba hb hpar =>
      obtain ⟨n', i, hn', hne, hchild⟩ := hi.parent b m p hb hpar
      obtain rfl := mem_unique hp hn'
      exact .inr ⟨hne, i, b, hchild, hba⟩
  · rintro (rfl | ⟨hne, i, c, hchild, hca⟩)
    · exact .refl a
    · obtain ⟨m, hm, hpar, -⟩ := hi.child p n i c hp hne hchild
      exact .up hca hm hpar

end TreeInv

/-! ## `__sync_free` -/

/-- The heap `cur'` is `cur` without the layers that `freed` names. -/
def Freed (cur cur' : ℕ → Option Layer) (freed : ℕ → Prop) : Prop :=
  (∀ a, freed a → cur' a = none) ∧ ∀ a, ¬ freed a → cur' a = cur a

lemma freeChildren_spec (hi : TreeInv nodes) {p : ℕ} {n : Layer} (hp : nodes p = some n)
    (hne : n.height ≠ 0) {turns : ℕ} (ih : ∀ cur c m, nodes c = some m → m.height < 4 * turns →
      (∀ a, Anc nodes c a → cur a = nodes a) →
      ∃ cur', freeLayer turns cur c = some cur' ∧ Freed cur cur' (Anc nodes c))
    (ht : n.height < 4 * (turns + 1)) (slots : List ℕ) (hslots : slots.Nodup)
    (hbits : ∀ i ∈ slots, n.child i ≠ none) (cur : ℕ → Option Layer)
    (hcur : ∀ i ∈ slots, ∀ c, n.child i = some c → ∀ a, Anc nodes c a → cur a = nodes a) :
    ∃ cur', slots.foldlM (fun cur i => (n.child i).bind (freeLayer turns cur)) cur = some cur' ∧
      Freed cur cur' fun a => ∃ i ∈ slots, ∃ c, n.child i = some c ∧ Anc nodes c a := by
  induction slots generalizing cur with
  | nil => exact ⟨cur, rfl, by simp, fun _ _ => rfl⟩
  | cons i slots ihs =>
    obtain ⟨hnot, hnodup⟩ := nodup_cons.1 hslots
    obtain ⟨c, hc⟩ := ne_none_iff_exists'.1 (hbits i (.head _))
    obtain ⟨m, hm, -, hfits⟩ := hi.child p n i c hp hne hc
    have hlt := hfits.height
    have h4 := (hi.height p n hp).1
    obtain ⟨cur1, hcur1, hfreed, hkept⟩ := ih cur c m hm (by omega)
      (hcur i (.head _) c hc)
    -- the subtrees of the other children are still there
    have hrest : ∀ j ∈ slots, ∀ d, n.child j = some d → ∀ a, Anc nodes d a → cur1 a = nodes a := by
      intro j hj d hd a ha
      have hij : i ≠ j := by
        rintro rfl
        exact hnot hj
      rw [hkept a fun hca => hi.children_disjoint hp hne hc hd hij hca ha]
      exact hcur j (.tail _ hj) d hd a ha
    obtain ⟨cur', hcur', hfreed', hkept'⟩ := ihs hnodup
      (fun j hj => hbits j (.tail _ hj)) cur1 hrest
    refine ⟨cur', ?_, ?_, ?_⟩
    · rw [foldlM_cons, hc, bind_some, hcur1]
      exact hcur'
    · rintro a ⟨j, hj, d, hd, hda⟩
      rcases mem_cons.1 hj with rfl | hj
      · obtain rfl := mem_unique hc hd
        rw [hkept' a, hfreed a hda]
        rintro ⟨k, hk, e, he, hea⟩
        have hjk : j ≠ k := by
          rintro rfl
          exact hnot hk
        exact hi.children_disjoint hp hne hc he hjk hda hea
      · exact hfreed' a ⟨j, hj, d, hd, hda⟩
    · intro a ha
      rw [hkept' a, hkept a]
      · exact fun hca => ha ⟨i, .head _, c, hc, hca⟩
      · rintro ⟨j, hj, d, hd, hda⟩
        exact ha ⟨j, .tail _ hj, d, hd, hda⟩

/-- **What `__sync_free` does.** It frees the layers below a layer and no others, if they are
still there. -/
theorem freeLayer_spec (hi : TreeInv nodes) (turns : ℕ) (cur : ℕ → Option Layer) (p : ℕ) (n : Layer)
    (hp : nodes p = some n) (ht : n.height < 4 * turns)
    (hcur : ∀ a, Anc nodes p a → cur a = nodes a) :
    ∃ cur', freeLayer turns cur p = some cur' ∧ Freed cur cur' (Anc nodes p) := by
  induction turns generalizing cur p n with
  | zero => omega
  | succ turns ih =>
    have hself : cur p = some n := (hcur p (.refl p)).trans hp
    simp only [freeLayer, hself, bind_eq_bind, bind_some]
    by_cases hne : n.height ≠ 0
    · rw [if_pos hne]
      have hbits : ∀ i ∈ setBits n.bitmap, n.child i ≠ none := by
        intro i hmem
        exact (hi.bitmap p n i hp hne).1 (mem_filter.1 hmem).2
      obtain ⟨cur1, hcur1, hfreed, hkept⟩ := freeChildren_spec hi hp hne ih ht (setBits n.bitmap)
        (nodup_range.filter _) hbits cur
        (fun i _ c hc a ha => hcur a ((hi.anc_iff hp).2 (.inr ⟨hne, i, c, hc, ha⟩)))
      rw [hcur1]
      refine ⟨_, rfl, fun a ha => ?_, fun a ha => ?_⟩
      · by_cases hap : a = p
        · subst hap
          exact Function.update_self ..
        · rw [Function.update_of_ne hap]
          rcases (hi.anc_iff hp).1 ha with rfl | ⟨-, i, c, hc, hca⟩
          · exact absurd rfl hap
          · refine hfreed a ⟨i, ?_, c, hc, hca⟩
            have hbit := (hi.bitmap p n i hp hne).2 (by simp [hc])
            have hidx := (hi.child p n i c hp hne hc)
            obtain ⟨m, -, -, hfits⟩ := hidx
            have := hfits.idx
            exact mem_filter.2 ⟨mem_range.2 (by omega), hbit⟩
      · have hap : a ≠ p := by
          rintro rfl
          exact ha (.refl a)
        rw [Function.update_of_ne hap, hkept a]
        rintro ⟨i, -, c, hc, hca⟩
        exact ha ((hi.anc_iff hp).2 (.inr ⟨hne, i, c, hc, hca⟩))
    · rw [if_neg hne]
      refine ⟨_, rfl, fun a ha => ?_, fun a ha => ?_⟩
      · rcases (hi.anc_iff hp).1 ha with rfl | ⟨hne', -⟩
        · exact Function.update_self ..
        · exact absurd hne' hne
      · have hap : a ≠ p := by
          rintro rfl
          exact ha (.refl a)
        exact Function.update_of_ne hap ..

/-! ## `i915_syncmap_free` -/

/-- **What `i915_syncmap_free` does.** It leaves an empty heap and a null pointer. -/
theorem free_spec {s : State} (hi : Inv s) :
    ∃ s', free s = some s' ∧ Inv s' ∧ s'.root = none ∧ ∀ a, s'.nodes a = none := by
  unfold free
  rcases hr : s.root with _ | p
  · exact ⟨s, rfl, hi, hr, hi.empty hr⟩
  · obtain ⟨n, hp, hh⟩ := hi.leaf p hr
    obtain ⟨q, m, hq, hm, htop⟩ := climbTop_spec hi.tree 16 hp (by omega)
    have hle := (hi.tree.height q m hm).2.1
    obtain ⟨nodes', hfree, hfreed, hkept⟩ :=
      freeLayer_spec hi.tree 16 s.nodes q m hm (by omega) (fun _ _ => rfl)
    have hnone : ∀ a, nodes' a = none := by
      intro a
      by_cases ha : Anc s.nodes q a
      · exact hfreed a ha
      · rw [hkept a ha]
        by_contra hne
        obtain ⟨ma, hma⟩ := ne_none_iff_exists'.1 hne
        obtain ⟨t, nt, hanc, hnt, hnone⟩ := hi.tree.exists_top hma
        obtain rfl := hi.tree.top t q nt m hnt hm hnone htop
        exact ha hanc
    simp only [hq, hfree, bind_eq_bind, bind_some]
    refine ⟨_, rfl, ⟨?_, fun a _ => hnone a, fun _ => hnone, by simp⟩, rfl, hnone⟩
    constructor <;> simp [hnone]

end KmsDrm.I915.SyncMap
