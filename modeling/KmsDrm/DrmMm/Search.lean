import KmsDrm.DrmMm.Color

/-!
# Finding a hole

The search of `drm_mm_insert_node_in_range` is complete. Each insertion mode walks over its own
index of the holes, in its own order and from its own starting point, and two of them leave the
loop early. A pass of the loop decides exactly whether its hole has room (`tryHole_spec`); the
holes a mode does not look at have none (`firstHole_spec`, `no_fit_after_stop`).

## Main definitions

* `DrmMm.visitOrder` — the holes in the order of a mode.

## Main results

* `DrmMm.Sound.search_some`, `DrmMm.Inv.search_none` — a search with and without success.
-/

namespace KmsDrm.DrmMm

open KmsDrm.Lib List CircList

variable {ws : List Ref} {mm : Mm} {hole : Ref} {hi lo rem s start : U64}

/-! ## Room in a gap -/

/-- The interval of `size` bytes at `s` lies in `[lo, hi)` and in the range asked for, and `s` is
a multiple of the alignment, `0` and `1` meaning that there is none. -/
def Fits (size alignment rangeStart rangeEnd lo hi s : U64) : Prop :=
  lo.toNat ≤ s.toNat ∧ s.toNat + size.toNat ≤ hi.toNat ∧
    rangeStart.toNat ≤ s.toNat ∧ s.toNat + size.toNat ≤ rangeEnd.toNat ∧
    (1 < alignment.toNat → alignment.toNat ∣ s.toNat)

instance (size alignment rangeStart rangeEnd lo hi s : U64) :
    Decidable (Fits size alignment rangeStart rangeEnd lo hi s) := by
  unfold Fits
  infer_instance

lemma maxU64_toNat (a b : U64) : (maxU64 a b).toNat = max a.toNat b.toNat := by
  rw [maxU64]
  split <;> bv_omega

lemma minU64_toNat (a b : U64) : (minU64 a b).toNat = min a.toNat b.toNat := by
  rw [minU64]
  split <;> bv_omega

lemma alignRem_toNat (alignment addr : U64) :
    (alignRem alignment (if isPowerOf2 alignment then alignment - 1 else 0) addr).toNat =
      addr.toNat % alignment.toNat := by
  by_cases hp : isPowerOf2 alignment = true
  · obtain ⟨h0, hand⟩ : alignment ≠ 0 ∧ alignment &&& (alignment - 1) = 0 := by
      simpa [isPowerOf2] using hp
    have hsub : (alignment - 1).toNat = alignment.toNat - 1 := by bv_omega
    obtain ⟨k, hk⟩ : alignment.toNat.isPowerOfTwo := by
      refine (Nat.and_sub_one_eq_zero_iff_isPowerOfTwo (by bv_omega)).1 ?_
      rw [← hsub, ← BitVec.toNat_and, hand]
      rfl
    rw [if_pos hp, alignRem]
    split
    · rw [BitVec.toNat_and, hsub, hk, Nat.and_two_pow_sub_one_eq_mod]
    · rw [BitVec.toNat_umod]
  · rw [if_neg hp, alignRem, if_neg (by simp), BitVec.toNat_umod]

lemma le_of_dvd_of_mod_ne_zero {m a s : ℕ} (ha : a % m ≠ 0) (hs : m ∣ s)
    (h : a ≤ s) : a - a % m + m ≤ s := by
  obtain ⟨k, rfl⟩ := hs
  have hdiv := Nat.div_add_mod a m
  have hq : a / m < k := by
    by_contra hk
    have := Nat.mul_le_mul_left m (not_lt.1 hk)
    omega
  have := Nat.mul_le_mul_left m hq
  rw [Nat.succ_eq_add_one, Nat.mul_add] at this
  omega

lemma le_sub_mod_of_dvd {m b s : ℕ} (hs : m ∣ s) (h : s ≤ b) : s ≤ b - b % m := by
  obtain ⟨k, rfl⟩ := hs
  have hdiv := Nat.div_add_mod b m
  rcases Nat.eq_zero_or_pos m with rfl | hm
  · simp
  · have hk : k ≤ b / m := (Nat.le_div_iff_mul_le hm).2 (by rwa [Nat.mul_comm])
    have := Nat.mul_le_mul_left m hk
    omega

section Try

variable {size alignment color rangeStart rangeEnd : U64} {mode : InsertMode}

lemma fits_iff : Fits size alignment rangeStart rangeEnd lo hi s ↔
    (maxU64 lo rangeStart).toNat ≤ s.toNat ∧
      s.toNat + size.toNat ≤ (minU64 hi rangeEnd).toNat ∧
      (1 < alignment.toNat → alignment.toNat ∣ s.toNat) := by
  rw [maxU64_toNat, minU64_toNat, Fits]
  omega

/-- The first multiple of the alignment from `a` on, as the loop computes it: either the sum
wraps around and there is none, or it is the least one. -/
lemma align_up {a : U64} (hal : 1 < alignment.toNat)
    (hrem : rem.toNat = a.toNat % alignment.toNat) (h0 : rem ≠ 0) (hs : a.toNat ≤ s.toNat)
    (hdvd : alignment.toNat ∣ s.toNat) :
    ¬ a - rem + alignment < a ∧ (a - rem + alignment).toNat ≤ s.toNat := by
  have hle := le_of_dvd_of_mod_ne_zero (by bv_omega) hdvd hs
  have hlt := Nat.mod_lt a.toNat (show alignment.toNat > 0 by omega)
  constructor <;> bv_omega

/-- What a pass of the search loop says about its hole. -/
def VerdictSpec (size alignment rangeStart rangeEnd lo hi : U64) (mode : InsertMode) :
    Verdict → Prop
  | .stop => (mode = .low ∧ rangeEnd ≤ lo) ∨ (mode = .high ∧ hi ≤ rangeStart)
  | .skip => ∀ s, ¬ Fits size alignment rangeStart rangeEnd lo hi s
  | .place s => Fits size alignment rangeStart rangeEnd lo hi s

lemma tryHole_aligned {a e adj : U64} (hal : 1 < alignment.toNat) (hsize : size ≠ 0)
    (hroom : ¬ (e ≤ a ∨ e - a < size)) (hadj : adj = if mode = .high then e - size else a)
    (hrem : rem.toNat = adj.toNat % alignment.toNat) (h0 : rem ≠ 0) (hs : a.toNat ≤ s.toNat)
    (hse : s.toNat + size.toNat ≤ e.toNat) (hdvd : alignment.toNat ∣ s.toNat) :
    let adj' := if mode ≠ .high then adj - rem + alignment else adj - rem
    ¬ (adj' < a ∨ e - adj' < size) ∧ ¬ (e ≤ adj' ∨ e - adj' < size) := by
  by_cases hm : mode = .high
  · rw [if_pos hm] at hadj
    have hle := le_sub_mod_of_dvd hdvd (show s.toNat ≤ adj.toNat by bv_omega)
    have hmod := Nat.mod_le adj.toNat alignment.toNat
    simp only [ne_eq, hm, not_true_eq_false, if_false]
    bv_omega
  · rw [if_neg hm] at hadj
    subst hadj
    obtain ⟨hge, hle⟩ := align_up hal hrem h0 hs hdvd
    simp only [ne_eq, hm, not_false_eq_true, if_true]
    bv_omega

lemma dvd_aligned {adj : U64} (hrem : rem.toNat = adj.toNat % alignment.toNat) :
    alignment.toNat ∣ (adj - rem).toNat ∧
      (¬ adj - rem + alignment < adj → alignment.toNat ∣ (adj - rem + alignment).toNat) := by
  have hmod := Nat.mod_le adj.toNat alignment.toNat
  have hsub : (adj - rem).toNat = adj.toNat - adj.toNat % alignment.toNat := by
    bv_omega
  have hdvd : alignment.toNat ∣ (adj - rem).toNat := hsub ▸ Nat.dvd_sub_mod adj.toNat
  refine ⟨hdvd, fun hge => ?_⟩
  by_cases hal : alignment.toNat = 0
  · have : (adj - rem + alignment).toNat = (adj - rem).toNat := by bv_omega
    rwa [this]
  · have : (adj - rem + alignment).toNat = (adj - rem).toNat + alignment.toNat := by
      bv_omega
    rw [this]
    exact Nat.dvd_add hdvd (Nat.dvd_refl _)

/-- Where a node goes between two bounds, if there is room, as the search loop and the eviction
scan compute it. -/
def placeBetween (size alignment remainderMask rangeStart rangeEnd : U64) (mode : InsertMode)
    (col : U64 × U64) : Option U64 :=
  let adjStart := maxU64 col.1 rangeStart
  let adjEnd := minU64 col.2 rangeEnd
  if adjEnd ≤ adjStart ∨ adjEnd - adjStart < size then none
  else
    let adjStart := if mode = .high then adjEnd - size else adjStart
    if alignment ≠ 0 then
      let rem := alignRem alignment remainderMask adjStart
      if rem ≠ 0 then
        let adjStart := adjStart - rem
        let adjStart := if mode ≠ .high then adjStart + alignment else adjStart
        if adjStart < maxU64 col.1 rangeStart ∨ minU64 col.2 rangeEnd - adjStart < size then none
        else if adjEnd ≤ adjStart ∨ adjEnd - adjStart < size then none
        else some adjStart
      else some adjStart
    else some adjStart

lemma placeBetween_spec (hsize : size ≠ 0) (hal : alignment = 0 ∨ 1 < alignment.toNat)
    (rangeStart rangeEnd : U64) (mode : InsertMode) (lo hi : U64) :
    match placeBetween size alignment (if isPowerOf2 alignment then alignment - 1 else 0)
      rangeStart rangeEnd mode (lo, hi) with
    | none => ∀ s, ¬ Fits size alignment rangeStart rangeEnd lo hi s
    | some s => Fits size alignment rangeStart rangeEnd lo hi s := by
  simp only [placeBetween]
  by_cases hroom : minU64 hi rangeEnd ≤ maxU64 lo rangeStart ∨
      minU64 hi rangeEnd - maxU64 lo rangeStart < size
  · rw [if_pos hroom]
    intro s hs
    rw [fits_iff] at hs
    bv_omega
  rw [if_neg hroom]
  generalize hadj : (if mode = .high then minU64 hi rangeEnd - size else maxU64 lo rangeStart) =
    adj
  have hin : (maxU64 lo rangeStart).toNat ≤ adj.toNat ∧
      adj.toNat + size.toNat ≤ (minU64 hi rangeEnd).toNat := by
    subst hadj
    split <;> bv_omega
  rcases hal with rfl | hal
  · exact fits_iff.2 ⟨hin.1, hin.2, by simp⟩
  rw [if_pos (by bv_omega)]
  have hrem := alignRem_toNat alignment adj
  generalize alignRem alignment (if isPowerOf2 alignment then alignment - 1 else 0) adj = rem
    at hrem ⊢
  by_cases h0 : rem = 0
  · rw [if_neg (by simpa using h0)]
    refine fits_iff.2 ⟨hin.1, hin.2, fun _ => Nat.dvd_of_mod_eq_zero ?_⟩
    rw [← hrem, h0]
    rfl
  rw [if_pos h0]
  have hall := fun s => tryHole_aligned (s := s) hal hsize hroom hadj.symm hrem h0
  have hdvd := dvd_aligned hrem
  generalize hadj' : (if mode ≠ .high then adj - rem + alignment else adj - rem) = adj'
    at hall ⊢
  by_cases hs1 : adj' < maxU64 lo rangeStart ∨ minU64 hi rangeEnd - adj' < size
  · rw [if_pos hs1]
    intro s hs
    rw [fits_iff] at hs
    exact (hall s hs.1 hs.2.1 (hs.2.2 hal)).1 hs1
  rw [if_neg hs1]
  by_cases hs2 : minU64 hi rangeEnd ≤ adj' ∨ minU64 hi rangeEnd - adj' < size
  · rw [if_pos hs2]
    intro s hs
    rw [fits_iff] at hs
    exact (hall s hs.1 hs.2.1 (hs.2.2 hal)).2 hs2
  rw [if_neg hs2]
  refine fits_iff.2 ⟨by bv_omega, by bv_omega, fun _ => ?_⟩
  by_cases hm : mode = .high
  · rw [← hadj', if_neg (by simpa using hm)]
    exact hdvd.1
  · rw [if_pos hm] at hadj'
    rw [if_neg hm] at hadj
    rw [← hadj']
    exact hdvd.2 (by rw [hadj', ← hadj]; exact fun h => hs1 (.inl h))

/-- What a pass of the search loop does with the place it computes. -/
def Verdict.ofPlace : Option U64 → Verdict
  | none => .skip
  | some s => .place s

lemma tryHole_eq (remainderMask : U64) :
    tryHole mm hole size alignment remainderMask color rangeStart rangeEnd mode =
      if mode = .low ∧ rangeEnd ≤ holeNodeStart mm hole then .stop
      else if mode = .high ∧ holeNodeStart mm hole + (mm.node hole).holeSize ≤ rangeStart then .stop
      else Verdict.ofPlace (placeBetween size alignment remainderMask rangeStart rangeEnd mode
        (adjustColor mm hole color
          (holeNodeStart mm hole, holeNodeStart mm hole + (mm.node hole).holeSize))) := by
  simp only [placeBetween, apply_ite Verdict.ofPlace]
  rfl

lemma Verdict.ofPlace_eq_place {o : Option U64} (h : ofPlace o = .place s) : o = some s := by
  cases o <;> cases h
  rfl

lemma placeBetween_of_tryHole {remainderMask : U64}
    (h : tryHole mm hole size alignment remainderMask color rangeStart rangeEnd mode = .place s) :
    placeBetween size alignment remainderMask rangeStart rangeEnd mode
      (adjustColor mm hole color
        (holeNodeStart mm hole, holeNodeStart mm hole + (mm.node hole).holeSize)) = some s := by
  rw [tryHole_eq] at h
  split_ifs at h
  exact Verdict.ofPlace_eq_place h

lemma tryHole_spec (hc : mm.colorAdjust = none) (hsize : size ≠ 0)
    (hal : alignment = 0 ∨ 1 < alignment.toNat) :
    VerdictSpec size alignment rangeStart rangeEnd (holeNodeStart mm hole)
      (holeNodeStart mm hole + (mm.node hole).holeSize) mode
      (tryHole mm hole size alignment (if isPowerOf2 alignment then alignment - 1 else 0) color
        rangeStart rangeEnd mode) := by
  rw [tryHole_eq]
  by_cases hlow : mode = .low ∧ rangeEnd ≤ holeNodeStart mm hole
  · rw [if_pos hlow]
    exact .inl hlow
  rw [if_neg hlow]
  by_cases hhigh : mode = .high ∧ holeNodeStart mm hole + (mm.node hole).holeSize ≤ rangeStart
  · rw [if_pos hhigh]
    exact .inr hhigh
  rw [if_neg hhigh]
  simp only [adjustColor, hc]
  have hplace := placeBetween_spec hsize hal rangeStart rangeEnd mode (holeNodeStart mm hole)
    (holeNodeStart mm hole + (mm.node hole).holeSize)
  split at hplace
  next hp =>
    rw [hp]
    exact hplace
  next s hp =>
    rw [hp]
    exact hplace

end Try

/-! ## The order of the visits -/

/-- The order in which an insertion mode goes over the holes. -/
def visitOrder (mm : Mm) : InsertMode → List Ref
  | .best => mm.holesSize.inorder
  | .low => mm.holesAddr.inorder
  | .high => mm.holesAddr.inorder.reverse
  | .evict => mm.holeStack

lemma Indexed.isIndex_visitOrder (h : Indexed mm) (mode : InsertMode) :
    IsIndex mm (visitOrder mm mode) := by
  cases mode with
  | best => exact h.size
  | low => exact h.addr
  | high => exact ⟨nodup_reverse.2 h.addr.1, fun r => mem_reverse.trans (h.addr.2 r)⟩
  | evict => exact h.stack

lemma nextHole_eq (h : Indexed mm) {mode : InsertMode} {xs ys : List Ref} {x : Ref}
    (heq : visitOrder mm mode = xs ++ x :: ys) : nextHole mm x mode = ys.head? := by
  have hn := (h.isIndex_visitOrder mode).1
  cases mode with
  | best => exact BinTree.next_eq h.size.1 heq
  | low => exact BinTree.next_eq h.addr.1 heq
  | high =>
    have hrev : mm.holesAddr.inorder = ys.reverse ++ x :: xs.reverse := by
      rw [← reverse_reverse mm.holesAddr.inorder]
      change (visitOrder mm .high).reverse = _
      rw [heq]
      simp
    rw [nextHole, BinTree.prev_eq h.addr.1 hrev, List.getLast?_reverse]
  | evict => exact nextAfter_eq hn heq

lemma Placed.pairwise_refs (h : Placed lo hi mm) :
    mm.refs.Pairwise fun a b =>
      holeNodeEnd mm a ≤ (mm.node b).start ∧ (mm.node b).start < holeNodeStart mm b := by
  let R : Ref → Ref → Prop := fun a b =>
    holeNodeEnd mm a ≤ (mm.node b).start ∧ (mm.node b).start < holeNodeStart mm b ∧
      holeNodeStart mm b ≤ holeNodeEnd mm b
  have hchain : List.IsChain R mm.refs := by
    refine isChain_ptrs h.nodup fun q hq b hb => ?_
    have hmem : b ∈ mm.nodeList := by
      have := next_mem_ptrs mm.nodeList q
      rwa [hb, some_mem_ptrs] at this
    refine ⟨?_, h.nodePos b hmem, h.gapLe (some b) (some_mem_ptrs.2 hmem)⟩
    rw [holeNodeEnd, hb]
    exact BitVec.le_refl _
  have htrans : ∀ {a b c : Ref}, R a b → R b c → R a c := by
    rintro a b c ⟨hab, hb, hbb⟩ ⟨hbc, hc⟩
    exact ⟨by bv_omega, hc⟩
  have : IsTrans Ref R := ⟨fun _ _ _ => htrans⟩
  exact hchain.pairwise.imp fun hab => ⟨hab.1, hab.2.1⟩

lemma Inv.addr_disjoint (h : Inv lo hi mm) :
    mm.holesAddr.inorder.Pairwise fun a b => holeNodeEnd mm a < holeNodeStart mm b := by
  refine (h.indexed.addrSorted.and h.indexed.addr.1).imp_of_mem fun {a b} ha hb hab => ?_
  have hra := ((h.indexed.addr.2 a).1 ha).1
  have hrb := ((h.indexed.addr.2 b).1 hb).1
  let R : Ref → Ref → Prop := fun a b =>
    holeNodeEnd mm a < holeNodeStart mm b ∨ holeNodeEnd mm b < holeNodeStart mm a
  have : Std.Symm R := ⟨fun _ _ => Or.symm⟩
  have hR : mm.refs.Pairwise R := h.pairwise_refs.imp fun hab => .inl (by bv_omega)
  rcases hR.forall hra hrb hab.2 with hlt | hlt
  · exact hlt
  · have := h.gapLe b hrb
    bv_omega

lemma Inv.holeEnd_eq (h : Inv lo hi mm) {r : Ref} (hr : r ∈ mm.refs) :
    holeNodeStart mm r + (mm.node r).holeSize = holeNodeEnd mm r := by
  rw [h.gapEq r hr]
  bv_omega

/-! ## The loop -/

section Loop

variable {size alignment remainderMask color rangeStart rangeEnd : U64} {mode : InsertMode}

lemma searchHoles_spec (h : Indexed mm) {fuel : ℕ} {l : List Ref}
    (hl : visitOrder mm mode = ws ++ l) (hf : l.length < fuel) :
    ∃ xs ys, l = xs ++ ys ∧
      (∀ x ∈ xs,
        tryHole mm x size alignment remainderMask color rangeStart rangeEnd mode = .skip) ∧
      match searchHoles mm size alignment remainderMask color rangeStart rangeEnd mode fuel
        l.head? with
      | none => ∀ x ∈ ys.head?,
        tryHole mm x size alignment remainderMask color rangeStart rangeEnd mode = .stop
      | some (hole, start) => (∃ zs, ys = hole :: zs) ∧
        tryHole mm hole size alignment remainderMask color rangeStart rangeEnd mode =
          .place start := by
  induction fuel generalizing ws l with
  | zero => omega
  | succ fuel ih =>
    cases l with
    | nil => exact ⟨[], [], rfl, by simp, by simp [searchHoles]⟩
    | cons x ys =>
      rw [List.head?_cons, searchHoles]
      cases hv : tryHole mm x size alignment remainderMask color rangeStart rangeEnd mode with
      | stop => exact ⟨[], x :: ys, rfl, by simp, by simpa using hv⟩
      | place s => exact ⟨[], x :: ys, rfl, by simp, ⟨ys, rfl⟩, hv⟩
      | skip =>
        obtain ⟨xs, zs, rfl, hskip, hret⟩ :=
          ih (show _ = (ws ++ [x]) ++ ys by simp [hl]) (by simpa using hf)
        rw [← nextHole_eq h hl] at hret
        exact ⟨x :: xs, zs, rfl, by simpa using ⟨hv, hskip⟩, hret⟩

/-- There is no room behind a node. -/
def NoFit (mm : Mm) (size alignment rangeStart rangeEnd : U64) (r : Ref) : Prop :=
  ∀ s, ¬ Fits size alignment rangeStart rangeEnd (holeNodeStart mm r) (holeNodeEnd mm r) s

lemma Inv.cmpHole_pairwise (h : Inv lo hi mm) (addr : U64) :
    mm.holesAddr.inorder.Pairwise fun a b =>
      (cmpHole mm addr a = .lt → cmpHole mm addr b = .lt) ∧
      (cmpHole mm addr b = .gt → cmpHole mm addr a = .gt) ∧
      (cmpHole mm addr a = .eq → cmpHole mm addr b = .lt) := by
  refine h.addr_disjoint.imp_of_mem fun {a b} ha hb hab => ?_
  have hra := ((h.indexed.addr.2 a).1 ha).1
  have hga := h.gapLe a hra
  rw [cmpHole, cmpHole, h.holeEnd_eq hra]
  refine ⟨?_, ?_, ?_⟩ <;> split_ifs <;> simp <;> bv_omega

lemma Inv.findHole_spec (h : Inv lo hi mm) (addr : U64) :
    (mm.holesAddr = .nil ∧ findHole mm addr = none) ∨
      ∃ xs x ys, mm.holesAddr.inorder = xs ++ x :: ys ∧ findHole mm addr = some x ∧
        (∀ y ∈ xs, holeNodeEnd mm y < addr) ∧ (∀ y ∈ ys, addr < holeNodeStart mm y) := by
  rcases BinTree.probe_spec mm.holesAddr none (h.cmpHole_pairwise addr) with hnil | hsome
  · exact .inl hnil
  · obtain ⟨xs, x, ys, hio, hx, hxs, hys⟩ := hsome
    refine .inr ⟨xs, x, ys, hio, hx, fun y hy => ?_, fun y hy => ?_⟩
    · have hmem : y ∈ mm.holesAddr.inorder := by simp [hio, hy]
      have hcmp := hxs y hy
      rw [cmpHole, h.holeEnd_eq ((h.indexed.addr.2 y).1 hmem).1] at hcmp
      by_contra hlt
      split at hcmp <;> cases hcmp
    · have hcmp := hys y hy
      rw [cmpHole] at hcmp
      by_contra hlt
      rw [if_neg hlt] at hcmp
      split at hcmp <;> cases hcmp

lemma IsIndex.perm {l l' : List Ref} (h : IsIndex mm l) (h' : IsIndex mm l') : l.Perm l' :=
  (perm_ext_iff_of_nodup h.1 h'.1).2 fun r => (h.2 r).trans (h'.2 r).symm

lemma Indexed.length_lt (h : Indexed mm) {l : List Ref} (hl : visitOrder mm mode = ws ++ l) :
    l.length < mm.holeStack.length + 1 := by
  rw [(h.stack.perm (h.isIndex_visitOrder mode)).length_eq, hl, length_append]
  omega

lemma Indexed.nil_iff (h : Indexed mm) (mode : InsertMode) :
    mm.holesSize = .nil ↔ visitOrder mm mode = [] := by
  have hperm := h.size.perm (h.isIndex_visitOrder mode)
  constructor
  · intro hnil
    rw [hnil] at hperm
    exact nil_perm.1 hperm
  · intro hnil
    rw [hnil] at hperm
    cases ht : mm.holesSize with
    | nil => rfl
    | node c l a r => simp [ht] at hperm

lemma Inv.bestHole_spec (h : Inv lo hi mm) (size : U64) :
    ∃ ws l, mm.holesSize.inorder = ws ++ l ∧ bestHole mm size = l.head? ∧
      ∀ r ∈ ws, (mm.node r).holeSize < size := by
  have hbest : bestHole mm size =
      mm.holesSize.inorder.find? fun a => decide (size ≤ (mm.node a).holeSize) := by
    rw [bestHole, BinTree.lowerBound_eq, Option.or_none]
    refine h.indexed.sizeSorted.imp fun {a b} hab ha => ?_
    simp only [decide_eq_true_eq] at ha ⊢
    bv_omega
  rw [hbest]
  cases hf : mm.holesSize.inorder.find? fun a => decide (size ≤ (mm.node a).holeSize) with
  | none =>
    refine ⟨mm.holesSize.inorder, [], by simp, rfl, fun r hr => ?_⟩
    simpa using List.find?_eq_none.1 hf r hr
  | some x =>
    obtain ⟨-, ws, l, hl, hws⟩ := List.find?_eq_some_iff_append.1 hf
    exact ⟨ws, x :: l, hl, rfl, fun r hr => by simpa using hws r hr⟩

lemma Inv.firstHole_spec (h : Inv lo hi mm) (size alignment rangeStart rangeEnd : U64)
    (mode : InsertMode) :
    ∃ ws l, visitOrder mm mode = ws ++ l ∧
      firstHole mm rangeStart rangeEnd size mode = l.head? ∧
      ∀ r ∈ ws, NoFit mm size alignment rangeStart rangeEnd r := by
  cases hnil : mm.holesSize with
  | nil =>
    refine ⟨[], [], (h.indexed.nil_iff mode).1 hnil, ?_, by simp⟩
    simp [firstHole, hnil]
  | node c l a r =>
    have hfirst : firstHole mm rangeStart rangeEnd size mode = match mode with
        | .best => bestHole mm size
        | .low => findHole mm rangeStart
        | .high => findHole mm rangeEnd
        | .evict => mm.holeStack.head? := by
      cases mode <;> simp [firstHole, hnil]
    have haddr : mm.holesAddr ≠ .nil := by
      intro hn
      have := (h.indexed.nil_iff .low).2 (by rw [visitOrder, hn]; rfl)
      rw [hnil] at this
      cases this
    rw [hfirst]
    cases mode with
    | best =>
      obtain ⟨ws, l, hl, hb, hws⟩ := h.bestHole_spec size
      refine ⟨ws, l, hl, hb, fun r hr s hs => ?_⟩
      have hmem : r ∈ mm.holesSize.inorder := by simp [hl, hr]
      have := h.holeEnd_eq ((h.indexed.size.2 r).1 hmem).1
      have := hws r hr
      have := hs.1
      have := hs.2.1
      bv_omega
    | low =>
      rcases h.findHole_spec rangeStart with hn | ⟨xs, x, ys, hio, hx, hxs, hys⟩
      · exact absurd hn.1 haddr
      · refine ⟨xs, x :: ys, hio, hx, fun r hr s hs => ?_⟩
        have := hxs r hr
        obtain ⟨-, h2, h3, -⟩ := hs
        bv_omega
    | high =>
      rcases h.findHole_spec rangeEnd with hn | ⟨xs, x, ys, hio, hx, hxs, hys⟩
      · exact absurd hn.1 haddr
      · refine ⟨ys.reverse, x :: xs.reverse, by simp [visitOrder, hio], hx, fun r hr s hs => ?_⟩
        have := hys r (mem_reverse.1 hr)
        obtain ⟨h1, -, -, h4, -⟩ := hs
        bv_omega
    | evict => exact ⟨[], mm.holeStack, rfl, rfl, by simp⟩

variable (hsize : size ≠ 0) (hal : alignment = 0 ∨ 1 < alignment.toNat)

include hsize hal

lemma Inv.noFit_of_skip (h : Inv lo hi mm) {r : Ref} (hr : r ∈ mm.refs)
    (hskip : tryHole mm r size alignment (if isPowerOf2 alignment then alignment - 1 else 0) color
      rangeStart rangeEnd mode = .skip) : NoFit mm size alignment rangeStart rangeEnd r := by
  have hspec : VerdictSpec size alignment rangeStart rangeEnd (holeNodeStart mm r)
      (holeNodeStart mm r + (mm.node r).holeSize) mode .skip :=
    hskip ▸ tryHole_spec h.noColor hsize hal
  rw [h.holeEnd_eq hr] at hspec
  exact hspec

lemma Inv.no_fit_after_stop (h : Inv lo hi mm) {ys : List Ref} {x : Ref}
    (hl : visitOrder mm mode = ws ++ x :: ys)
    (hstop : tryHole mm x size alignment (if isPowerOf2 alignment then alignment - 1 else 0) color
      rangeStart rangeEnd mode = .stop) :
    ∀ r ∈ x :: ys, NoFit mm size alignment rangeStart rangeEnd r := by
  have hspec : VerdictSpec size alignment rangeStart rangeEnd (holeNodeStart mm x)
      (holeNodeStart mm x + (mm.node x).holeSize) mode .stop :=
    hstop ▸ tryHole_spec h.noColor hsize hal
  have hx := (((h.indexed.isIndex_visitOrder mode).2 x).1 (by simp [hl])).1
  rcases hspec with ⟨rfl, hle⟩ | ⟨rfl, hle⟩
  · intro r hr s hs
    have hord := h.addr_disjoint
    rw [show mm.holesAddr.inorder = ws ++ x :: ys from hl, pairwise_append,
      pairwise_cons] at hord
    have hge : holeNodeStart mm x ≤ holeNodeStart mm r := by
      rcases mem_cons.1 hr with rfl | hr
      · bv_omega
      · have := hord.2.1.1 r hr
        have := h.gapLe x hx
        bv_omega
    obtain ⟨h1, h2, h3, h4, -⟩ := hs
    bv_omega
  · intro r hr s hs
    have hord := h.addr_disjoint
    rw [← pairwise_reverse, show mm.holesAddr.inorder.reverse = ws ++ x :: ys from hl,
      pairwise_append, pairwise_cons] at hord
    rw [h.holeEnd_eq hx] at hle
    have hge : holeNodeEnd mm r ≤ holeNodeEnd mm x := by
      rcases mem_cons.1 hr with rfl | hr
      · bv_omega
      · have := hord.2.1.1 r hr
        have := h.gapLe x hx
        bv_omega
    obtain ⟨h1, h2, h3, h4, -⟩ := hs
    bv_omega

/-- The search of a mode over all holes. -/
def search (mm : Mm) (size alignment color rangeStart rangeEnd : U64) (mode : InsertMode) :
    Option (Ref × U64) :=
  searchHoles mm size alignment (if isPowerOf2 alignment then alignment - 1 else 0) color
    rangeStart rangeEnd mode (mm.holeStack.length + 1)
    (firstHole mm rangeStart rangeEnd size mode)

/-- A successful search gives an aligned interval inside of a gap and of the range, whatever the
callback makes of the gap. -/
lemma Sound.search_some (h : Sound lo hi mm)
    (hs : search mm size alignment color rangeStart rangeEnd mode = some (hole, start)) :
    hole ∈ mm.refs ∧ Fits size alignment rangeStart rangeEnd (holeNodeStart mm hole)
      (holeNodeEnd mm hole) start := by
  have hindexed : Indexed mm := { h.inv.indexed with }
  obtain ⟨ws, l, hl, hfirst, -⟩ := h.inv.firstHole_spec size alignment rangeStart rangeEnd mode
  rw [search, show firstHole mm rangeStart rangeEnd size mode = l.head? from hfirst] at hs
  have hl : visitOrder mm mode = ws ++ l := hl
  obtain ⟨xs, ys, rfl, -, hret⟩ := searchHoles_spec hindexed hl (hindexed.length_lt hl)
  rw [hs] at hret
  obtain ⟨⟨zs, rfl⟩, hv⟩ := hret
  have href := (((hindexed.isIndex_visitOrder mode).2 hole).1 (by simp [hl])).1
  have hend : holeNodeStart mm hole + (mm.node hole).holeSize = holeNodeEnd mm hole :=
    h.inv.holeEnd_eq href
  have hplace := placeBetween_of_tryHole hv
  rw [hend] at hplace
  obtain ⟨hlo, hhi⟩ := h.adjustColor_le hole color (holeNodeStart mm hole, holeNodeEnd mm hole)
  have hfits := placeBetween_spec hsize hal rangeStart rangeEnd mode
    (adjustColor mm hole color (holeNodeStart mm hole, holeNodeEnd mm hole)).1
    (adjustColor mm hole color (holeNodeStart mm hole, holeNodeEnd mm hole)).2
  rw [hplace] at hfits
  exact ⟨href, Nat.le_trans hlo hfits.1, Nat.le_trans hfits.2.1 hhi, hfits.2.2⟩

/-- A search fails only when no gap has room.

**Proof sketch.** The order of the mode is cut into the holes before the first one, which have no
room by `firstHole_spec`; the holes that the loop skips, which have none by `tryHole_spec`; and
those behind the point where it stops, if it does, by `no_fit_after_stop`. A gap that is not in
the order of the mode is empty. -/
lemma Inv.search_none (h : Inv lo hi mm)
    (hs : search mm size alignment color rangeStart rangeEnd mode = none) {r : Ref}
    (hr : r ∈ mm.refs) : NoFit mm size alignment rangeStart rangeEnd r := by
  obtain ⟨ws, l, hl, hfirst, hws⟩ := h.firstHole_spec size alignment rangeStart rangeEnd mode
  rw [search, hfirst] at hs
  obtain ⟨xs, ys, rfl, hskip, hstop⟩ := searchHoles_spec h.indexed hl (h.indexed.length_lt hl)
  rw [hs] at hstop
  by_cases h0 : (mm.node r).holeSize = 0
  · intro s hfit
    have := h.holeEnd_eq hr
    obtain ⟨h1, h2, -⟩ := hfit
    bv_omega
  · have hmem : r ∈ visitOrder mm mode := ((h.indexed.isIndex_visitOrder mode).2 r).2 ⟨hr, h0⟩
    rw [hl, mem_append, mem_append] at hmem
    rcases hmem with hmem | hmem | hmem
    · exact hws r hmem
    · exact h.noFit_of_skip hsize hal hr (hskip r hmem)
    · cases ys with
      | nil => simp at hmem
      | cons y ys =>
        rw [← append_assoc] at hl
        exact h.no_fit_after_stop hsize hal hl (hstop y (by simp)) r hmem

end Loop

end KmsDrm.DrmMm
