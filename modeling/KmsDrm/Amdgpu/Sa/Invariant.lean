import KmsDrm.Amdgpu.Sa.Basic

/-!
# The ranges of the amdgpu sub-allocator

In every state that the threads reach, the ranges on `olist` are in order, disjoint and inside the
buffer, the hole is a position of the list, and a range that was freed with a fence stays on the
list until the fence is signaled.

## Main results

* `Amdgpu.Sa.saNext_spec` — every step keeps the invariant.
* `Amdgpu.Sa.suballoc_safe` — the safety of the sub-allocator.
-/

namespace KmsDrm.Amdgpu.Sa

open KmsDrm.Lib List Option CircList Threads
open Function (update update_of_ne update_self)

variable {s s' : Shared} {f : Fence} {m : Manager} {align best i size soffset t : ℕ}
  {c : Threads.Config Shared Pc} {id : BoId} {x : Choice} {p p' : Pc} {r : Request}
  {bestBo : Option BoId} {xs ys : List BoId}

/-! ## The lists and the hole -/

/-- The ranges on `olist` are in order, disjoint and inside the buffer; the hole is a position of
`olist`; and the lists of fences hold allocations of `olist` that have a fence. -/
structure Ordered (m : Manager) : Prop where
  nodup : m.olist.Nodup
  hole : m.hole ∈ ptrs m.olist
  sorted : m.olist.Pairwise fun a b => (m.bo a).eoffset ≤ (m.bo b).soffset
  bounds : ∀ id ∈ m.olist, (m.bo id).soffset ≤ (m.bo id).eoffset ∧ (m.bo id).eoffset ≤ m.size
  listed : ∀ i, ∀ id ∈ m.flist i, id ∈ m.olist ∧ (m.bo id).fence ≠ none
  flist_nodup : ∀ i, (m.flist i).Nodup

lemma ordered_managerInit (size align : ℕ) : Ordered (managerInit size align) := by
  constructor <;> simp [managerInit]

lemma Ordered.setHole (h : Ordered m) {q : Option BoId} (hq : q ∈ ptrs m.olist) :
    Ordered { m with hole := q } :=
  { h with hole := hq }

lemma Ordered.removeLocked (h : Ordered m) (hid : id ∈ m.olist) :
    Ordered (removeLocked m id) where
  nodup := h.nodup.erase id
  hole := by
    unfold Sa.removeLocked
    split_ifs with hhole
    · exact mem_ptrs_erase (prev_mem_ptrs _ _)
        (prev_ne_self h.nodup hid)
    · exact mem_ptrs_erase h.hole hhole
  sorted := h.sorted.sublist erase_sublist
  bounds a ha := h.bounds a (mem_of_mem_erase ha)
  listed i a ha := by
    have hne : a ≠ id := by
      rintro rfl
      exact (h.flist_nodup i).not_mem_erase ha
    obtain ⟨hmem, hfence⟩ := h.listed i a (mem_of_mem_erase ha)
    exact ⟨(mem_erase_of_ne hne).2 hmem, hfence⟩
  flist_nodup i := (h.flist_nodup i).erase id

lemma Ordered.reclaim (h : Ordered m) (hid : id ∈ m.olist) : Ordered (reclaim m id) :=
  (h.setHole (prev_mem_ptrs _ _)).removeLocked hid

lemma Ordered.pend (h : Ordered m) (hid : id ∈ m.olist) (hlive : (m.bo id).fence = none)
    (f : Fence) : Ordered (pend m id f) := by
  have hoffsets : ∀ a, ((Sa.pend m id f).bo a).soffset = (m.bo a).soffset ∧
      ((Sa.pend m id f).bo a).eoffset = (m.bo a).eoffset := by
    intro a
    by_cases ha : a = id
    · simp [Sa.pend, ha]
    · simp [Sa.pend, ha]
  have hnot : ∀ i, id ∉ m.flist i := fun i hi => (h.listed i id hi).2 hlive
  constructor
  · exact h.nodup
  · exact h.hole
  · refine h.sorted.imp fun {a b} hab => ?_
    rw [(hoffsets a).2, (hoffsets b).1]
    exact hab
  · intro a ha
    rw [(hoffsets a).1, (hoffsets a).2]
    exact h.bounds a ha
  · intro i a ha
    by_cases hai : a = id
    · subst hai
      exact ⟨hid, by simp [Sa.pend]⟩
    · have ha' : a ∈ m.flist i := by
        by_cases hi : i = f.context % numFenceLists
        · subst hi
          simpa [Sa.pend, hai] using ha
        · simpa [Sa.pend, hi] using ha
      have := h.listed i a ha'
      exact ⟨this.1, by simpa [Sa.pend, hai] using this.2⟩
  · intro i
    by_cases hi : i = f.context % numFenceLists
    · subst hi
      simp only [Sa.pend, update_self]
      refine nodup_append.2 ⟨h.flist_nodup _, nodup_singleton _, ?_⟩
      rintro a ha b hb rfl
      exact hnot _ (mem_singleton.1 hb ▸ ha)
    · simpa [Sa.pend, hi] using h.flist_nodup i

/-! ## An allocation -/

lemma wasted_lt (soffset : ℕ) (h : 0 < align) : wasted soffset align < align := Nat.mod_lt _ h

lemma add_wasted_mod (soffset : ℕ) (h : 0 < align) :
    (soffset + wasted soffset align) % align = 0 := by
  have hlt := Nat.mod_lt soffset h
  have hsum : soffset + (align - soffset % align) = align * (soffset / align + 1) := by
    have := Nat.div_add_mod soffset align
    rw [Nat.mul_succ]
    omega
  rw [wasted, Nat.add_mod_mod, hsum, Nat.mul_mod_right]

lemma Ordered.hole_bounds (h : Ordered m) (hl : m.olist = xs ++ ys)
    (hhole : m.hole = xs.getLast?) :
    (∀ a ∈ xs, (m.bo a).eoffset ≤ holeSoffset m) ∧ (∀ b ∈ ys, holeEoffset m ≤ (m.bo b).soffset) ∧
      holeSoffset m ≤ holeEoffset m ∧ holeEoffset m ≤ m.size := by
  have hsorted := h.sorted
  have hnodup := h.nodup
  rw [hl] at hsorted hnodup
  obtain ⟨hxs, hys, hbetween⟩ := pairwise_append.1 hsorted
  have hbounds : ∀ a, a ∈ xs ∨ a ∈ ys → _ := fun a ha =>
    h.bounds a (by rw [hl]; exact mem_append.2 ha)
  have hnext : CircList.next m.olist m.hole = ys.head? := by
    rw [hl, hhole]
    exact next_append hnodup
  -- the last range before the hole, if there is one
  have hleft : (∀ a ∈ xs, (m.bo a).eoffset ≤ holeSoffset m) ∧
      (holeSoffset m = 0 ∨ ∃ a ∈ xs, holeSoffset m = (m.bo a).eoffset) := by
    unfold holeSoffset
    rw [hhole]
    rcases eq_nil_or_concat xs with rfl | ⟨zs, z, rfl⟩
    · simp
    · rw [concat_eq_append] at hxs hbounds ⊢
      rw [List.getLast?_concat]
      refine ⟨fun a ha => ?_, .inr ⟨z, by simp, rfl⟩⟩
      obtain ha | rfl : a ∈ zs ∨ a = z := by simpa using ha
      · have hle := (pairwise_append.1 hxs).2.2 a ha z (mem_singleton_self z)
        exact hle.trans (hbounds z (.inl (by simp))).1
      · exact le_rfl
  have hright : (∀ b ∈ ys, holeEoffset m ≤ (m.bo b).soffset) ∧
      (holeEoffset m = m.size ∨ ∃ b ∈ ys, holeEoffset m = (m.bo b).soffset) := by
    unfold holeEoffset
    rw [hnext]
    cases ys with
    | nil => simp
    | cons y ys =>
      refine ⟨fun b hb => ?_, .inr ⟨y, by simp, rfl⟩⟩
      obtain rfl | hb := mem_cons.1 hb
      · exact le_rfl
      · exact (hbounds y (.inr (by simp))).1.trans ((pairwise_cons.1 hys).1 b hb)
  refine ⟨hleft.1, hright.1, ?_, ?_⟩
  · rcases hleft.2 with hs | ⟨a, ha, hs⟩ <;> rcases hright.2 with he | ⟨b, hb, he⟩ <;>
      rw [hs, he]
    · exact Nat.zero_le _
    · exact Nat.zero_le _
    · exact (hbounds a (.inl ha)).2
    · exact hbetween a ha b hb
  · rcases hright.2 with he | ⟨b, hb, he⟩ <;> rw [he]
    exact (hbounds b (.inr hb)).1.trans (hbounds b (.inr hb)).2

/-- A request that has passed the checks of `amdgpu_sa_bo_new`. -/
structure Fair (m : Manager) (size align : ℕ) : Prop where
  size : size ≤ m.size
  align_pos : 0 < align
  align : align ≤ m.align

lemma Ordered.fits_iff (h : Ordered m) (hm : m.size + m.align ≤ 2 ^ 32)
    (hfair : Fair m size align) :
    fits m size align = true ↔
      holeSoffset m + wasted (holeSoffset m) align + size ≤ holeEoffset m := by
  obtain ⟨xs, ys, hl, hhole⟩ := exists_append_of_mem_ptrs h.hole
  obtain ⟨-, -, hle, hsize⟩ := h.hole_bounds hl hhole
  have hw := wasted_lt (holeSoffset m) hfair.align_pos
  have hs := hfair.size
  have ha := hfair.align
  rw [fits, decide_eq_true_iff]
  omega

/-- A range that an allocation has been given. -/
structure Granted (m : Manager) (id : BoId) (size align : ℕ) : Prop where
  aligned : (m.bo id).soffset % align = 0
  size : (m.bo id).eoffset = (m.bo id).soffset + size
  inside : (m.bo id).eoffset ≤ m.size

lemma pairwise_insert {bo : BoId → SaBo} {b : SaBo}
    (h : (xs ++ ys).Pairwise fun a c => (bo a).eoffset ≤ (bo c).soffset) (hid : id ∉ xs ++ ys)
    (hxs : ∀ a ∈ xs, (bo a).eoffset ≤ b.soffset) (hys : ∀ c ∈ ys, b.eoffset ≤ (bo c).soffset) :
    (xs ++ id :: ys).Pairwise fun a c =>
      (update bo id b a).eoffset ≤ (update bo id b c).soffset := by
  have hold : ∀ a ∈ xs ++ ys, update bo id b a = bo a := by
    intro a ha
    refine update_of_ne ?_ _ _
    rintro rfl
    exact hid ha
  have h' : (xs ++ ys).Pairwise fun a c =>
      (update bo id b a).eoffset ≤ (update bo id b c).soffset := by
    refine h.imp_of_mem fun {a c} ha hc hac => ?_
    rw [hold a ha, hold c hc]
    exact hac
  rw [pairwise_append] at h' ⊢
  rw [pairwise_cons]
  refine ⟨h'.1, ⟨fun c hc => ?_, h'.2.1⟩, fun a ha c hc => ?_⟩
  · rw [hold c (mem_append_right _ hc), update_self]
    exact hys c hc
  · obtain rfl | hc := mem_cons.1 hc
    · rw [hold a (mem_append_left _ ha), update_self]
      exact hxs a ha
    · exact h'.2.2 a ha c hc

lemma Ordered.tryAlloc {m' : Manager} (h : Ordered m) (hm : m.size + m.align ≤ 2 ^ 32)
    (hid : id ∉ m.olist) (hfair : Fair m size align) (halloc : tryAlloc m id size align = some m') :
    Ordered m' ∧ Granted m' id size align := by
  obtain ⟨hfits, halloc⟩ := ite_none_right_eq_some.1 halloc
  obtain ⟨xs, ys, hl, hhole⟩ := exists_append_of_mem_ptrs h.hole
  obtain ⟨hxs, hys, hle, hsize⟩ := h.hole_bounds hl hhole
  have hroom := (h.fits_iff hm hfair).1 hfits
  have halign := add_wasted_mod (holeSoffset m) hfair.align_pos
  have hpos := hfair.align_pos
  have hmax := hfair.align
  obtain ⟨so, hso⟩ : ∃ so, holeSoffset m + wasted (holeSoffset m) align = so := ⟨_, rfl⟩
  rw [hso] at hroom halign
  dsimp only at halloc
  rw [hso, Nat.mod_eq_of_lt (by omega : so < 2 ^ 32),
    Nat.mod_eq_of_lt (by omega : so + size < 2 ^ 32)] at halloc
  cases halloc
  have hlist : insertAfter m.olist m.hole id = xs ++ id :: ys := by
    rw [hl, hhole]
    exact insertAfter_append (nodup_append.1 (hl ▸ h.nodup)).1 ys id
  have hperm := insertAfter_perm id h.hole
  have hold : ∀ a ∈ m.olist, update m.bo id ⟨so, so + size, none⟩ a = m.bo a := by
    intro a ha
    refine update_of_ne ?_ _ _
    rintro rfl
    exact hid ha
  refine ⟨⟨?_, ?_, ?_, ?_, ?_, h.flist_nodup⟩, ?_⟩
  · exact hperm.nodup_iff.2 (nodup_cons.2 ⟨hid, h.nodup⟩)
  · exact some_mem_ptrs.2 (hperm.mem_iff.2 mem_cons_self)
  · change List.Pairwise _ (insertAfter m.olist m.hole id)
    rw [hlist]
    refine pairwise_insert (hl ▸ h.sorted) (hl ▸ hid) (fun a ha => ?_) fun c hc => ?_
    · exact (hxs a ha).trans (hso ▸ Nat.le_add_right _ _)
    · exact hroom.trans (hys c hc)
  · intro a ha
    obtain rfl | ha := mem_cons.1 (hperm.mem_iff.1 ha)
    · simp only [update_self]
      omega
    · simp only [hold a ha]
      exact h.bounds a ha
  · intro i a ha
    obtain ⟨hmem', hfence⟩ := h.listed i a ha
    exact ⟨hperm.mem_iff.2 (.tail _ hmem'), by simpa only [hold a hmem'] using hfence⟩
  · constructor
    · simpa using halign
    · simp
    · simp only [update_self]
      omega

/-! ## The steps -/

/-- What every step keeps: the names and offsets of the allocations that were made, the fences that
are signaled, and the allocations that wait for a fence that is not. -/
structure Advance (s s' : Shared) : Prop where
  size : s'.mgr.size = s.mgr.size
  align : s'.mgr.align = s.mgr.align
  next : s.next ≤ s'.next
  offsets : ∀ id < s.next, (s'.mgr.bo id).soffset = (s.mgr.bo id).soffset ∧
    (s'.mgr.bo id).eoffset = (s.mgr.bo id).eoffset
  signaled : ∀ f, s.signaled f = true → s'.signaled f = true
  pending : ∀ id f, id ∈ s.mgr.olist → (s.mgr.bo id).fence = some f → s.signaled f = false →
    id ∈ s'.mgr.olist ∧ (s'.mgr.bo id).fence = some f

/-- A state whose lists are in order, with the names of all allocations used up. -/
structure Valid (s : Shared) : Prop where
  ordered : Ordered s.mgr
  fresh : ∀ id ∈ s.mgr.olist, id < s.next

/-- What a thread knows at a program point: whether it has the lock, that its request is fair, and
what its local variables point to. -/
def PcOk (t : ℕ) (s : Shared) : Pc → Prop
  | .idle => True
  | .enter r => Fair s.mgr r.size r.align
  | .tryFree r cur => s.lock = some t ∧ Fair s.mgr r.size r.align ∧ cur ∈ ptrs s.mgr.olist
  | .tryAlloc r => s.lock = some t ∧ Fair s.mgr r.size r.align
  | .nextHole r => s.lock = some t ∧ Fair s.mgr r.size r.align
  | .scan r _ _ _ bestBo => s.lock = some t ∧ Fair s.mgr r.size r.align ∧
      ∀ id, bestBo = some id →
        id ∈ s.mgr.olist ∧ ∃ f, (s.mgr.bo id).fence = some f ∧ s.signaled f = true
  | .waitFences r => Fair s.mgr r.size r.align
  | .event r => s.lock = some t ∧ Fair s.mgr r.size r.align
  | .sleep r => Fair s.mgr r.size r.align
  | .returned id size align => id < s.next ∧ Granted s.mgr id size align

/-- What a step of thread `t` to `s'` and `p` has to show. -/
structure StepOk (t : ℕ) (s s' : Shared) (p : Pc) : Prop where
  advance : Advance s s'
  valid : Valid s'
  pc : PcOk t s' p
  /-- A thread that has the lock is not disturbed by the others. -/
  locked : ∀ u, u ≠ t → s.lock = some u → s'.mgr = s.mgr ∧ s'.lock = s.lock

lemma Advance.lock (s : Shared) (l : Option ℕ) : Advance s { s with lock := l } :=
  ⟨rfl, rfl, le_rfl, fun _ _ => ⟨rfl, rfl⟩, fun _ h => h, fun _ _ hid hf _ => ⟨hid, hf⟩⟩

lemma Advance.refl (s : Shared) : Advance s s := Advance.lock s s.lock

lemma Advance.setHole (s : Shared) (q : Option BoId) :
    Advance s { s with mgr := { s.mgr with hole := q } } :=
  ⟨rfl, rfl, le_rfl, fun _ _ => ⟨rfl, rfl⟩, fun _ h => h, fun _ _ hid hf _ => ⟨hid, hf⟩⟩

lemma Advance.signal (s : Shared) (f : Fence) :
    Advance s { s with signaled := update s.signaled f true } := by
  refine ⟨rfl, rfl, le_rfl, fun _ _ => ⟨rfl, rfl⟩, fun g hg => ?_, fun _ _ hid hf _ => ⟨hid, hf⟩⟩
  by_cases hgf : g = f
  · simp [hgf]
  · simpa [hgf] using hg

lemma Advance.remove (h : ∀ f, (s.mgr.bo id).fence = some f → s.signaled f = true)
    (q : Option BoId) : Advance s { s with mgr := removeLocked { s.mgr with hole := q } id } := by
  refine ⟨rfl, rfl, le_rfl, fun _ _ => ⟨rfl, rfl⟩, fun _ h => h, fun a f ha hf hsig => ?_⟩
  have hne : a ≠ id := by
    rintro rfl
    rw [h f hf] at hsig
    cases hsig
  exact ⟨(mem_erase_of_ne hne).2 ha, hf⟩

lemma Advance.pend (hlive : (s.mgr.bo id).fence = none) (f : Fence) :
    Advance s { s with mgr := pend s.mgr id f } := by
  refine ⟨rfl, rfl, le_rfl, fun a _ => ?_, fun _ h => h, fun a g ha hg _ => ⟨ha, ?_⟩⟩
  · by_cases ha : a = id
    · simp [Sa.pend, ha]
    · simp [Sa.pend, ha]
  · have hne : a ≠ id := by
      rintro rfl
      rw [hlive] at hg
      cases hg
    simpa [Sa.pend, hne] using hg

lemma Advance.alloc (hs : Valid s) (h : tryAlloc s.mgr s.next size align = some m) :
    Advance s { s with mgr := m, lock := none, next := s.next + 1 } := by
  obtain ⟨-, h⟩ := ite_none_right_eq_some.1 h
  cases h
  refine ⟨rfl, rfl, Nat.le_succ _, fun a ha => ?_, fun _ h => h, fun a f ha hf _ => ⟨?_, ?_⟩⟩
  · simp [ha.ne]
  · exact (insertAfter_perm s.next hs.ordered.hole).mem_iff.2 (.tail _ ha)
  · simpa [(hs.fresh a ha).ne] using hf

lemma StepOk.keep (hs : Valid s) (hpc : PcOk t s p) : StepOk t s s p :=
  ⟨.refl s, hs, hpc, fun _ _ _ => ⟨rfl, rfl⟩⟩

lemma StepOk.own (hlock : s.lock = some t ∨ s.lock = none) (hadvance : Advance s s')
    (hs : Valid s') (hpc : PcOk t s' p) : StepOk t s s' p := by
  refine ⟨hadvance, hs, hpc, fun u hu hu' => ?_⟩
  rcases hlock with h | h
  · exact absurd (mem_unique hu' h) hu
  · rw [h] at hu'
    cases hu'

lemma pcOk_again (hlock : s.lock = some t) (hfair : Fair s.mgr r.size r.align) :
    PcOk t s (again s r).2 :=
  ⟨hlock, hfair, next_mem_ptrs _ _⟩

lemma pcOk_scanTurn (hs : Valid s) (hpc : PcOk t s (.scan r soffset i best bestBo))
    (h : scanTurn s r soffset i best bestBo = some p) : PcOk t s p := by
  obtain ⟨hlock, hfair, hbest⟩ := hpc
  unfold scanTurn at h
  cases hhead : (s.mgr.flist i).head? with
  | none =>
    rw [hhead] at h
    cases h
    exact ⟨hlock, hfair, hbest⟩
  | some id =>
    rw [hhead] at h
    obtain ⟨f, hf, rfl⟩ := map_eq_some_iff.1 h
    have hmem := (hs.ordered.listed i id (mem_of_mem_head? hhead)).1
    by_cases hsig : s.signaled f = true
    · simp only [hsig, Bool.not_true, Bool.false_eq_true, if_false]
      split_ifs
      · exact ⟨hlock, hfair, hbest⟩
      · refine ⟨hlock, hfair, fun a ha => ?_⟩
        cases ha
        exact ⟨hmem, f, hf, hsig⟩
      · exact ⟨hlock, hfair, hbest⟩
      · refine ⟨hlock, hfair, fun a ha => ?_⟩
        cases ha
        exact ⟨hmem, f, hf, hsig⟩
      · exact ⟨hlock, hfair, hbest⟩
    · simp only [hsig]
      exact ⟨hlock, hfair, hbest⟩

lemma afterScan_spec (hs : Valid s) (hpc : PcOk t s (.scan r soffset i best bestBo))
    (h : afterScan s r bestBo = some (s', p)) : StepOk t s s' p := by
  obtain ⟨hlock, hfair, hbest⟩ := hpc
  cases bestBo with
  | none =>
    rw [afterScan] at h
    split_ifs at h
    · cases h
      exact .own (.inl hlock) (.lock s none) ⟨hs.ordered, hs.fresh⟩ hfair
    · cases h
      exact .keep hs ⟨hlock, hfair⟩
  | some id =>
    obtain ⟨hid, f, hf, hsig⟩ := hbest id rfl
    obtain ⟨g, -, hg⟩ := map_eq_some_iff.1 h
    cases hg
    refine .own (.inl hlock) (.remove (fun g hg => ?_) _)
      ⟨hs.ordered.reclaim hid, fun a ha => hs.fresh a (mem_of_mem_erase ha)⟩
      (pcOk_again hlock { hfair with })
    rw [hf] at hg
    cases hg
    exact hsig

lemma newStep_spec {ok : Bool} (hs : Valid s) (hm : s.mgr.size + s.mgr.align ≤ 2 ^ 32)
    (hpc : PcOk t s p) (h : newStep t ok s p = some (s', p')) : StepOk t s s' p' := by
  cases p with
  | idle => cases h
  | enter r =>
    obtain ⟨hfree, h⟩ := ite_none_right_eq_some.1 h
    cases h
    exact .own (.inr hfree) (.lock s _) ⟨hs.ordered, hs.fresh⟩ (pcOk_again rfl hpc)
  | tryFree r cur =>
    obtain ⟨hlock, hfair, hcur⟩ := hpc
    cases cur with
    | none =>
      cases h
      exact .keep hs ⟨hlock, hfair⟩
    | some id =>
      have hid := some_mem_ptrs.1 hcur
      rw [newStep] at h
      split at h
      · cases h
        exact .keep hs ⟨hlock, hfair⟩
      · rename_i f hf
        split_ifs at h with hsig
        · cases h
          refine .own (.inl hlock) (.remove (fun g hg => ?_) s.mgr.hole)
            ⟨hs.ordered.removeLocked hid, fun a ha => hs.fresh a (mem_of_mem_erase ha)⟩
            ⟨hlock, { hfair with }, ?_⟩
          · rw [hf] at hg
            cases hg
            exact hsig
          · -- the next entry was looked up before this one was removed
            exact mem_ptrs_erase (next_mem_ptrs _ _)
              (nextAfter_ne_self hs.ordered.nodup id)
        · cases h
          exact .keep hs ⟨hlock, hfair⟩
  | tryAlloc r =>
    obtain ⟨hlock, hfair⟩ := hpc
    have hfresh : s.next ∉ s.mgr.olist := fun hmem => lt_irrefl _ (hs.fresh _ hmem)
    rw [newStep] at h
    split at h
    · rename_i m halloc
      cases h
      obtain ⟨hordered, hgranted⟩ := hs.ordered.tryAlloc hm hfresh hfair halloc
      refine .own (.inl hlock) (.alloc hs halloc) ⟨hordered, fun a ha => ?_⟩
        ⟨Nat.lt_succ_self _, hgranted⟩
      have hlist : m.olist = insertAfter s.mgr.olist s.mgr.hole s.next := by
        obtain ⟨-, h⟩ := ite_none_right_eq_some.1 halloc
        cases h
        rfl
      rw [hlist, (insertAfter_perm s.next hs.ordered.hole).mem_iff, mem_cons] at ha
      rcases ha with rfl | ha
      · exact Nat.lt_succ_self _
      · exact Nat.lt_succ_of_lt (hs.fresh a ha)
    · cases h
      exact .keep hs ⟨hlock, hfair⟩
  | nextHole r =>
    obtain ⟨hlock, hfair⟩ := hpc
    rw [newStep] at h
    split_ifs at h
    · cases h
      exact .own (.inl hlock) (.setHole s none)
        ⟨hs.ordered.setHole (none_mem_ptrs _), hs.fresh⟩
        (pcOk_again hlock { hfair with })
    · cases h
      exact .keep hs ⟨hlock, hfair, fun _ h => nomatch h⟩
  | scan r soffset i best bestBo =>
    rw [newStep] at h
    split_ifs at h
    · obtain ⟨q, hturn, hq⟩ := map_eq_some_iff.1 h
      cases hq
      exact .keep hs (pcOk_scanTurn hs hpc hturn)
    · exact afterScan_spec hs hpc h
  | waitFences r =>
    obtain ⟨hfree, h⟩ := ite_none_right_eq_some.1 h
    split_ifs at h
    · cases h
      exact .own (.inr hfree) (.lock s _) ⟨hs.ordered, hs.fresh⟩ (pcOk_again rfl hpc)
    · cases h
      exact .keep hs trivial
  | event r =>
    obtain ⟨hlock, hfair⟩ := hpc
    rw [newStep] at h
    split_ifs at h
    · cases h
      exact .keep hs (pcOk_again hlock hfair)
    · cases h
      exact .own (.inl hlock) (.lock s none) ⟨hs.ordered, hs.fresh⟩ hfair
  | sleep r =>
    obtain ⟨hfree, h⟩ := ite_none_right_eq_some.1 h
    split_ifs at h
    · cases h
      exact .own (.inr hfree) (.lock s _) ⟨hs.ordered, hs.fresh⟩ ⟨rfl, hpc⟩
    · cases h
      exact .keep hs trivial
  | returned id size align =>
    cases h
    exact .keep hs trivial

lemma saBoFree_spec (hs : Valid s) (hlock : s.lock = none) (hid : id ∈ s.mgr.olist)
    (hlive : (s.mgr.bo id).fence = none) (fence : Option Fence) :
    StepOk t s (saBoFree s id fence) .idle := by
  have hremove : StepOk t s { s with mgr := removeLocked s.mgr id } .idle := by
    refine .own (.inr hlock) (.remove (fun g hg => ?_) s.mgr.hole)
      ⟨hs.ordered.removeLocked hid, fun a ha => hs.fresh a (mem_of_mem_erase ha)⟩ trivial
    rw [hlive] at hg
    cases hg
  unfold saBoFree
  split
  · split_ifs
    · exact .own (.inr hlock) (.pend hlive _) ⟨hs.ordered.pend hid hlive _, hs.fresh⟩ trivial
    · exact hremove
  · exact hremove

lemma Fair.advance (h : Fair s.mgr size align) (hadvance : Advance s s') :
    Fair s'.mgr size align :=
  ⟨hadvance.size ▸ h.size, h.align_pos, hadvance.align ▸ h.align⟩

lemma Granted.advance (h : Granted s.mgr id size align) (hid : id < s.next)
    (hadvance : Advance s s') : Granted s'.mgr id size align := by
  obtain ⟨hso, heo⟩ := hadvance.offsets id hid
  refine ⟨?_, ?_, ?_⟩
  · rw [hso]
    exact h.aligned
  · rw [hso, heo]
    exact h.size
  · rw [heo, hadvance.size]
    exact h.inside

/-- What a thread knows stays true while others take steps, because they leave the manager alone
while the thread has the lock. -/
lemma PcOk.advance (h : PcOk t s p) (hadvance : Advance s s')
    (hlocked : s.lock = some t → s'.mgr = s.mgr ∧ s'.lock = s.lock) : PcOk t s' p := by
  cases p with
  | idle => trivial
  | enter r | waitFences r | sleep r => exact Fair.advance h hadvance
  | returned id size align => exact ⟨h.1.trans_le hadvance.next, h.2.advance h.1 hadvance⟩
  | tryAlloc r | nextHole r | event r => exact ⟨(hlocked h.1).2.trans h.1, h.2.advance hadvance⟩
  | tryFree r cur =>
    obtain ⟨hmgr, hlock⟩ := hlocked h.1
    exact ⟨hlock.trans h.1, h.2.1.advance hadvance, hmgr ▸ h.2.2⟩
  | scan r soffset i best bestBo =>
    obtain ⟨hmgr, hlock⟩ := hlocked h.1
    refine ⟨hlock.trans h.1, h.2.1.advance hadvance, fun id hid => ?_⟩
    obtain ⟨hmem, f, hf, hsig⟩ := h.2.2 id hid
    exact ⟨hmgr ▸ hmem, f, hmgr ▸ hf, hadvance.signaled f hsig⟩

/-- **Every step keeps the invariant.** -/
theorem saNext_spec (hs : Valid s) (hm : s.mgr.size + s.mgr.align ≤ 2 ^ 32)
    (halign : 0 < s.mgr.align) (hpc : PcOk t s p) (hx : Allowed s x)
    (h : saNext t x s p = some (s', p')) : StepOk t s s' p' := by
  cases x with
  | signal f =>
    cases h
    exact ⟨.signal s f, ⟨hs.ordered, hs.fresh⟩, hpc.advance (.signal s f) fun _ => ⟨rfl, rfl⟩,
      fun _ _ _ => ⟨rfl, rfl⟩⟩
  | new size align =>
    cases p <;> try cases h
    refine .keep hs ?_
    unfold saBoNew
    split_ifs with halign' hsize
    · trivial
    · trivial
    · exact ⟨not_lt.1 hsize, Nat.pos_of_dvd_of_pos hx halign, not_lt.1 halign'⟩
  | free id fence =>
    cases p <;> try cases h
    obtain ⟨hfree, h⟩ := ite_none_right_eq_some.1 h
    cases h
    exact saBoFree_spec hs hfree hx.1 hx.2 fence
  | go ok => exact newStep_spec hs hm hpc h

/-! ## Runs -/

/-- The invariant of the threads over a manager with the given size and alignment. -/
structure Inv (size align : ℕ) (c : Threads.Config Shared Pc) : Prop where
  size : c.shared.mgr.size = size
  align : c.shared.mgr.align = align
  valid : Valid c.shared
  pcs : ∀ t, PcOk t c.shared (c.pc t)

section

variable (hm : size + align ≤ 2 ^ 32) (halign : 0 < align)

include hm halign

lemma Inv.step (h : Inv size align c)
    (hx : Allowed c.shared x) (hnext : saNext t x c.shared (c.pc t) = some (s, p)) :
    Advance c.shared s ∧ Inv size align (c.move t s p) := by
  have hstep := saNext_spec h.valid (by rw [h.size, h.align]; exact hm) (h.align ▸ halign)
    (h.pcs t) hx hnext
  refine ⟨hstep.advance, hstep.advance.size.trans h.size, hstep.advance.align.trans h.align,
    hstep.valid, fun u => ?_⟩
  by_cases hu : u = t
  · subst hu
    rw [c.move_pc_self]
    exact hstep.pc
  · rw [c.move_pc_of_ne s p hu]
    exact (h.pcs u).advance hstep.advance (hstep.locked u hu)

lemma Reachable.inv (h : Reachable size align c) : Inv size align c := by
  refine Threads.Runs.invariant (P := Inv size align) ?_ ?_ h
  · exact ⟨rfl, rfl, ⟨ordered_managerInit size align, fun _ hid => nomatch hid⟩, fun _ => trivial⟩
  · exact fun c t x s p hc hx hnext => (hc.step hm halign hx hnext).2

lemma pending_run {c' : Threads.Config Shared Pc} (hc : Inv size align c)
    (hrun : Threads.Runs saNext (fun c _ x => Allowed c.shared x) c c')
    (hid : id ∈ c.shared.mgr.olist) (hf : (c.shared.mgr.bo id).fence = some f) :
    Inv size align c' ∧ (c'.shared.signaled f = false →
      id ∈ c'.shared.mgr.olist ∧ (c'.shared.mgr.bo id).fence = some f ∧
        (c'.shared.mgr.bo id).soffset = (c.shared.mgr.bo id).soffset ∧
        (c'.shared.mgr.bo id).eoffset = (c.shared.mgr.bo id).eoffset) := by
  refine Threads.Runs.invariant (P := fun c' => Inv size align c' ∧
    (c'.shared.signaled f = false → id ∈ c'.shared.mgr.olist ∧
      (c'.shared.mgr.bo id).fence = some f ∧
      (c'.shared.mgr.bo id).soffset = (c.shared.mgr.bo id).soffset ∧
      (c'.shared.mgr.bo id).eoffset = (c.shared.mgr.bo id).eoffset)) ?_ ?_ hrun
  · exact ⟨hc, fun _ => ⟨hid, hf, rfl, rfl⟩⟩
  · rintro b t x s p ⟨hb, hpending⟩ hx hnext
    obtain ⟨hadvance, hinv⟩ := hb.step hm halign hx hnext
    refine ⟨hinv, fun hsig => ?_⟩
    have hsig' : b.shared.signaled f = false := by
      rw [← Bool.not_eq_true] at hsig ⊢
      exact mt (hadvance.signaled f) hsig
    obtain ⟨hmem, hfence, hso, heo⟩ := hpending hsig'
    obtain ⟨hmem', hfence'⟩ := hadvance.pending id f hmem hfence hsig'
    obtain ⟨hso', heo'⟩ := hadvance.offsets id (hb.valid.fresh id hmem)
    exact ⟨hmem', hfence', hso'.trans hso, heo'.trans heo⟩

end

/-- Two ranges have no byte in common. -/
def SaBo.Apart (a b : SaBo) : Prop := a.eoffset ≤ b.soffset ∨ b.eoffset ≤ a.soffset

lemma Ordered.apart (h : Ordered m) {a b : BoId} (ha : a ∈ m.olist) (hb : b ∈ m.olist)
    (hne : a ≠ b) : (m.bo a).Apart (m.bo b) := by
  have hpair : m.olist.Pairwise fun a b => (m.bo a).Apart (m.bo b) := h.sorted.imp .inl
  have : Std.Symm fun a b => (m.bo a).Apart (m.bo b) := ⟨fun _ _ => Or.symm⟩
  exact hpair.forall ha hb hne

lemma saBoFree_pending (id : BoId) (hsig : s.signaled f = false) :
    (saBoFree s id (some f)).mgr.olist = s.mgr.olist ∧
      ((saBoFree s id (some f)).mgr.bo id).fence = some f ∧
      ((saBoFree s id (some f)).mgr.bo id).soffset = (s.mgr.bo id).soffset ∧
      ((saBoFree s id (some f)).mgr.bo id).eoffset = (s.mgr.bo id).eoffset := by
  simp [saBoFree, hsig, Sa.pend]

/-- A step that returns from `amdgpu_sa_bo_new` with an allocation has put it on the list. -/
lemma newStep_returned (ho : Ordered s.mgr) {ok : Bool} {n a : ℕ}
    (h : newStep t ok s p = some (s', .returned id n a)) : id ∈ s'.mgr.olist := by
  cases p with
  | tryAlloc r =>
    simp only [newStep] at h
    split at h
    next m hm =>
      cases h
      obtain ⟨-, hm⟩ := ite_none_right_eq_some.1 hm
      cases hm
      exact (insertAfter_perm _ ho.hole).mem_iff.2 mem_cons_self
    · cases h
  | tryFree r cur => cases cur <;> grind [newStep]
  | scan r soffset i best bestBo =>
    unfold newStep afterScan scanTurn again at h
    aesop
  | _ => grind [newStep, again]

/-- **Safety of the sub-allocator.** The size of the manager and its alignment together do not
exceed `2^32`. In every state that the threads reach, the ranges on `olist` are sorted and inside
the buffer, any two of them are apart, and the hole is a position of `olist`. What
`amdgpu_sa_bo_new` returned is aligned and of the wanted size, and is on `olist` as it returns. And
if a range is freed with a fence that is not signaled, then as long as the fence is not signaled all
other ranges are apart from it.

**Proof sketch.** The first part is the invariant `Inv`, which each step keeps (`saNext_spec`). The
freed range stays on the list (`pending_run`), so the order of the list keeps the others away. -/
theorem suballoc_safe {size align : ℕ} (hm : size + align ≤ 2 ^ 32) (halign : 0 < align)
    {c : Threads.Config Shared Pc} (h : Reachable size align c) :
    (c.shared.mgr.olist.Pairwise fun a b =>
        (c.shared.mgr.bo a).eoffset ≤ (c.shared.mgr.bo b).soffset) ∧
      (∀ a ∈ c.shared.mgr.olist, (c.shared.mgr.bo a).soffset ≤ (c.shared.mgr.bo a).eoffset ∧
        (c.shared.mgr.bo a).eoffset ≤ size) ∧
      (∀ a ∈ c.shared.mgr.olist, ∀ b ∈ c.shared.mgr.olist, a ≠ b →
        (c.shared.mgr.bo a).Apart (c.shared.mgr.bo b)) ∧
      c.shared.mgr.hole ∈ ptrs c.shared.mgr.olist ∧
      (∀ t id n a, c.pc t = .returned id n a → (c.shared.mgr.bo id).soffset % a = 0 ∧
        (c.shared.mgr.bo id).eoffset = (c.shared.mgr.bo id).soffset + n) ∧
      (∀ t ok c' id n a, fire saNext c t (.go ok) = some c' → c'.pc t = .returned id n a →
        id ∈ c'.shared.mgr.olist) ∧
      ∀ t id f c₁ c₂, Allowed c.shared (.free id (some f)) → c.shared.signaled f = false →
        fire saNext c t (.free id (some f)) = some c₁ →
        Threads.Runs saNext (fun c _ x => Allowed c.shared x) c₁ c₂ →
        c₂.shared.signaled f = false →
        ∀ b ∈ c₂.shared.mgr.olist, b ≠ id → (c₂.shared.mgr.bo b).Apart (c.shared.mgr.bo id) := by
  have hinv := h.inv hm halign
  have hordered := hinv.valid.ordered
  refine ⟨hordered.sorted, fun a ha => hinv.size ▸ hordered.bounds a ha,
    fun a ha b hb hne => hordered.apart ha hb hne, hordered.hole, ?_, ?_, ?_⟩
  · intro t id n a hpc
    obtain ⟨-, hgranted⟩ : PcOk t c.shared (.returned id n a) := hpc ▸ hinv.pcs t
    exact ⟨hgranted.aligned, hgranted.size⟩
  · intro t ok c' id n a hfire hpc
    obtain ⟨s, p, hnext, rfl⟩ := fire_eq_some hfire
    rw [c.move_pc_self] at hpc
    exact newStep_returned hordered (hpc ▸ hnext)
  · intro t id f c₁ c₂ hallowed hsig hfire hrun hsig₂ b hb hne
    obtain ⟨s, p, hnext, rfl⟩ := fire_eq_some hfire
    have hinv₁ := (hinv.step hm halign hallowed hnext).2
    have hs : s = saBoFree c.shared id (some f) := by
      cases hpc : c.pc t <;> rw [hpc] at hnext <;> try cases hnext
      obtain ⟨-, hnext⟩ := ite_none_right_eq_some.1 hnext
      cases hnext
      rfl
    obtain ⟨holist, hfence, hso, heo⟩ := saBoFree_pending id hsig
    rw [← hs] at holist hfence hso heo
    obtain ⟨hinv₂, hpending⟩ := pending_run hm halign hinv₁ hrun
      (show id ∈ s.mgr.olist from holist ▸ hallowed.1) hfence
    obtain ⟨hmem, -, hso₂, heo₂⟩ := hpending hsig₂
    have hapart := hinv₂.valid.ordered.apart hb hmem hne
    unfold SaBo.Apart at hapart ⊢
    rw [hso₂, heo₂] at hapart
    rw [← hso, ← heo]
    exact hapart

/-- Two allocations, of which the first one is freed with a fence; a third one goes behind them. -/
def threeCalls : List (ℕ × Choice) :=
  [(0, .new 100 16), (0, .go true), (0, .go true), (0, .go true), (0, .go true),
    (1, .new 100 64), (1, .go true), (1, .go true), (1, .go true),
    (0, .free 0 (some ⟨1, 1⟩)),
    (0, .new 100 64), (0, .go true), (0, .go true), (0, .go true)]

/-- The third allocation is behind the second one, at an aligned offset. -/
theorem suballoc_safe_threeCalls : ∃ c, execIf saNext (fun c _ x => Allowed c.shared x)
    (init 1024 256) threeCalls = some c ∧
      c.shared.mgr.olist.map (fun id => (id, c.shared.mgr.bo id)) =
        [(0, ⟨0, 100, some ⟨1, 1⟩⟩), (1, ⟨128, 228, none⟩), (2, ⟨256, 356, none⟩)] ∧
      c.shared.mgr.hole ∈ ptrs c.shared.mgr.olist := by
  obtain ⟨c, hc, hobs⟩ := map_eq_some_iff.1
    (show (execIf saNext (fun c _ x => Allowed c.shared x) (init 1024 256) threeCalls).map
      (fun c => c.shared.mgr.olist.map fun id => (id, c.shared.mgr.bo id)) =
      some [(0, ⟨0, 100, some ⟨1, 1⟩⟩), (1, ⟨128, 228, none⟩), (2, ⟨256, 356, none⟩)] by
        decide +kernel)
  obtain ⟨-, -, -, hhole, -⟩ := @suballoc_safe 1024 256 (by decide) (by decide) c
    (execIf_runs .start hc)
  exact ⟨c, hc, hobs, hhole⟩

end KmsDrm.Amdgpu.Sa
