import KmsDrm.DrmMm.Holes

/-!
# The invariant of `drm_mm`

Every operation of the allocator keeps its four redundant structures consistent. The part of
the invariant that speaks of places only (`Placed`: the list, the addresses, the gaps) is
separated from the part that speaks of holes (`Inv`), because `add_hole` and `rm_hole` do not
move anything: an operation first changes the places, then settles the holes next to the change.

## Main definitions

* `DrmMm.Placed`, `DrmMm.Inv` — the two parts of the invariant.

## Main results

* `DrmMm.Inv.linkNode`, `DrmMm.Inv.removeNode` — nodes come and go.
-/

namespace KmsDrm.DrmMm

open KmsDrm.Lib List CircList

/-! ## Places -/

/-- The allocator manages `[lo, hi)`: nodes have positive size, do not wrap around, and follow
each other in the list, the head node standing for both ends. -/
structure Placed (lo hi : U64) (mm : Mm) : Prop where
  noColor : mm.colorAdjust = none
  nodup : mm.nodeList.Nodup
  alloc : ∀ id, (mm.node (some id)).allocated = true ↔ id ∈ mm.nodeList
  headStart : (mm.node none).start = hi
  headHole : holeNodeStart mm none = lo
  nodePos : ∀ id ∈ mm.nodeList, (mm.node (some id)).start < holeNodeStart mm (some id)
  gapLe : ∀ r ∈ mm.refs, holeNodeStart mm r ≤ holeNodeEnd mm r

/-- The invariant: moreover every node knows the gap behind it, and the holes are indexed. -/
structure Inv (lo hi : U64) (mm : Mm) : Prop extends Placed lo hi mm where
  gapEq : ∀ r ∈ mm.refs, (mm.node r).holeSize = holeNodeEnd mm r - holeNodeStart mm r
  indexed : Indexed mm

/-- Two states that differ in their holes only. -/
structure SamePlaces (mm mm' : Mm) : Prop where
  colorAdjust : mm'.colorAdjust = mm.colorAdjust
  nodeList : mm'.nodeList = mm.nodeList
  start : ∀ q, (mm'.node q).start = (mm.node q).start
  size : ∀ q, (mm'.node q).size = (mm.node q).size
  allocated : ∀ q, (mm'.node q).allocated = (mm.node q).allocated

lemma SamePlaces.refl (mm : Mm) : SamePlaces mm mm :=
  ⟨rfl, rfl, fun _ => rfl, fun _ => rfl, fun _ => rfl⟩

lemma SamePlaces.trans {mm1 mm2 mm3 : Mm} (h : SamePlaces mm1 mm2) (h' : SamePlaces mm2 mm3) :
    SamePlaces mm1 mm3 :=
  ⟨h'.colorAdjust.trans h.colorAdjust, h'.nodeList.trans h.nodeList,
    fun q => (h'.start q).trans (h.start q), fun q => (h'.size q).trans (h.size q),
    fun q => (h'.allocated q).trans (h.allocated q)⟩

lemma samePlaces_addHole (mm : Mm) (r : Ref) : SamePlaces mm (addHole mm r) :=
  ⟨rfl, rfl, fun _ => addHole_fields.1, fun _ => addHole_fields.2.1, fun _ => addHole_fields.2.2⟩

lemma samePlaces_rmHole (mm : Mm) (r : Ref) : SamePlaces mm (rmHole mm r) :=
  ⟨rfl, rfl, fun _ => rmHole_fields.1, fun _ => rmHole_fields.2.1, fun _ => rmHole_fields.2.2⟩

section Same

variable {mm mm' : Mm} (h : SamePlaces mm mm')
include h

lemma SamePlaces.refs : mm'.refs = mm.refs := by rw [Mm.refs, h.nodeList, Mm.refs]

lemma SamePlaces.holeNodeStart (q : Ref) : holeNodeStart mm' q = holeNodeStart mm q := by
  rw [DrmMm.holeNodeStart, h.start, h.size, DrmMm.holeNodeStart]

lemma SamePlaces.holeNodeEnd (q : Ref) : holeNodeEnd mm' q = holeNodeEnd mm q := by
  rw [DrmMm.holeNodeEnd, h.nodeList, h.start, DrmMm.holeNodeEnd]

lemma Placed.of_samePlaces {lo hi : U64} (hp : Placed lo hi mm) : Placed lo hi mm' where
  noColor := h.colorAdjust.trans hp.noColor
  nodup := h.nodeList ▸ hp.nodup
  alloc id := by rw [h.allocated, h.nodeList]; exact hp.alloc id
  headStart := (h.start none).trans hp.headStart
  headHole := (h.holeNodeStart none).trans hp.headHole
  nodePos id hid := by
    rw [h.start, h.holeNodeStart]
    exact hp.nodePos id (h.nodeList ▸ hid)
  gapLe r hr := by
    rw [h.holeNodeStart, h.holeNodeEnd]
    exact hp.gapLe r (h.refs ▸ hr)

end Same

/-! ## Settling the hole behind a node -/

lemma rmHole_if {mm : Mm} (r : Ref) (h : Indexed mm) :
    Indexed (if holeFollows mm r then rmHole mm r else mm) ∧
      SamePlaces mm (if holeFollows mm r then rmHole mm r else mm) ∧
      ((if holeFollows mm r then rmHole mm r else mm).node r).holeSize = 0 ∧
      ∀ q ≠ r, (if holeFollows mm r then rmHole mm r else mm).node q = mm.node q := by
  by_cases hc : holeFollows mm r = true
  · rw [if_pos hc]
    exact ⟨h.rmHole, samePlaces_rmHole mm r, by rw [rmHole_node_self],
      fun q hq => rmHole_node_of_ne hq⟩
  · rw [if_neg hc]
    exact ⟨h, SamePlaces.refl mm, by simpa [holeFollows] using hc, fun _ _ => rfl⟩

lemma addHole_if {mm : Mm} {r : Ref} {c : Prop} [Decidable c] (h : Indexed mm)
    (hr : r ∈ mm.refs) (h0 : (mm.node r).holeSize = 0)
    (hc : c ↔ holeNodeStart mm r ≠ holeNodeEnd mm r) :
    Indexed (if c then addHole mm r else mm) ∧
      SamePlaces mm (if c then addHole mm r else mm) ∧
      ((if c then addHole mm r else mm).node r).holeSize =
        holeNodeEnd mm r - holeNodeStart mm r ∧
      ∀ q ≠ r, (if c then addHole mm r else mm).node q = mm.node q := by
  by_cases hcc : c
  · rw [if_pos hcc]
    exact ⟨h.addHole hr h0 (hc.1 hcc), samePlaces_addHole mm r, by rw [addHole_node_self],
      fun q hq => addHole_node_of_ne hq⟩
  · rw [if_neg hcc]
    have heq : holeNodeStart mm r = holeNodeEnd mm r := by
      by_contra hne
      exact hcc (hc.2 hne)
    refine ⟨h, SamePlaces.refl mm, ?_, fun _ _ => rfl⟩
    bv_omega

/-! ## Initialisation -/

lemma inv_init {start size : U64} (h : start < start + size) {mem : NodeId → Node}
    (hmem : ∀ id, (mem id).allocated = false) : Inv start (start + size) (init mem start size) := by
  have hhole : (start + size) + -size = start := by bv_omega
  have hle : start ≤ start + size := by bv_omega
  have hrefs : (init mem start size).refs = [none] := rfl
  refine ⟨⟨rfl, nodup_nil, fun id => ?_, rfl, hhole, by simp [DrmMm.init], ?_⟩, ?_, ?_⟩
  · simp [DrmMm.init, hmem id]
  · intro r hr
    rw [hrefs, mem_singleton] at hr
    subst hr
    show (start + size) + -size ≤ start + size
    rw [hhole]
    exact hle
  · intro r hr
    rw [hrefs, mem_singleton] at hr
    subst hr
    rw [DrmMm.init, addHole_node_self, holeNodeStart_addHole, holeNodeEnd_addHole]
  · refine Indexed.addHole ⟨⟨nodup_nil, ?_⟩, ⟨nodup_nil, ?_⟩, ⟨nodup_nil, ?_⟩,
      List.Pairwise.nil, List.Pairwise.nil, pairwise_singleton _ _⟩ (none_mem_ptrs _) rfl ?_
    · intro r; cases r <;> simp [Mm.refs]
    · intro r; cases r <;> simp [Mm.refs]
    · intro r; cases r <;> simp [Mm.refs]
    · show (start + size) + -size ≠ start + size
      rw [hhole]
      exact fun heq => absurd h (by rw [← heq]; simp)

/-! ## Linking a node -/

section Link

variable {lo hi : U64} {mm : Mm} {hole : Ref} {id : NodeId}

/-- The node list and the flags after a node is linked behind `hole`, before the holes are
settled. -/
def linked (mm : Mm) (hole : Ref) (id : NodeId) : Mm :=
  Mm.modify { mm with nodeList := insertAfter mm.nodeList hole id } (some id)
    fun n => { n with allocated := true, holeSize := 0 }

lemma linked_node_of_ne {q : Ref} (hq : q ≠ some id) : (linked mm hole id).node q = mm.node q :=
  modify_node_of_ne hq

lemma linked_start (q : Ref) : ((linked mm hole id).node q).start = (mm.node q).start := by
  by_cases hq : q = some id
  · subst hq; simp [linked]
  · rw [linked_node_of_ne hq]

lemma linked_size (q : Ref) : ((linked mm hole id).node q).size = (mm.node q).size := by
  by_cases hq : q = some id
  · subst hq; simp [linked]
  · rw [linked_node_of_ne hq]

lemma holeNodeStart_linked (q : Ref) :
    holeNodeStart (linked mm hole id) q = holeNodeStart mm q := by
  rw [holeNodeStart, linked_start, linked_size, holeNodeStart]

variable (hhole : hole ∈ mm.refs) (hid : id ∉ mm.nodeList)

include hhole in
lemma mem_refs_linked (q : Ref) : q ∈ (linked mm hole id).refs ↔ q = some id ∨ q ∈ mm.refs := by
  have hperm := insertAfter_perm id hhole
  cases q with
  | none => simp [Mm.refs]
  | some a =>
    rw [Mm.refs, Mm.refs]
    simp [linked, hperm.mem_iff]

include hhole hid in
lemma holeNodeEnd_linked (q : Ref) :
    holeNodeEnd (linked mm hole id) q =
      if q = hole then (mm.node (some id)).start
      else if q = some id then holeNodeEnd mm hole
      else holeNodeEnd mm q := by
  rw [holeNodeEnd, linked_start]
  simp only [linked, modify_frame, next_insertAfter hid hhole]
  split_ifs <;> rfl

include hhole hid in
lemma Placed.linked (hp : Placed lo hi mm)
    (hstart : holeNodeStart mm hole ≤ (mm.node (some id)).start)
    (hpos : (mm.node (some id)).start < holeNodeStart mm (some id))
    (hend : holeNodeStart mm (some id) ≤ holeNodeEnd mm hole) :
    Placed lo hi (linked mm hole id) := by
  have hperm := insertAfter_perm id hhole
  have hlist : (DrmMm.linked mm hole id).nodeList = insertAfter mm.nodeList hole id :=
    rfl
  refine ⟨hp.noColor, ?_, fun a => ?_, ?_, ?_, fun a ha => ?_, fun q hq => ?_⟩
  · rw [hlist, hperm.nodup_iff, nodup_cons]
    exact ⟨hid, hp.nodup⟩
  · rw [hlist, hperm.mem_iff]
    by_cases ha : a = id
    · subst ha; simp [DrmMm.linked]
    · rw [linked_node_of_ne (by simpa using ha), hp.alloc a]
      simp [ha]
  · rw [linked_start, hp.headStart]
  · rw [holeNodeStart_linked, hp.headHole]
  · rw [linked_start, holeNodeStart_linked]
    rw [hlist, hperm.mem_iff, mem_cons] at ha
    rcases ha with rfl | ha
    · exact hpos
    · exact hp.nodePos a ha
  · rw [mem_refs_linked hhole] at hq
    rw [holeNodeStart_linked, holeNodeEnd_linked hhole hid]
    split_ifs with h1 h2
    · rw [h1]; exact hstart
    · rw [h2]; exact hend
    · exact hp.gapLe q (hq.resolve_left h2)

include hhole hid in
lemma Indexed.linked (h : Indexed mm) : Indexed (linked mm hole id) := by
  refine h.congr rfl rfl rfl rfl rfl (fun q => ?_) fun q hq h0 => ?_
  · rw [mem_refs_linked hhole]
    by_cases hq : q = some id
    · subst hq
      simp [DrmMm.linked, Mm.refs, hid]
    · rw [linked_node_of_ne hq]
      simp [hq]
  · have hne : q ≠ some id := fun e => hid (by simpa [e, Mm.refs] using hq)
    exact ⟨by rw [linked_node_of_ne hne], holeNodeStart_linked q⟩

end Link

/-- Linking a node into a hole that it fits into keeps the invariant.

**Proof sketch.** After the list has changed (`Placed.linked`), the hole is given up and the two
gaps next to the new node are settled one after the other; `addHole_if` says that each of the
two nodes then knows its gap, and no other node is touched. -/
lemma Inv.linkNode {lo hi : U64} {mm : Mm} {hole : Ref} {id : NodeId} (h : Inv lo hi mm)
    (hhole : hole ∈ mm.refs) (hid : id ∉ mm.nodeList)
    (hstart : holeNodeStart mm hole ≤ (mm.node (some id)).start)
    (hpos : (mm.node (some id)).start < holeNodeStart mm (some id))
    (hend : holeNodeStart mm (some id) ≤ holeNodeEnd mm hole) :
    Inv lo hi (linkNode mm hole id (holeNodeStart mm hole) (holeNodeEnd mm hole)) := by
  have hne : hole ≠ some id := fun e => hid (by simpa [e, Mm.refs] using hhole)
  have hP := h.toPlaced.linked hhole hid hstart hpos hend
  -- the hole is given up
  have hrm := (h.indexed.linked hhole hid).rmHole (r := hole)
  have hsame1 := samePlaces_rmHole (linked mm hole id) hole
  have hmem : hole ∈ (rmHole (linked mm hole id) hole).refs := by
    rw [hsame1.refs, mem_refs_linked hhole]
    exact .inr hhole
  have hs1 : holeNodeStart (rmHole (linked mm hole id) hole) hole = holeNodeStart mm hole := by
    rw [hsame1.holeNodeStart, holeNodeStart_linked]
  have he1 : holeNodeEnd (rmHole (linked mm hole id) hole) hole = (mm.node (some id)).start := by
    rw [hsame1.holeNodeEnd, holeNodeEnd_linked hhole hid, if_pos rfl]
  -- the gap in front of the node
  have hfront := addHole_if (c := holeNodeStart mm hole < (mm.node (some id)).start) hrm hmem
    (by rw [rmHole_node_self]) (by rw [hs1]; constructor <;> intro hc <;> bv_omega)
  set mm1 := if holeNodeStart mm hole < (mm.node (some id)).start
    then addHole (rmHole (linked mm hole id) hole) hole
    else rmHole (linked mm hole id) hole with hmm1
  obtain ⟨hidx1, hsame2, hgap1, hother1⟩ := hfront
  have hsame12 := hsame1.trans hsame2
  -- the gap behind the node
  have hs2 : holeNodeStart mm1 (some id) = holeNodeStart mm (some id) := by
    rw [hsame12.holeNodeStart, holeNodeStart_linked]
  have he2 : holeNodeEnd mm1 (some id) = holeNodeEnd mm hole := by
    rw [hsame12.holeNodeEnd, holeNodeEnd_linked hhole hid, if_neg hne.symm, if_pos rfl]
  have hback := addHole_if (c := holeNodeStart mm (some id) < holeNodeEnd mm hole)
    (r := some id) hidx1
    (by rw [hsame12.refs, mem_refs_linked hhole]; exact .inl rfl)
    (by rw [hother1 _ hne.symm, rmHole_node_of_ne hne.symm]; simp [DrmMm.linked])
    (by rw [hs2]; constructor <;> intro hc <;> bv_omega)
  have hfin : DrmMm.linkNode mm hole id (holeNodeStart mm hole) (holeNodeEnd mm hole) =
      if holeNodeStart mm (some id) < holeNodeEnd mm hole then addHole mm1 (some id) else mm1 := by
    have hst : ((linked mm hole id).node (some id)).start = (mm.node (some id)).start :=
      linked_start _
    have hsz : ((linked mm hole id).node (some id)).size = (mm.node (some id)).size := linked_size _
    rw [hmm1, holeNodeStart.eq_1 mm (some id), ← hst, ← hsz]
    rfl
  obtain ⟨hidx2, hsame3, hgap2, hother2⟩ := hback
  have hsame := hsame12.trans hsame3
  rw [hfin]
  refine ⟨hP.of_samePlaces hsame, fun q hq => ?_, hidx2⟩
  rw [hsame.holeNodeStart, hsame.holeNodeEnd, holeNodeStart_linked, holeNodeEnd_linked hhole hid]
  by_cases h1 : q = some id
  · subst h1
    rw [hgap2, hs2, he2, if_neg hne.symm, if_pos rfl]
  · rw [hother2 q h1, if_neg h1]
    by_cases h2 : q = hole
    · subst h2
      rw [hgap1, hs1, he1, if_pos rfl]
    · rw [hother1 q h2, rmHole_node_of_ne h2, linked_node_of_ne h1, if_neg h2]
      rw [hsame.refs, mem_refs_linked hhole] at hq
      exact h.gapEq q (hq.resolve_left h1)

/-! ## Unlinking a node -/

section Unlink

variable {lo hi : U64} {mm : Mm} {id : NodeId}

/-- The node list and the flags after a node is unlinked, before the hole in front of it is
settled. -/
def unlinked (mm : Mm) (id : NodeId) : Mm :=
  Mm.modify { mm with nodeList := mm.nodeList.erase id } (some id)
    fun n => { n with allocated := false }

lemma unlinked_node_of_ne {q : Ref} (hq : q ≠ some id) : (unlinked mm id).node q = mm.node q :=
  modify_node_of_ne hq

lemma unlinked_start (q : Ref) : ((unlinked mm id).node q).start = (mm.node q).start := by
  by_cases hq : q = some id
  · subst hq; simp [unlinked]
  · rw [unlinked_node_of_ne hq]

lemma unlinked_size (q : Ref) : ((unlinked mm id).node q).size = (mm.node q).size := by
  by_cases hq : q = some id
  · subst hq; simp [unlinked]
  · rw [unlinked_node_of_ne hq]

lemma holeNodeStart_unlinked (q : Ref) :
    holeNodeStart (unlinked mm id) q = holeNodeStart mm q := by
  rw [holeNodeStart, unlinked_start, unlinked_size, holeNodeStart]

variable (hn : mm.nodeList.Nodup) (hid : id ∈ mm.nodeList)

include hn in
lemma mem_refs_unlinked (q : Ref) : q ∈ (unlinked mm id).refs ↔ q ≠ some id ∧ q ∈ mm.refs := by
  cases q with
  | none => simp [Mm.refs]
  | some a => simp [Mm.refs, unlinked, hn.mem_erase_iff]

include hn hid in
lemma holeNodeEnd_unlinked {q : Ref} (hq : q ≠ some id) :
    holeNodeEnd (unlinked mm id) q =
      if q = CircList.prev mm.nodeList id then holeNodeEnd mm (some id)
      else holeNodeEnd mm q := by
  rw [holeNodeEnd, unlinked_start]
  simp only [unlinked, modify_frame, next_erase hn hid hq]
  split_ifs <;> rfl

include hn hid in
lemma holeNodeEnd_prev : holeNodeEnd mm (CircList.prev mm.nodeList id) =
    (mm.node (some id)).start := by
  rw [holeNodeEnd, next_prev hn hid]

include hid in
lemma Placed.unlinked (hp : Placed lo hi mm) : Placed lo hi (unlinked mm id) := by
  have hlist : (DrmMm.unlinked mm id).nodeList = mm.nodeList.erase id := rfl
  refine ⟨hp.noColor, hp.nodup.erase id, fun a => ?_, ?_, ?_, fun a ha => ?_, fun q hq => ?_⟩
  · rw [hlist, hp.nodup.mem_erase_iff]
    by_cases ha : a = id
    · subst ha; simp [DrmMm.unlinked]
    · rw [unlinked_node_of_ne (by simpa using ha), hp.alloc a]
      simp [ha]
  · rw [unlinked_start, hp.headStart]
  · rw [holeNodeStart_unlinked, hp.headHole]
  · rw [unlinked_start, holeNodeStart_unlinked]
    exact hp.nodePos a (mem_of_mem_erase ha)
  · rw [mem_refs_unlinked hp.nodup] at hq
    rw [holeNodeStart_unlinked, holeNodeEnd_unlinked hp.nodup hid hq.1]
    split_ifs with h1
    · have hfront := hp.gapLe q hq.2
      have hpos := hp.nodePos id hid
      have hback := hp.gapLe (some id) (by simpa [Mm.refs] using hid)
      rw [h1, holeNodeEnd_prev hp.nodup hid] at hfront
      rw [h1]
      bv_omega
    · exact hp.gapLe q hq.2

include hn in
lemma Indexed.unlinked (h : Indexed mm) (h0 : (mm.node (some id)).holeSize = 0) :
    Indexed (unlinked mm id) := by
  refine h.congr rfl rfl rfl rfl rfl (fun q => ?_) fun q hq hne0 => ?_
  · rw [mem_refs_unlinked hn]
    by_cases hq : q = some id
    · subst hq; simp [h0]
    · rw [unlinked_node_of_ne hq]
      simp [hq]
  · have hne : q ≠ some id := fun e => hne0 (e ▸ h0)
    exact ⟨by rw [unlinked_node_of_ne hne], holeNodeStart_unlinked q⟩

end Unlink

/-- `drm_mm_remove_node` keeps the invariant.

**Proof sketch.** The hole behind the node is given up, the node is unlinked, and the node in
front of it gets the whole gap: its old hole, the place of the removed node and the hole behind
it, which is not empty because the removed node was not. -/
lemma Inv.removeNode {lo hi : U64} {mm : Mm} {id : NodeId} (h : Inv lo hi mm)
    (hid : id ∈ mm.nodeList) : Inv lo hi (removeNode mm id) := by
  have hprev : CircList.prev mm.nodeList id ≠ some id := prev_ne_self h.nodup hid
  have hprevMem : CircList.prev mm.nodeList id ∈ mm.refs := prev_mem_ptrs _ _
  obtain ⟨hidx1, hsame1, h0₁, hother1⟩ := rmHole_if (some id) h.indexed
  set mm1 := if holeFollows mm (some id) then rmHole mm (some id) else mm with hmm1
  have hlist : mm1.nodeList = mm.nodeList := hsame1.nodeList
  have hn1 : mm1.nodeList.Nodup := hlist ▸ h.nodup
  have hid1 : id ∈ mm1.nodeList := hlist ▸ hid
  have hP1 := (h.toPlaced.of_samePlaces hsame1).unlinked hid1
  obtain ⟨hidx2, hsame2, h0₂, hother2⟩ :=
    rmHole_if (CircList.prev mm.nodeList id) (hidx1.unlinked hn1 h0₁)
  set mm2 := if holeFollows (unlinked mm1 id) (CircList.prev mm.nodeList id)
    then rmHole (unlinked mm1 id) (CircList.prev mm.nodeList id) else unlinked mm1 id with hmm2
  have hfin : DrmMm.removeNode mm id = addHole mm2 (CircList.prev mm.nodeList id) := rfl
  have hP2 := hP1.of_samePlaces hsame2
  have hmem2 : CircList.prev mm.nodeList id ∈ mm2.refs := by
    rw [hsame2.refs, mem_refs_unlinked hn1, hsame1.refs]
    exact ⟨hprev, hprevMem⟩
  -- the gap is not empty: it holds the place of the removed node
  have hgap : holeNodeStart mm2 (CircList.prev mm.nodeList id) ≠
      holeNodeEnd mm2 (CircList.prev mm.nodeList id) := by
    have hfront := h.gapLe _ hprevMem
    have hpos := h.nodePos id hid
    have hback := h.gapLe (some id) (by simpa [Mm.refs] using hid)
    rw [holeNodeEnd_prev h.nodup hid] at hfront
    rw [hsame2.holeNodeStart, hsame2.holeNodeEnd, holeNodeStart_unlinked,
      holeNodeEnd_unlinked hn1 hid1 hprev, hlist, if_pos rfl, hsame1.holeNodeStart,
      hsame1.holeNodeEnd]
    bv_omega
  rw [hfin]
  have hsame3 := samePlaces_addHole mm2 (CircList.prev mm.nodeList id)
  refine ⟨hP2.of_samePlaces hsame3, fun q hq => ?_, hidx2.addHole hmem2 h0₂ hgap⟩
  rw [hsame3.holeNodeStart, hsame3.holeNodeEnd]
  by_cases hq' : q = CircList.prev mm.nodeList id
  · subst hq'
    rw [addHole_node_self]
  · rw [hsame3.refs, hsame2.refs, mem_refs_unlinked hn1, hsame1.refs] at hq
    rw [addHole_node_of_ne hq', hother2 q hq', unlinked_node_of_ne hq.1, hother1 q hq.1,
      hsame2.holeNodeStart, hsame2.holeNodeEnd, holeNodeStart_unlinked,
      holeNodeEnd_unlinked hn1 hid1 hq.1, hlist, if_neg hq', hsame1.holeNodeStart,
      hsame1.holeNodeEnd]
    exact h.gapEq q hq.2

/-! ## Replacing a node -/

section Replace

variable {lo hi : U64} {mm : Mm} {old new : NodeId}

@[simp] lemma replaceHole_node : (replaceHole mm old new).node = mm.node := by
  unfold replaceHole
  split <;> rfl

@[simp] lemma replaceHole_nodeList : (replaceHole mm old new).nodeList = mm.nodeList := by
  unfold replaceHole
  split <;> rfl

@[simp] lemma replaceHole_colorAdjust :
    (replaceHole mm old new).colorAdjust = mm.colorAdjust := by
  unfold replaceHole
  split <;> rfl

lemma replaceNode_node {q : Ref} (hne : old ≠ new) (hq : q ≠ some new) :
    (replaceNode mm old new).node (swapRef old new q) =
      if q = some old then { mm.node q with allocated := true } else mm.node q := by
  by_cases hqo : q = some old
  · subst hqo
    rw [swapRef, if_pos rfl, if_pos rfl, replaceNode, modify_node_self,
      modify_node_of_ne (by simpa using hne.symm), replaceHole_node, modify_node_self]
  · rw [swapRef, if_neg hqo, if_neg hqo, replaceNode, modify_node_of_ne hq, modify_node_of_ne hqo]
    simp [Mm.modify, hq]

lemma replaceNode_ne (hold : old ∈ mm.nodeList) (hnew : new ∉ mm.nodeList) : old ≠ new :=
  fun e => hnew (e ▸ hold)

lemma replaceNode_ne_new (hnew : new ∉ mm.nodeList) {q : Ref} (hq : q ∈ mm.refs) : q ≠ some new :=
  fun e => hnew (by simpa [e, Mm.refs] using hq)

lemma replaceNode_nodeList (mm : Mm) (old new : NodeId) :
    (replaceNode mm old new).nodeList = mm.nodeList.map fun a => if a = old then new else a := by
  simp [replaceNode]

lemma replaceNode_refs (mm : Mm) (old new : NodeId) :
    (replaceNode mm old new).refs = mm.refs.map (swapRef old new) := by
  rw [Mm.refs, replaceNode_nodeList, Mm.refs, ptrs, ptrs]
  simp only [map_cons, map_map]
  refine congrArg₂ _ rfl (map_congr_left fun a _ => ?_)
  by_cases ha : a = old <;> simp [swapRef, ha]

lemma swapRef_injOn (hnew : new ∉ mm.nodeList) {q q' : Ref} (hq : q ∈ mm.refs) (hq' : q' ∈ mm.refs)
    (heq : swapRef old new q = swapRef old new q') : q = q' := by
  have hqn := replaceNode_ne_new hnew hq
  have hqn' := replaceNode_ne_new hnew hq'
  unfold swapRef at heq
  split_ifs at heq with h1 h2 h2
  · rw [h1, h2]
  · exact absurd heq.symm hqn'
  · exact absurd heq hqn
  · exact heq

lemma map_swapRef_of_notMem {l : List Ref} (hl : some old ∉ l) : l.map (swapRef old new) = l := by
  have hcongr : l.map (swapRef old new) = l.map id :=
    map_congr_left fun q hq => if_neg fun e : q = some old => hl (e ▸ hq)
  rw [hcongr, map_id]

lemma replaceHole_indexes (hstack : (mm.node (some old)).holeSize = 0 → some old ∉ mm.holeStack)
    (hsize : (mm.node (some old)).holeSize = 0 → some old ∉ mm.holesSize.inorder)
    (haddr : (mm.node (some old)).holeSize = 0 → some old ∉ mm.holesAddr.inorder) :
    (replaceHole mm old new).holeStack = mm.holeStack.map (swapRef old new) ∧
    (replaceHole mm old new).holesSize.inorder =
      mm.holesSize.inorder.map (swapRef old new) ∧
    (replaceHole mm old new).holesAddr.inorder = mm.holesAddr.inorder.map (swapRef old new) := by
  unfold replaceHole
  split_ifs with hc
  · exact ⟨rfl, RbTree.inorder_rbReplaceNode _ _ _, RbTree.inorder_rbReplaceNode _ _ _⟩
  · have h0 : (mm.node (some old)).holeSize = 0 := by simpa [holeFollows] using hc
    exact ⟨(map_swapRef_of_notMem (hstack h0)).symm, (map_swapRef_of_notMem (hsize h0)).symm,
      (map_swapRef_of_notMem (haddr h0)).symm⟩

variable (hold : old ∈ mm.nodeList) (hnew : new ∉ mm.nodeList)

include hold hnew

lemma replaceNode_fields {q : Ref} (hq : q ∈ mm.refs) :
    ((replaceNode mm old new).node (swapRef old new q)).holeSize = (mm.node q).holeSize ∧
    ((replaceNode mm old new).node (swapRef old new q)).start = (mm.node q).start ∧
    holeNodeStart (replaceNode mm old new) (swapRef old new q) = holeNodeStart mm q := by
  rw [holeNodeStart, replaceNode_node (replaceNode_ne hold hnew) (replaceNode_ne_new hnew hq)]
  split_ifs <;> exact ⟨rfl, rfl, rfl⟩

lemma holeNodeEnd_replaceNode {q : Ref} (hq : q ∈ mm.refs) :
    holeNodeEnd (replaceNode mm old new) (swapRef old new q) = holeNodeEnd mm q := by
  have hmap : ∀ r : Ref, swapRef old new r = r.map fun a => if a = old then new else a := by
    intro r
    cases r with
    | none => rfl
    | some a => by_cases ha : a = old <;> simp [swapRef, ha]
  have hnext : CircList.next (replaceNode mm old new).nodeList (swapRef old new q) =
      swapRef old new (CircList.next mm.nodeList q) := by
    rw [replaceNode_nodeList, hmap, hmap]
    refine next_map fun x hx y hy hxy => ?_
    have hxr : some x ∈ mm.refs := by simpa [Mm.refs] using hx
    have := swapRef_injOn hnew hxr (hy ▸ hq) (by rw [hmap, hmap]; simpa using hxy)
    simpa using this
  rw [holeNodeEnd, hnext, (replaceNode_fields hold hnew (next_mem_ptrs _ _)).2.1,
    holeNodeEnd]

lemma IsIndex.replaceNode {l : List Ref} (hl : IsIndex mm l) :
    IsIndex (replaceNode mm old new) (l.map (swapRef old new)) := by
  refine ⟨?_, fun r => ?_⟩
  · refine (nodup_map_iff_inj_on hl.1).2 fun x hx y hy hxy => ?_
    exact swapRef_injOn hnew ((hl.2 x).1 hx).1 ((hl.2 y).1 hy).1 hxy
  · rw [replaceNode_refs]
    constructor
    · intro hr
      obtain ⟨q, hq, rfl⟩ := mem_map.1 hr
      obtain ⟨hq1, hq2⟩ := (hl.2 q).1 hq
      exact ⟨mem_map_of_mem hq1, by rwa [(replaceNode_fields hold hnew hq1).1]⟩
    · rintro ⟨hr, hr0⟩
      obtain ⟨q, hq, rfl⟩ := mem_map.1 hr
      rw [(replaceNode_fields hold hnew hq).1] at hr0
      exact mem_map_of_mem ((hl.2 q).2 ⟨hq, hr0⟩)

lemma replaceNode_indexes (h : Indexed mm) :
    (replaceNode mm old new).holeStack = mm.holeStack.map (swapRef old new) ∧
    (replaceNode mm old new).holesSize.inorder =
      mm.holesSize.inorder.map (swapRef old new) ∧
    (replaceNode mm old new).holesAddr.inorder = mm.holesAddr.inorder.map (swapRef old new) := by
  have hne := replaceNode_ne hold hnew
  have hnot : ∀ {l : List Ref}, IsIndex mm l →
      ((mm.modify (some new) fun _ => mm.node (some old)).node (some old)).holeSize = 0 →
      some old ∉ l := by
    intro l hl h0 hmem
    rw [modify_node_of_ne (by simpa using hne)] at h0
    exact ((hl.2 _).1 hmem).2 h0
  exact replaceHole_indexes (hnot h.stack) (hnot h.size) (hnot h.addr)

lemma replaceNode_dates (h : Indexed mm) :
    (replaceNode mm old new).clock = mm.clock ∧
      (replaceNode mm old new).holeStack.map (replaceNode mm old new).created =
        mm.holeStack.map mm.created := by
  have hne := replaceNode_ne hold hnew
  rw [(replaceNode_indexes hold hnew h).1, map_map]
  simp only [DrmMm.replaceNode, replaceHole]
  split_ifs with hc
  · refine ⟨rfl, map_congr_left fun q hq => ?_⟩
    have hq' := replaceNode_ne_new hnew ((h.stack.2 q).1 hq).1
    by_cases hold' : q = some old
    · simp [swapRef, hold', Mm.modify]
    · simp [swapRef, hold', hq', Mm.modify]
  · refine ⟨rfl, map_congr_left fun q hq => congrArg mm.created (if_neg fun e => ?_)⟩
    have h0 : (mm.node q).holeSize = 0 := by
      simpa [holeFollows, e, modify_node_of_ne, hne] using hc
    exact ((h.stack.2 q).1 hq).2 h0

lemma Inv.replaceNode (h : Inv lo hi mm) : Inv lo hi (replaceNode mm old new) := by
  have hne := replaceNode_ne hold hnew
  have hrefs := replaceNode_refs mm old new
  obtain ⟨hstack, hsize, haddr⟩ := replaceNode_indexes hold hnew h.indexed
  have hnoneRef : swapRef old new none = none := rfl
  have hlist : ∀ id, id ∈ (DrmMm.replaceNode mm old new).nodeList ↔
      id = new ∨ id ≠ old ∧ id ∈ mm.nodeList := by
    intro id
    rw [replaceNode_nodeList, mem_map]
    constructor
    · rintro ⟨a, ha, rfl⟩
      by_cases hao : a = old
      · exact .inl (if_pos hao)
      · rw [if_neg hao]
        exact .inr ⟨hao, ha⟩
    · rintro (rfl | ⟨hio, hi⟩)
      · exact ⟨old, hold, if_pos rfl⟩
      · exact ⟨id, hi, if_neg hio⟩
  refine ⟨⟨?_, ?_, fun id => ?_, ?_, ?_, fun id hid => ?_, fun r hr => ?_⟩, fun r hr => ?_, ?_⟩
  · simp [DrmMm.replaceNode, h.noColor]
  · rw [replaceNode_nodeList]
    refine (nodup_map_iff_inj_on h.nodup).2 fun x hx y hy hxy => ?_
    split_ifs at hxy with h1 h2 h2
    · rw [h1, h2]
    · exact absurd (hxy ▸ hy) hnew
    · exact absurd (hxy ▸ hx) hnew
    · exact hxy
  · rw [hlist]
    by_cases h1 : id = new
    · subst h1
      simp [DrmMm.replaceNode]
    · by_cases h2 : id = old
      · subst h2
        simp [DrmMm.replaceNode, modify_node_of_ne, hne]
      · have hnode := @replaceNode_node mm old new (some id) hne (by simpa using h1)
        rw [swapRef, if_neg (by simpa using h2), if_neg (by simpa using h2)] at hnode
        rw [hnode, h.alloc id]
        simp [h1, h2]
  · rw [← hnoneRef, (replaceNode_fields hold hnew (none_mem_ptrs _)).2.1, h.headStart]
  · rw [← hnoneRef, (replaceNode_fields hold hnew (none_mem_ptrs _)).2.2, h.headHole]
  · have hmem : some id ∈ (DrmMm.replaceNode mm old new).refs := by simpa [Mm.refs] using hid
    rw [hrefs] at hmem
    obtain ⟨q, hq, hqid⟩ := mem_map.1 hmem
    rw [← hqid, (replaceNode_fields hold hnew hq).2.1, (replaceNode_fields hold hnew hq).2.2]
    cases q with
    | none => cases hqid
    | some a => exact h.nodePos a (by simpa [Mm.refs] using hq)
  · rw [hrefs] at hr
    obtain ⟨q, hq, rfl⟩ := mem_map.1 hr
    rw [(replaceNode_fields hold hnew hq).2.2, holeNodeEnd_replaceNode hold hnew hq]
    exact h.gapLe q hq
  · rw [hrefs] at hr
    obtain ⟨q, hq, rfl⟩ := mem_map.1 hr
    obtain ⟨hhole, -, hstart⟩ := replaceNode_fields hold hnew hq
    rw [hstart, holeNodeEnd_replaceNode hold hnew hq, hhole]
    exact h.gapEq q hq
  · refine ⟨hstack ▸ h.indexed.stack.replaceNode hold hnew,
      hsize ▸ h.indexed.size.replaceNode hold hnew,
      haddr ▸ h.indexed.addr.replaceNode hold hnew, ?_, ?_, ?_⟩
    · rw [hsize, pairwise_map]
      refine h.indexed.sizeSorted.imp_of_mem fun {a b} ha hb hab => ?_
      rw [(replaceNode_fields hold hnew ((h.indexed.size.2 a).1 ha).1).1,
        (replaceNode_fields hold hnew ((h.indexed.size.2 b).1 hb).1).1]
      exact hab
    · rw [haddr, pairwise_map]
      refine h.indexed.addrSorted.imp_of_mem fun {a b} ha hb hab => ?_
      rw [(replaceNode_fields hold hnew ((h.indexed.addr.2 a).1 ha).1).2.2,
        (replaceNode_fields hold hnew ((h.indexed.addr.2 b).1 hb).1).2.2]
      exact hab
    · obtain ⟨hclock, hdates⟩ := replaceNode_dates hold hnew h.indexed
      rw [hclock, hdates]
      exact h.indexed.recent

end Replace

end KmsDrm.DrmMm
