import KmsDrm.DrmMm.Runs

/-!
# The eviction scan of `drm_mm`

A driver that finds no hole for a node adds nodes that it could evict to a scan. A node that is
added is taken out of the list of nodes, so that the holes around it become one, and the scan looks
for room there. Afterwards the driver removes the nodes from the scan in the reverse order, which
links them into the list again; it evicts the nodes that the scan reports, and the room is there.

## Main definitions

* `DrmMm.scanAddBlock`, `DrmMm.scanRemoveBlock` — the two calls of a scan.

## Main results

* `DrmMm.scan_finds_room` — the evicted nodes leave room for the new one.

## Implementation notes

A node that is taken out of the list keeps its links. The model keeps the backward one, which is the
one that is used to link the node again.
-/

namespace KmsDrm.DrmMm

open KmsDrm.Lib List CircList

variable {a b hi lo : U64} {mm : Mm} {r : Ref} {ids l : List NodeId} {s : Scanning} {id : NodeId}

/-- What a scan is asked for. -/
structure ScanRequest where
  color : U64
  alignment : U64
  remainderMask : U64
  size : U64
  mode : InsertMode
  rangeStart : U64
  rangeEnd : U64
  deriving DecidableEq, Repr

/-- `struct drm_mm_scan`. -/
structure Scan extends ScanRequest where
  hitStart : U64
  hitEnd : U64
  deriving DecidableEq, Repr

/-- An allocator that is being scanned, with the backward links of the nodes that are taken out of
the list. -/
structure Scanning where
  mm : Mm
  scan : Scan
  prevLink : NodeId → Ref := fun _ => none
  scannedBlock : NodeId → Bool := fun _ => false
  scanActive : ℕ := 0

/-- `drm_mm_scan_init_with_range`. -/
def scanInitWithRange (size alignment color start «end» : U64) (mode : InsertMode) : Scan :=
  let alignment := if alignment ≤ 1 then 0 else alignment
  { color := color
    alignment := alignment
    remainderMask := if isPowerOf2 alignment then alignment - 1 else 0
    size := size
    mode := mode
    rangeStart := start
    rangeEnd := «end»
    hitStart := BitVec.allOnes 64
    hitEnd := 0 }

/-- A node is taken out of the list of nodes. -/
def takeOut (s : Scanning) (id : NodeId) : Scanning :=
  { s with
    mm := { s.mm with nodeList := s.mm.nodeList.erase id }
    prevLink := Function.update s.prevLink id (CircList.prev s.mm.nodeList id)
    scannedBlock := Function.update s.scannedBlock id true
    scanActive := s.scanActive + 1 }

/-- Where the scan finds room in the hole that begins behind a pointer. -/
def scanHole (s : Scanning) (hole : Ref) : Option U64 :=
  placeBetween s.scan.size s.scan.alignment s.scan.remainderMask s.scan.rangeStart s.scan.rangeEnd
    s.scan.mode (adjustColor s.mm hole s.scan.color
      (holeNodeStart s.mm hole, holeNodeEnd s.mm hole))

/-- `drm_mm_scan_add_block`. -/
def scanAddBlock (s : Scanning) (id : NodeId) : Scanning × Bool :=
  let hole := CircList.prev s.mm.nodeList id
  let s := takeOut s id
  match scanHole s hole with
  | none => (s, false)
  | some adjStart =>
    ({ s with scan := { s.scan with hitStart := adjStart, hitEnd := adjStart + s.scan.size } },
      true)

/-- `drm_mm_scan_remove_block`. -/
def scanRemoveBlock (s : Scanning) (id : NodeId) : Scanning × Bool :=
  let node := s.mm.node (some id)
  ({ s with
    mm := { s.mm with nodeList := insertAfter s.mm.nodeList (s.prevLink id) id }
    scannedBlock := Function.update s.scannedBlock id false
    scanActive := s.scanActive - 1 },
    decide (s.scan.hitStart < node.start + node.size ∧ node.start < s.scan.hitEnd))

/-- Nodes are added to the scan one after the other; the flags say which of them made room. -/
def addBlocks : List NodeId → Scanning → Scanning × List Bool
  | [], s => (s, [])
  | id :: ids, s =>
    let added := addBlocks ids (scanAddBlock s id).1
    (added.1, (scanAddBlock s id).2 :: added.2)

/-- Nodes are removed from the scan one after the other, and those that are to be evicted are
collected. -/
def removeBlocks : List NodeId → Scanning → Scanning × List NodeId
  | [], s => (s, [])
  | id :: ids, s =>
    let removed := removeBlocks ids (scanRemoveBlock s id).1
    (removed.1, if (scanRemoveBlock s id).2 then id :: removed.2 else removed.2)

/-! ## The list is restored -/

lemma scanAddBlock_eq (s : Scanning) (id : NodeId) :
    ∃ hitStart hitEnd, (scanAddBlock s id).1 =
      { takeOut s id with scan := { s.scan with hitStart := hitStart, hitEnd := hitEnd } } := by
  unfold scanAddBlock
  dsimp only
  split
  · exact ⟨s.scan.hitStart, s.scan.hitEnd, rfl⟩
  · exact ⟨_, _, rfl⟩

lemma addBlocks_prevLink (hid : id ∉ ids) (s : Scanning) :
    (addBlocks ids s).1.prevLink id = s.prevLink id := by
  induction ids generalizing s with
  | nil => rfl
  | cons a ids ih =>
    rw [mem_cons, not_or] at hid
    obtain ⟨hitStart, hitEnd, hadd⟩ := scanAddBlock_eq s a
    show (addBlocks ids (scanAddBlock s a).1).1.prevLink id = _
    rw [ih hid.2, hadd]
    exact Function.update_of_ne hid.1 _ _

lemma removeBlocks_append (xs ys : List NodeId) (s : Scanning) :
    (removeBlocks (xs ++ ys) s).1 = (removeBlocks ys (removeBlocks xs s).1).1 := by
  induction xs generalizing s with
  | nil => rfl
  | cons a xs ih => exact ih (scanRemoveBlock s a).1

/-- **The allocator is restored** when the nodes that were added are removed in the reverse order:
only the hit and the links of the nodes differ.

**Proof sketch.** By induction on the nodes that are added. Everything that is added after the first
node is removed before it, so that by the induction hypothesis the list is then the one from which
the first node was taken out, and its link leads to the node that was before it. -/
lemma removeBlocks_addBlocks (hn : s.mm.nodeList.Nodup) (hids : ids.Nodup)
    (hmem : ∀ id ∈ ids, id ∈ s.mm.nodeList) (hscanned : ∀ id ∈ ids, s.scannedBlock id = false) :
    (removeBlocks ids.reverse (addBlocks ids s).1).1 =
      { s with scan := (addBlocks ids s).1.scan, prevLink := (addBlocks ids s).1.prevLink } := by
  induction ids generalizing s with
  | nil => rfl
  | cons id ids ih =>
    rw [nodup_cons] at hids
    obtain ⟨hitStart, hitEnd, hadd⟩ := scanAddBlock_eq s id
    obtain ⟨s1, hs1⟩ : ∃ s1, (scanAddBlock s id).1 = s1 := ⟨_, rfl⟩
    have hlist : s1.mm = { s.mm with nodeList := s.mm.nodeList.erase id } := by
      rw [← hs1, hadd]
      rfl
    have hflags : s1.scannedBlock = Function.update s.scannedBlock id true := by
      rw [← hs1, hadd]
      rfl
    have hactive : s1.scanActive = s.scanActive + 1 := by
      rw [← hs1, hadd]
      rfl
    have hlink : (addBlocks ids s1).1.prevLink id = CircList.prev s.mm.nodeList id := by
      rw [addBlocks_prevLink hids.1, ← hs1, hadd]
      exact Function.update_self _ _ _
    have hne : ∀ a ∈ ids, a ≠ id := fun a ha e => hids.1 (e ▸ ha)
    have hrest := ih (s := s1) (by rw [hlist]; exact hn.erase id) hids.2
      (fun a ha => by
        rw [hlist]
        exact (mem_erase_of_ne (hne a ha)).2 (hmem a (mem_cons_of_mem id ha)))
      (fun a ha => by
        rw [hflags, Function.update_of_ne (hne a ha)]
        exact hscanned a (mem_cons_of_mem id ha))
    have hadded : (addBlocks (id :: ids) s).1 = (addBlocks ids s1).1 := by
      rw [← hs1]
      rfl
    rw [hadded, reverse_cons, removeBlocks_append, hrest]
    show (scanRemoveBlock _ id).1 = _
    have hflags' : Function.update s1.scannedBlock id false = s.scannedBlock := by
      rw [hflags, Function.update_idem, ← hscanned id mem_cons_self, Function.update_eq_self]
    have hlist' : insertAfter s1.mm.nodeList ((addBlocks ids s1).1.prevLink id) id =
        s.mm.nodeList := by
      rw [hlist, hlink]
      exact insertAfter_prev_erase hn (hmem id mem_cons_self)
    have hmm : { s1.mm with nodeList := s.mm.nodeList } = s.mm := by rw [hlist]
    simp only [scanRemoveBlock]
    rw [hflags', hlist', hmm, hactive, Nat.add_sub_cancel]

lemma removeBlocks_evicted (ids : List NodeId) (s : Scanning) :
    (removeBlocks ids s).2 = ids.filter fun id => decide
      (s.scan.hitStart < holeNodeStart s.mm (some id) ∧
        (s.mm.node (some id)).start < s.scan.hitEnd) := by
  induction ids generalizing s with
  | nil => rfl
  | cons id ids ih =>
    have hrest := ih (scanRemoveBlock s id).1
    show (if (scanRemoveBlock s id).2 then id :: (removeBlocks ids (scanRemoveBlock s id).1).2
      else (removeBlocks ids (scanRemoveBlock s id).1).2) = _
    rw [hrest, filter_cons]
    rfl

/-! ## Free intervals -/

/-- No node of the list overlaps `[a, b)`. -/
def Clear (mm : Mm) (l : List NodeId) (a b : U64) : Prop :=
  ∀ c ∈ l, holeNodeStart mm (some c) ≤ a ∨ b ≤ (mm.node (some c)).start

lemma exists_cut
    (hpair : l.Pairwise fun c d => holeNodeStart mm (some c) ≤ (mm.node (some d)).start)
    (hpos : ∀ c ∈ l, (mm.node (some c)).start < holeNodeStart mm (some c))
    (hclear : Clear mm l a b) :
    ∃ xs ys, l = xs ++ ys ∧ (∀ x ∈ xs, holeNodeStart mm (some x) ≤ a) ∧
      ∀ y ∈ ys, b ≤ (mm.node (some y)).start := by
  induction l with
  | nil => exact ⟨[], [], rfl, by simp, by simp⟩
  | cons c l ih =>
    rw [pairwise_cons] at hpair
    rcases hclear c mem_cons_self with hle | hge
    · obtain ⟨xs, ys, rfl, hxs, hys⟩ := ih hpair.2
        (fun d hd => hpos d (mem_cons_of_mem c hd))
        (fun d hd => hclear d (mem_cons_of_mem c hd))
      refine ⟨c :: xs, ys, rfl, fun x hx => ?_, hys⟩
      rcases mem_cons.1 hx with rfl | hx
      · exact hle
      · exact hxs x hx
    · refine ⟨[], c :: l, rfl, by simp, fun y hy => ?_⟩
      rcases mem_cons.1 hy with rfl | hy
      · exact hge
      · have hc := hpos c mem_cons_self
        have hcy := hpair.1 y hy
        bv_omega

lemma Placed.exists_gap (h : Placed lo hi mm) (ha : lo ≤ a) (hb : b ≤ hi)
    (hclear : Clear mm mm.nodeList a b) :
    ∃ r ∈ mm.refs, holeNodeStart mm r ≤ a ∧ b ≤ holeNodeEnd mm r := by
  obtain ⟨xs, ys, hl, hxs, hys⟩ := exists_cut h.pairwise_nodeList.2 h.nodePos hclear
  have hnext : holeNodeEnd mm xs.getLast? = (mm.node ys.head?).start := by
    have hn := h.nodup
    rw [hl] at hn
    rw [holeNodeEnd, hl, next_append hn]
  refine ⟨xs.getLast?, ?_, ?_, ?_⟩
  · cases hlast : xs.getLast? with
    | none => exact none_mem_ptrs _
    | some z =>
      refine some_mem_ptrs.2 ?_
      rw [hl]
      exact mem_append_left ys (mem_of_getLast? hlast)
  · cases hlast : xs.getLast? with
    | none =>
      rw [h.headHole]
      exact ha
    | some z => exact hxs z (mem_of_getLast? hlast)
  · rw [hnext]
    cases hhead : ys.head? with
    | none =>
      rw [h.headStart]
      exact hb
    | some y => exact hys y (mem_of_head? hhead)

/-- A part of the list of nodes from which a node is taken out does not overlap what is between the
nodes on both sides of it. -/
lemma Placed.clear_between (h : Placed lo hi mm) {xs ys : List NodeId}
    (hl : (xs ++ id :: ys).Sublist mm.nodeList) (ha : holeNodeStart mm xs.getLast? ≤ a)
    (hb : b ≤ (mm.node ys.head?).start) : Clear mm (xs ++ ys) a b := by
  have hpair := h.pairwise_nodeList.2.sublist hl
  have hpos : ∀ c ∈ xs ++ id :: ys, (mm.node (some c)).start < holeNodeStart mm (some c) :=
    fun c hc => h.nodePos c (hl.subset hc)
  intro c hc
  rcases mem_append.1 hc with hc | hc
  · -- a node before the interval ends before the last one of them does
    left
    rcases eq_nil_or_concat xs with rfl | ⟨zs, z, rfl⟩
    · cases hc
    · rw [concat_eq_append, List.getLast?_concat] at ha
      rw [concat_eq_append] at hc hpair hpos
      rcases mem_append.1 hc with hcz | hcz
      · rw [append_assoc, pairwise_append] at hpair
        have hcz' := hpair.2.2 c hcz z (by simp)
        have hz := hpos z (by simp)
        bv_omega
      · rw [mem_singleton.1 hcz]
        exact ha
  · right
    cases ys with
    | nil => cases hc
    | cons y ys =>
      rw [List.head?_cons] at hb
      rcases mem_cons.1 hc with rfl | hc
      · exact hb
      · rw [pairwise_append, pairwise_cons, pairwise_cons] at hpair
        have hyc := hpair.2.1.2.1 c hc
        have hy := hpos y (by simp)
        bv_omega

/-! ## The hit -/

/-- The request of a scan is one that `scanInitWithRange` sets up. -/
structure ScanRequest.Valid (req : ScanRequest) : Prop where
  size : req.size ≠ 0
  alignment : req.alignment = 0 ∨ 1 < req.alignment.toNat
  remainderMask : req.remainderMask = if isPowerOf2 req.alignment then req.alignment - 1 else 0

/-- The hit is an interval as it was asked for, and none of the nodes overlaps it. -/
structure Hit (lo hi : U64) (mm : Mm) (l : List NodeId) (scan : Scan) : Prop where
  fits : Fits scan.size scan.alignment scan.rangeStart scan.rangeEnd lo hi scan.hitStart
  hitEnd : scan.hitEnd = scan.hitStart + scan.size
  clear : Clear mm l scan.hitStart scan.hitEnd

lemma Hit.subset {l' : List NodeId} {scan : Scan} (h : Hit lo hi mm l scan) (hl : l' ⊆ l) :
    Hit lo hi mm l' scan :=
  ⟨h.fits, h.hitEnd, fun c hc => h.clear c (hl hc)⟩

lemma scanAddBlock_request (s : Scanning) (id : NodeId) :
    (scanAddBlock s id).1.scan.toScanRequest = s.scan.toScanRequest := by
  obtain ⟨hitStart, hitEnd, hadd⟩ := scanAddBlock_eq s id
  rw [hadd]

lemma addBlocks_node (ids : List NodeId) (s : Scanning) :
    (addBlocks ids s).1.mm.node = s.mm.node := by
  induction ids generalizing s with
  | nil => rfl
  | cons id ids ih =>
    obtain ⟨hitStart, hitEnd, hadd⟩ := scanAddBlock_eq s id
    refine (ih (scanAddBlock s id).1).trans ?_
    rw [hadd]
    rfl

lemma addBlocks_request (ids : List NodeId) (s : Scanning) :
    (addBlocks ids s).1.scan.toScanRequest = s.scan.toScanRequest := by
  induction ids generalizing s with
  | nil => rfl
  | cons id ids ih => exact (ih (scanAddBlock s id).1).trans (scanAddBlock_request s id)

lemma scanAddBlock_mm (s : Scanning) (id : NodeId) :
    (scanAddBlock s id).1.mm = { s.mm with nodeList := s.mm.nodeList.erase id } := by
  obtain ⟨hitStart, hitEnd, hadd⟩ := scanAddBlock_eq s id
  rw [hadd]
  rfl

lemma scanAddBlock_of_false (h : (scanAddBlock s id).2 = false) :
    (scanAddBlock s id).1.scan = s.scan := by
  unfold scanAddBlock at h ⊢
  dsimp only at h ⊢
  split at h
  · rfl
  · cases h

lemma addBlocks_of_false (h : true ∉ (addBlocks ids s).2) :
    (addBlocks ids s).1.scan = s.scan := by
  induction ids generalizing s with
  | nil => rfl
  | cons id ids ih =>
    have h' : true ∉ (scanAddBlock s id).2 :: (addBlocks ids (scanAddBlock s id).1).2 := h
    rw [mem_cons, not_or] at h'
    show (addBlocks ids (scanAddBlock s id).1).1.scan = s.scan
    rw [ih h'.2]
    exact scanAddBlock_of_false (by simpa using h'.1)

lemma scanAddBlock_of_true (h : (scanAddBlock s id).2 = true) :
    ∃ adjStart, scanHole (takeOut s id) (CircList.prev s.mm.nodeList id) = some adjStart ∧
      (scanAddBlock s id).1.scan =
        { s.scan with hitStart := adjStart, hitEnd := adjStart + s.scan.size } := by
  unfold scanAddBlock at h ⊢
  dsimp only at h ⊢
  split at h
  · cases h
  next adjStart hplace =>
    rw [hplace]
    exact ⟨adjStart, rfl, rfl⟩

section Hit

variable {start size : U64} (hpos : start < start + size) (h : Inv start (start + size) mm)

include h in
lemma le_holeNodeStart (hr : r ∈ mm.refs) : start ≤ holeNodeStart mm r := by
  cases r with
  | none =>
    rw [h.headHole]
    exact BitVec.le_refl _
  | some c =>
    have hc := some_mem_ptrs.1 hr
    have hfirst := h.gapLe none (none_mem_ptrs _)
    have hnode := h.pairwise_nodeList.1 c hc
    have hcpos := h.nodePos c hc
    rw [h.headHole] at hfirst
    bv_omega

include hpos h in
lemma node_start_le (hr : r ∈ mm.refs) : (mm.node r).start ≤ start + size := by
  cases r with
  | none =>
    rw [h.headStart]
    exact BitVec.le_refl _
  | some c =>
    have hcpos := h.nodePos c (some_mem_ptrs.1 hr)
    have hgap := h.gapLe (some c) hr
    have hend := gapEnd_le hpos h hr
    rw [gapEnd_eq hpos h] at hend
    bv_omega

include hpos h in
lemma scanAddBlock_hit (hl : l.Sublist mm.nodeList) (hmm : s.mm = { mm with nodeList := l })
    (hvalid : s.scan.toScanRequest.Valid) (hid : id ∈ l) (hfound : (scanAddBlock s id).2 = true) :
    Hit start (start + size) mm (l.erase id) (scanAddBlock s id).1.scan := by
  obtain ⟨adjStart, hplace, hscan⟩ := scanAddBlock_of_true hfound
  obtain ⟨xs, ys, rfl⟩ := append_of_mem hid
  have hn := h.nodup.sublist hl
  have hx : id ∉ xs := fun hx => (nodup_append.1 hn).2.2 id hx id (by simp) rfl
  have herase : (xs ++ id :: ys).erase id = xs ++ ys := by
    rw [erase_append_right _ hx, erase_cons_head]
  have hsub : (xs ++ ys).Sublist (xs ++ id :: ys) :=
    List.Sublist.append_left (sublist_cons_self id ys) xs
  -- the hole is what is between the two parts of the list
  have hbounds : scanHole (takeOut s id) (CircList.prev s.mm.nodeList id) =
      placeBetween s.scan.size s.scan.alignment
        (if isPowerOf2 s.scan.alignment then s.scan.alignment - 1 else 0) s.scan.rangeStart
        s.scan.rangeEnd s.scan.mode (holeNodeStart mm xs.getLast?, (mm.node ys.head?).start) := by
    have hout : (takeOut s id).mm = { mm with nodeList := xs ++ ys } := by
      simp only [takeOut, hmm, herase]
    have hprev : CircList.prev s.mm.nodeList id = xs.getLast? := by
      rw [hmm]
      exact prev_append ys hx
    have hend : holeNodeEnd { mm with nodeList := xs ++ ys } xs.getLast? =
        (mm.node ys.head?).start := by
      rw [holeNodeEnd]
      simp only [next_append (hn.sublist hsub)]
    rw [scanHole, hout, hprev, hend, ← hvalid.remainderMask]
    simp only [h.noColor]
    rfl
  have hfits := placeBetween_spec hvalid.size hvalid.alignment s.scan.rangeStart s.scan.rangeEnd
    s.scan.mode (holeNodeStart mm xs.getLast?) (mm.node ys.head?).start
  rw [← hbounds, hplace] at hfits
  have hlast : xs.getLast? ∈ mm.refs := by
    cases hlast : xs.getLast? with
    | none => exact none_mem_ptrs _
    | some z => exact some_mem_ptrs.2 (hl.subset (by simp [mem_of_getLast? hlast]))
  have hhead : ys.head? ∈ mm.refs := by
    cases hhead : ys.head? with
    | none => exact none_mem_ptrs _
    | some y => exact some_mem_ptrs.2 (hl.subset (by simp [mem_of_head? hhead]))
  have hlo := le_holeNodeStart h hlast
  have hhi := node_start_le hpos h hhead
  have hwrap : (adjStart + s.scan.size).toNat = adjStart.toNat + s.scan.size.toNat := by
    have hend := hfits.2.1
    exact Nat.mod_eq_of_lt (by omega)
  rw [hscan, herase]
  refine ⟨⟨Nat.le_trans hlo hfits.1, Nat.le_trans hfits.2.1 hhi, hfits.2.2⟩, rfl, ?_⟩
  refine h.clear_between hl hfits.1 ?_
  show (adjStart + s.scan.size).toNat ≤ _
  rw [hwrap]
  exact hfits.2.1

include hpos h in
lemma addBlocks_hit (hl : l.Sublist mm.nodeList) (hmm : s.mm = { mm with nodeList := l })
    (hvalid : s.scan.toScanRequest.Valid) (hids : ids.Nodup) (hmem : ∀ id ∈ ids, id ∈ l)
    (hfound : true ∈ (addBlocks ids s).2) :
    Hit start (start + size) mm (l.diff ids) (addBlocks ids s).1.scan := by
  induction ids generalizing s l with
  | nil => cases hfound
  | cons id ids ih =>
    rw [nodup_cons] at hids
    have hmm' : (scanAddBlock s id).1.mm = { mm with nodeList := l.erase id } := by
      rw [scanAddBlock_mm, hmm]
    have hl' : (l.erase id).Sublist mm.nodeList := erase_sublist.trans hl
    rw [diff_cons]
    show Hit _ _ _ _ (addBlocks ids (scanAddBlock s id).1).1.scan
    by_cases hrest : true ∈ (addBlocks ids (scanAddBlock s id).1).2
    · refine ih hl' hmm' (by rw [scanAddBlock_request]; exact hvalid) hids.2 (fun a ha => ?_) hrest
      exact (mem_erase_of_ne (fun e : a = id => hids.1 (e ▸ ha))).2
        (hmem a (mem_cons_of_mem id ha))
    · have hfirst : (scanAddBlock s id).2 = true := by
        rcases mem_cons.1 hfound with hfirst | hfirst
        · exact hfirst.symm
        · exact absurd hfirst hrest
      rw [addBlocks_of_false hrest]
      exact (scanAddBlock_hit hpos h hl hmm hvalid (hmem id mem_cons_self) hfirst).subset
        (diff_subset _ _)

end Hit

/-! ## The evictions -/

@[simp] lemma removeNode_nodeList (mm : Mm) (id : NodeId) :
    (removeNode mm id).nodeList = mm.nodeList.erase id := by
  simp only [removeNode]
  split_ifs <;> rfl

lemma removeNode_place (mm : Mm) (id : NodeId) (q : Ref) :
    ((removeNode mm id).node q).start = (mm.node q).start ∧
      ((removeNode mm id).node q).size = (mm.node q).size := by
  rw [removeNode_eq, addHole_fields.1, addHole_fields.2.1]
  split_ifs <;> simp [unlinked_start, unlinked_size]

lemma removeNodes_spec (h : Inv lo hi mm) {order : List NodeId} (hn : order.Nodup)
    (hmem : ∀ id ∈ order, id ∈ mm.nodeList) :
    Inv lo hi (order.foldl removeNode mm) ∧
      (order.foldl removeNode mm).nodeList = mm.nodeList.diff order ∧
      ∀ q, ((order.foldl removeNode mm).node q).start = (mm.node q).start ∧
        ((order.foldl removeNode mm).node q).size = (mm.node q).size := by
  induction order generalizing mm with
  | nil => exact ⟨h, rfl, fun q => ⟨rfl, rfl⟩⟩
  | cons id order ih =>
    rw [nodup_cons] at hn
    obtain ⟨hinv, hlist, hplace⟩ := ih (h.removeNode (hmem id mem_cons_self)) hn.2
      (fun a ha => by
        rw [removeNode_nodeList]
        exact (mem_erase_of_ne (fun e : a = id => hn.1 (e ▸ ha))).2
          (hmem a (mem_cons_of_mem id ha)))
    refine ⟨hinv, ?_, fun q => ?_⟩
    · rw [foldl_cons, hlist, removeNode_nodeList, diff_cons]
    · rw [foldl_cons, (hplace q).1, (hplace q).2]
      exact removeNode_place mm id q

lemma Inv.insertNodeInRange_ok (h : Inv lo hi mm) (id : NodeId)
    {len alignment color rangeStart rangeEnd : U64} {mode : InsertMode} (hlen : len ≠ 0)
    (hr : r ∈ mm.refs) {s : U64}
    (hfits : Fits len alignment rangeStart rangeEnd (holeNodeStart mm r) (holeNodeEnd mm r) s) :
    (insertNodeInRange mm id len alignment color rangeStart rangeEnd mode).1 = .ok := by
  have hlen' : ¬ (len = 0 ∨ rangeEnd - rangeStart < len) := by
    obtain ⟨-, -, hlo, hhi, -⟩ := hfits
    bv_omega
  rw [insertNodeInRange_eq _ _ _ _ _ _ hlen']
  cases hs : search mm len (if alignment ≤ 1 then 0 else alignment) color rangeStart rangeEnd
      mode with
  | none =>
    exact absurd (fits_alignment.2 hfits)
      (h.search_none hlen (alignment_cases alignment) hs hr s)
  | some p => rfl

/-- **The eviction scan.** After any nodes are added to a scan and removed from it in the reverse
order, the allocator is as it was, with any callback. Without a callback, if one of the nodes made
room, then after the nodes that the scan reports are removed, in any order, the hit is free, aligned
and in the range, and an insertion with the parameters of the scan succeeds. -/
theorem scan_finds_room {f : Option ColorAdjust} (hf : ∀ g ∈ f, Restricts g) {start size : U64}
    (hpos : start < start + size) {mm : Mm} (hr : ReachableWith f start size mm)
    (len alignment color rangeStart rangeEnd : U64) (hlen : len ≠ 0) (mode : InsertMode)
    (ids : List NodeId) (hids : ids.Nodup)
    (halloc : ∀ id ∈ ids, (mm.node (some id)).allocated = true) :
    let added := addBlocks ids
      { mm := mm, scan := scanInitWithRange len alignment color rangeStart rangeEnd mode }
    let removed := removeBlocks ids.reverse added.1
    removed.1.mm = mm ∧ removed.1.scan = added.1.scan ∧
      (f = none → true ∈ added.2 → ∀ order : List NodeId, order.Perm removed.2 →
        let mm' := order.foldl removeNode mm
        removed.1.scan.hitEnd.toNat = removed.1.scan.hitStart.toNat + len.toNat ∧
          IsRoom start size mm' len alignment rangeStart rangeEnd removed.1.scan.hitStart.toNat ∧
          ∀ id, (insertNodeInRange mm' id len alignment color rangeStart rangeEnd mode).1 =
            .ok) := by
  intro added removed
  have hsound := sound_of_reachable hf hpos hr
  have hmem : ∀ id ∈ ids, id ∈ mm.nodeList := fun id hid => (hsound.inv.alloc id).1 (halloc id hid)
  have hrestored : removed.1 = _ := removeBlocks_addBlocks
    (s := { mm := mm, scan := scanInitWithRange len alignment color rangeStart rangeEnd mode })
    hsound.inv.nodup hids hmem fun _ _ => rfl
  refine ⟨by rw [hrestored], by rw [hrestored], fun hnone hfound order horder => ?_⟩
  subst hnone
  have h := inv_of_reachable hpos hr
  have hvalid : (scanInitWithRange len alignment color rangeStart rangeEnd
      mode).toScanRequest.Valid := ⟨hlen, alignment_cases alignment, rfl⟩
  have hhit : Hit start (start + size) mm (mm.nodeList.diff ids) added.1.scan :=
    addBlocks_hit hpos h (List.Sublist.refl mm.nodeList) rfl hvalid hids hmem hfound
  have hrequest : added.1.scan.toScanRequest =
      (scanInitWithRange len alignment color rangeStart rangeEnd mode).toScanRequest :=
    addBlocks_request _ _
  have hsize : added.1.scan.size = len := congrArg ScanRequest.size hrequest
  rw [hrestored]
  -- what is evicted are the nodes that overlap the hit
  have hremoved : removed.2 = ids.reverse.filter fun id => decide
      (added.1.scan.hitStart < holeNodeStart added.1.mm (some id) ∧
        (added.1.mm.node (some id)).start < added.1.scan.hitEnd) :=
    removeBlocks_evicted ids.reverse added.1
  have hnode : added.1.mm.node = mm.node := addBlocks_node ids _
  have hevicted : ∀ c, c ∈ order ↔ c ∈ ids ∧ added.1.scan.hitStart < holeNodeStart mm (some c) ∧
      (mm.node (some c)).start < added.1.scan.hitEnd := by
    intro c
    rw [horder.mem_iff, hremoved, mem_filter, mem_reverse, decide_eq_true_eq,
      holeNodeStart, holeNodeStart, hnode]
  have hn : order.Nodup := by
    rw [horder.nodup_iff, hremoved]
    exact (nodup_reverse.2 hids).filter _
  obtain ⟨hinv, hlist, hplace⟩ := removeNodes_spec h hn fun id hid =>
    hmem id ((hevicted id).1 hid).1
  have hclear : Clear (order.foldl removeNode mm) (order.foldl removeNode mm).nodeList
      added.1.scan.hitStart added.1.scan.hitEnd := by
    intro c hc
    rw [hlist, h.nodup.mem_sdiff_iff] at hc
    rw [holeNodeStart, (hplace _).1, (hplace _).2]
    by_cases hcids : c ∈ ids
    · by_contra hoverlap
      rw [not_or, BitVec.not_le, BitVec.not_le] at hoverlap
      exact hc.2 ((hevicted c).2 ⟨hcids, hoverlap⟩)
    · exact hhit.clear c (h.nodup.mem_sdiff_iff.2 ⟨hc.1, hcids⟩)
  have hfits : Fits len (if alignment ≤ 1 then 0 else alignment) rangeStart rangeEnd start
      (start + size) added.1.scan.hitStart := by
    have hfits := hhit.fits
    rwa [hrequest] at hfits
  have hend : added.1.scan.hitEnd.toNat = added.1.scan.hitStart.toNat + len.toNat := by
    have hle := hfits.2.1
    rw [hhit.hitEnd, hsize]
    exact Nat.mod_eq_of_lt (by omega)
  obtain ⟨r, hr', hlo, hhi⟩ := hinv.exists_gap (b := added.1.scan.hitEnd) hfits.1
    (show _ ≤ _ by rw [BitVec.le_def, hend]; exact hfits.2.1) hclear
  have hgap : Fits len alignment rangeStart rangeEnd (holeNodeStart (order.foldl removeNode mm) r)
      (holeNodeEnd (order.foldl removeNode mm) r) added.1.scan.hitStart := by
    refine fits_alignment.1 ⟨hlo, ?_, hfits.2.2⟩
    rw [← hend]
    exact hhi
  exact ⟨hend, (isRoom_iff hpos hinv).2 ⟨r, hr', hgap⟩, fun id =>
    hinv.insertNodeInRange_ok id hlen hr' hgap⟩

/-- A page with four nodes and no room for `0x600` bytes. -/
def fullPage : Mm :=
  [Op.reserve 0 0x1000 0x400 0, .reserve 1 0x1400 0x400 0, .reserve 2 0x1800 0x400 0,
    .reserve 3 0x1c00 0x400 0].foldl (fun mm op => (op.run mm).2) (init freshMem 0x1000 0x1000)

/-- Three nodes are added to the scan, and the two that are reported make the room. -/
theorem scan_finds_room_fullPage :
    (insertNodeInRange fullPage 4 0x600 0x400 0 0x1000 0x2000 .low).1 = .enospc ∧
    (insertNodeInRange ([1, 2].foldl removeNode fullPage) 4 0x600 0x400 0 0x1000 0x2000 .low).1 =
      .ok := by
  have hreach : ReachableWith none 0x1000 0x1000 fullPage := by
    refine ⟨freshMem, fun _ => rfl, ?_⟩
    refine .tail (.tail (.tail (.single ⟨.reserve 0 0x1000 0x400 0, rfl, rfl⟩)
      ⟨.reserve 1 0x1400 0x400 0, ?_, rfl⟩) ⟨.reserve 2 0x1800 0x400 0, ?_, rfl⟩)
      ⟨.reserve 3 0x1c00 0x400 0, ?_, rfl⟩ <;> (unfold Op.Valid; decide +kernel)
  have hscan := scan_finds_room (by simp) (by decide) hreach 0x600 0x400 0 0x1000 0x2000
    (by decide) .low [3, 1, 2] (by decide) (by decide +kernel)
  refine ⟨by decide +kernel, (hscan.2.2 rfl (by decide +kernel) [1, 2] (by decide +kernel)).2.2 4⟩

end KmsDrm.DrmMm
