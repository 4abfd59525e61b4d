import KmsDrm.DrmMm.Search

/-!
# Runs of `drm_mm`

Every call keeps the invariant, so it holds in every state an allocator can reach; and in such a
state an insertion finds room exactly when there is some.

## Main results

* `DrmMm.reachable_consistent` — the structures agree in every reachable state.
* `DrmMm.insertNodeInRange_ok_iff` — when an insertion succeeds.
-/

namespace KmsDrm.DrmMm

open KmsDrm.Lib List CircList

variable {mm : Mm} {alignment hi lo rangeEnd rangeStart s size start : U64} {q r : Ref}
  {f : Node → Node}

/-! ## One call -/

section Step

variable {id : NodeId}

lemma modify_free_node (hid : id ∉ mm.nodeList) (f : Node → Node) (hq : q ∈ mm.refs) :
    (mm.modify (some id) f).node q = mm.node q :=
  modify_node_of_ne fun e => hid (by simpa [e, Mm.refs] using hq)

lemma modify_free_gap (hid : id ∉ mm.nodeList) (f : Node → Node) (hq : q ∈ mm.refs) :
    holeNodeStart (mm.modify (some id) f) q = holeNodeStart mm q ∧
      holeNodeEnd (mm.modify (some id) f) q = holeNodeEnd mm q := by
  rw [holeNodeStart, holeNodeEnd, (modify_frame ..).1,
    modify_free_node hid f hq, modify_free_node hid f (next_mem_ptrs _ q)]
  exact ⟨rfl, rfl⟩

section

variable (h : Inv lo hi mm) (hid : id ∉ mm.nodeList) (hf : ∀ n, (f n).allocated = n.allocated)

include h hid hf

lemma Inv.modify_free : Inv lo hi (mm.modify (some id) f) := by
  have hnode : ∀ q ∈ mm.refs, (mm.modify (some id) f).node q = mm.node q := fun q hq =>
    modify_free_node hid f hq
  have hstart : ∀ q ∈ mm.refs, holeNodeStart (mm.modify (some id) f) q = holeNodeStart mm q :=
    fun q hq => (modify_free_gap hid f hq).1
  have hnone : (none : Ref) ∈ mm.refs := none_mem_ptrs _
  refine ⟨⟨h.noColor, h.nodup, fun i => ?_, ?_, ?_, fun i hi => ?_, fun r hr => ?_⟩,
    fun r hr => ?_, ?_⟩
  · rw [(modify_frame ..).1, ← h.alloc]
    by_cases hi : i = id
    · rw [hi, modify_node_self, hf]
    · rw [modify_node_of_ne (by simpa using hi)]
  · rw [hnode none hnone, h.headStart]
  · rw [hstart none hnone, h.headHole]
  · have hmem : some i ∈ mm.refs := some_mem_ptrs.2 hi
    rw [hnode _ hmem, hstart _ hmem]
    exact h.nodePos i hi
  · rw [hstart r hr, (modify_free_gap hid f hr).2]
    exact h.gapLe r hr
  · rw [hnode r hr, hstart r hr, (modify_free_gap hid f hr).2]
    exact h.gapEq r hr
  · refine h.indexed.congr rfl rfl rfl rfl rfl (fun q => ?_) fun q hq _ => ?_
    · exact and_congr_right fun hq => by rw [hnode q hq]
    · exact ⟨by rw [hnode q hq], hstart q hq⟩

lemma Inv.place {hole : Ref} (hhole : hole ∈ mm.refs)
    (hfstart : (f (mm.node (some id))).start = start)
    (hfsize : (f (mm.node (some id))).size = size) (hsize : size ≠ 0)
    (hlo : (holeNodeStart mm hole).toNat ≤ start.toNat)
    (hhi : start.toNat + size.toNat ≤ (holeNodeEnd mm hole).toNat) :
    Inv lo hi (DrmMm.linkNode (mm.modify (some id) f) hole id (holeNodeStart mm hole)
      (holeNodeStart mm hole + (mm.node hole).holeSize)) := by
  obtain ⟨hstart, hend⟩ := modify_free_gap hid f hhole
  have hnode : (mm.modify (some id) f).node (some id) = f (mm.node (some id)) := modify_node_self ..
  rw [h.holeEnd_eq hhole, ← hstart, ← hend]
  refine (h.modify_free hid hf).linkNode hhole hid ?_ ?_ ?_
  · rw [hnode]
    bv_omega
  · rw [holeNodeStart, hnode]
    bv_omega
  · rw [holeNodeStart, hnode]
    bv_omega

end

lemma Sound.reserveNode (h : Sound lo hi mm) (hid : id ∉ mm.nodeList) :
    Inv lo hi (uncolored (reserveNode mm id).2) := by
  unfold DrmMm.reserveNode
  by_cases hwrap : (mm.node (some id)).start + (mm.node (some id)).size ≤
      (mm.node (some id)).start
  · rw [if_pos hwrap]
    exact h.inv
  rw [if_neg hwrap]
  rcases h.inv.findHole_spec (mm.node (some id)).start with hnil | ⟨xs, hole, ys, hio, hhole, -, -⟩
  · rw [show findHole mm (mm.node (some id)).start = none from hnil.2]
    exact h.inv
  have href : hole ∈ (uncolored mm).refs := ((h.inv.indexed.addr.2 hole).1 (by simp [hio])).1
  rw [show findHole mm (mm.node (some id)).start = some hole from hhole]
  obtain ⟨hlo, hhi⟩ := h.adjustColor_le hole (mm.node (some id)).color
    (holeNodeStart mm hole, holeNodeStart mm hole + (mm.node hole).holeSize)
  have hend : holeNodeStart mm hole + (mm.node hole).holeSize = holeNodeEnd mm hole :=
    h.inv.holeEnd_eq href
  simp only [hend] at hlo hhi ⊢
  split
  · exact h.inv
  next hfit =>
    rw [uncolored_linkNode]
    refine h.inv.linkNode href hid ?_ ?_ ?_
    · show holeNodeStart mm hole ≤ (mm.node (some id)).start
      bv_omega
    · show (mm.node (some id)).start < (mm.node (some id)).start + (mm.node (some id)).size
      bv_omega
    · show (mm.node (some id)).start + (mm.node (some id)).size ≤ holeNodeEnd mm hole
      bv_omega

lemma alignment_cases (alignment : U64) :
    (if alignment ≤ 1 then 0 else alignment) = 0 ∨
      1 < (if alignment ≤ 1 then 0 else alignment).toNat := by
  by_cases h : alignment ≤ 1
  · exact .inl (if_pos h)
  · rw [if_neg h]
    bv_omega

lemma fits_alignment :
    Fits size (if alignment ≤ 1 then 0 else alignment) rangeStart rangeEnd lo hi s ↔
      Fits size alignment rangeStart rangeEnd lo hi s := by
  have h : 1 < (if alignment ≤ 1 then 0 else alignment).toNat ↔ 1 < alignment.toNat := by
    split <;> bv_omega
  have heq : 1 < alignment.toNat → (if alignment ≤ 1 then 0 else alignment) = alignment :=
    fun hlt => if_neg (by bv_omega)
  rw [Fits, h]
  refine and_congr_right fun _ => and_congr_right fun _ => and_congr_right fun _ =>
    and_congr_right fun _ => forall_congr' fun hlt => by rw [heq hlt]

lemma insertNodeInRange_eq (size alignment color rangeStart rangeEnd : U64)
    (mode : InsertMode) (hsize : ¬ (size = 0 ∨ rangeEnd - rangeStart < size)) :
    insertNodeInRange mm id size alignment color rangeStart rangeEnd mode =
      match search mm size (if alignment ≤ 1 then 0 else alignment) color rangeStart rangeEnd
        mode with
      | none => (.enospc, mm)
      | some (hole, start) =>
        (.ok, DrmMm.linkNode (mm.modify (some id) fun n =>
          { n with size := size, start := start, color := color, holeSize := 0 }) hole id
          (holeNodeStart mm hole) (holeNodeStart mm hole + (mm.node hole).holeSize)) := by
  rw [insertNodeInRange, if_neg hsize]
  rfl

lemma Sound.insertNodeInRange (h : Sound lo hi mm) (hid : id ∉ mm.nodeList)
    (size alignment color rangeStart rangeEnd : U64) (mode : InsertMode) :
    Inv lo hi
      (uncolored (insertNodeInRange mm id size alignment color rangeStart rangeEnd mode).2) := by
  by_cases hsize : size = 0 ∨ rangeEnd - rangeStart < size
  · rw [DrmMm.insertNodeInRange, if_pos hsize]
    exact h.inv
  rw [insertNodeInRange_eq _ _ _ _ _ _ hsize]
  cases hs : search mm size (if alignment ≤ 1 then 0 else alignment) color rangeStart rangeEnd
      mode with
  | none => exact h.inv
  | some p =>
    have hsize0 : size ≠ 0 := fun e => hsize (.inl e)
    obtain ⟨href, hlo, hhi, -⟩ := h.search_some hsize0 (alignment_cases alignment) hs
    simp only [uncolored_linkNode]
    exact h.inv.place (f := fun n => { n with size, start := p.2, color, holeSize := 0 }) hid
      (fun _ => rfl) href rfl rfl hsize0 hlo hhi

lemma run_colorAdjust (mm : Mm) (op : Op) : (op.run mm).2.colorAdjust = mm.colorAdjust := by
  have hlink : ∀ (mm : Mm) hole id holeStart holeEnd,
      (linkNode mm hole id holeStart holeEnd).colorAdjust = mm.colorAdjust := by
    intro mm hole id holeStart holeEnd
    simp only [linkNode]
    split_ifs <;> rfl
  cases op with
  | reserve id start size color =>
    simp only [Op.run, DrmMm.reserveNode]
    split_ifs
    · rfl
    · split
      · rfl
      · split_ifs
        · rfl
        · rw [hlink]
          rfl
  | insert id size alignment color rangeStart rangeEnd mode =>
    simp only [Op.run]
    by_cases hsize : size = 0 ∨ rangeEnd - rangeStart < size
    · rw [DrmMm.insertNodeInRange, if_pos hsize]
    · rw [insertNodeInRange_eq _ _ _ _ _ _ hsize]
      split
      · rfl
      · simp only [hlink]
        rfl
  | remove id =>
    simp only [Op.run, DrmMm.removeNode]
    split_ifs <;> rfl
  | replace old new =>
    simp only [Op.run, DrmMm.replaceNode]
    simp

lemma Sound.run (h : Sound lo hi mm) {op : Op} (hop : op.Valid mm) :
    Sound lo hi (op.run mm).2 := by
  refine ⟨?_, by rw [run_colorAdjust]; exact h.restricts⟩
  have hfree : ∀ {i}, (mm.node (some i)).allocated = false → i ∉ mm.nodeList := by
    intro i hi hmem
    have halloc : (mm.node (some i)).allocated = true := (h.inv.alloc i).2 hmem
    rw [halloc] at hi
    cases hi
  cases op with
  | reserve id start size color =>
    have hid := hfree hop
    have h' := h.inv.modify_free (f := fun n => { n with start, size, color }) hid fun _ => rfl
    exact Sound.reserveNode ⟨h', h.restricts⟩ hid
  | insert id size alignment color rangeStart rangeEnd mode =>
    exact h.insertNodeInRange (hfree hop.1) size alignment color rangeStart rangeEnd mode
  | remove id =>
    show Inv lo hi (uncolored (removeNode mm id))
    rw [uncolored_removeNode]
    exact h.inv.removeNode ((h.inv.alloc id).1 hop)
  | replace old new =>
    show Inv lo hi (uncolored (replaceNode mm old new))
    rw [uncolored_replaceNode]
    exact Inv.replaceNode ((h.inv.alloc old).1 hop.1) (hfree hop.2) h.inv

/-- The states that an allocator of `[start, start + size)` with the callback `f` can be in. -/
def ReachableWith (f : Option ColorAdjust) (start size : U64) (mm : Mm) : Prop :=
  ∃ mem : NodeId → Node, (∀ id, (mem id).allocated = false) ∧
    Relation.ReflTransGen Step { init mem start size with colorAdjust := f } mm

lemma sound_of_reachable {f : Option ColorAdjust} (hf : ∀ g ∈ f, Restricts g)
    (hpos : start < start + size) (hr : ReachableWith f start size mm) :
    Sound start (start + size) mm := by
  obtain ⟨mem, hmem, hrun⟩ := hr
  induction hrun with
  | refl => exact ⟨inv_init hpos hmem, hf⟩
  | tail _ hstep ih =>
    obtain ⟨op, hop, rfl⟩ := hstep
    exact ih.run hop

lemma colorAdjust_of_reachable {f : Option ColorAdjust} (hr : ReachableWith f start size mm) :
    mm.colorAdjust = f := by
  obtain ⟨mem, -, hrun⟩ := hr
  induction hrun with
  | refl => rfl
  | tail _ hstep ih =>
    obtain ⟨op, -, rfl⟩ := hstep
    rw [run_colorAdjust, ih]

lemma inv_of_reachable (hpos : start < start + size) (hr : Reachable start size mm) :
    Inv start (start + size) mm := by
  have h := (sound_of_reachable (by simp) hpos hr).inv
  rwa [uncolored_eq (colorAdjust_of_reachable hr)] at h

end Step

/-! ## Gaps in terms of addresses -/

/-- Where the gap behind a node begins: at the end of the node, or at the start of the range. -/
def gapStart (start : U64) (mm : Mm) : Ref → ℕ
  | none => start.toNat
  | some id => (mm.node (some id)).start.toNat + (mm.node (some id)).size.toNat

/-- Where the gap behind a node ends: at the next node of the list, or at the end of the range. -/
def gapEnd (start size : U64) (mm : Mm) (r : Ref) : ℕ :=
  match CircList.next mm.nodeList r with
  | none => start.toNat + size.toNat
  | some id => (mm.node (some id)).start.toNat

section Gaps

variable (hpos : start < start + size) (h : Inv start (start + size) mm)
include hpos h

omit hpos in
lemma gapStart_eq (hr : r ∈ mm.refs) : gapStart start mm r = (holeNodeStart mm r).toNat := by
  cases r with
  | none => rw [h.headHole, gapStart]
  | some id =>
    have hlt := h.nodePos id (some_mem_ptrs.1 hr)
    rw [holeNodeStart] at hlt ⊢
    rw [gapStart]
    bv_omega

lemma gapEnd_eq (r : Ref) : gapEnd start size mm r = (holeNodeEnd mm r).toNat := by
  rw [gapEnd, holeNodeEnd]
  split
  next hnone =>
    rw [hnone, h.headStart]
    bv_omega
  next id hid => rw [hid]

lemma gapEnd_le (hr : r ∈ mm.refs) : gapEnd start size mm r ≤ start.toNat + size.toNat := by
  rcases eq_nil_or_concat mm.nodeList with hnil | ⟨xs, x, hxs⟩
  · simp [gapEnd, hnil, show r = none by simpa [Mm.refs, hnil, ptrs] using hr,
      CircList.next]
  · have hlast : gapEnd start size mm (some x) = start.toNat + size.toNat := by
      have hsplit : mm.nodeList = xs ++ x :: [] := by simpa using hxs
      have hnext : CircList.next mm.nodeList (some x) = none := nextAfter_eq h.nodup hsplit
      rw [gapEnd, hnext]
    have hrefs : mm.refs = ptrs xs ++ [some x] := by
      simp [Mm.refs, ptrs, hxs]
    have hx : some x ∈ mm.refs := by simp [hrefs]
    have hpair := h.pairwise_refs
    rw [hrefs, pairwise_append] at hpair
    rw [hrefs, mem_append, mem_singleton] at hr
    rcases hr with hr | rfl
    · have hrx := hpair.2.2 r hr (some x) (by simp)
      have hgap := h.gapLe (some x) hx
      rw [← hlast, gapEnd_eq hpos h, gapEnd_eq hpos h]
      bv_omega
    · exact hlast.le

end Gaps

/-- A consistent allocator of the range `[start, start + size)`. -/
structure Consistent (start size : U64) (mm : Mm) : Prop where
  /-- The allocated nodes are those of the list, once each. -/
  listed : mm.nodeList.Nodup ∧ ∀ id, (mm.node (some id)).allocated = true ↔ id ∈ mm.nodeList
  ordered : mm.nodeList.Pairwise fun a b => (mm.node (some a)).start < (mm.node (some b)).start
  positive : ∀ id ∈ mm.nodeList, 0 < (mm.node (some id)).size
  disjoint : mm.nodeList.Pairwise fun a b =>
    (mm.node (some a)).start.toNat + (mm.node (some a)).size.toNat ≤ (mm.node (some b)).start.toNat
  inside : ∀ id ∈ mm.nodeList, start.toNat ≤ (mm.node (some id)).start.toNat ∧
    (mm.node (some id)).start.toNat + (mm.node (some id)).size.toNat ≤ start.toNat + size.toNat
  /-- Every node, and the head node, knows the gap behind it. -/
  gap : ∀ r ∈ mm.refs, gapStart start mm r + (mm.node r).holeSize.toNat = gapEnd start size mm r
  /-- The stack and the trees hold exactly the nodes followed by a hole, once each. -/
  stack : IsIndex mm mm.holeStack
  size : IsIndex mm mm.holesSize.inorder
  addr : IsIndex mm mm.holesAddr.inorder
  sizeOrdered : mm.holesSize.inorder.Pairwise fun a b => (mm.node a).holeSize ≤ (mm.node b).holeSize
  addrOrdered : mm.holesAddr.inorder.Pairwise fun a b => gapStart start mm a ≤ gapStart start mm b

lemma Placed.pairwise_nodeList (h : Placed lo hi mm) :
    (∀ b ∈ mm.nodeList, holeNodeEnd mm none ≤ (mm.node (some b)).start) ∧
      mm.nodeList.Pairwise fun a b => holeNodeStart mm (some a) ≤ (mm.node (some b)).start := by
  have hpair := h.pairwise_refs
  rw [Mm.refs, ptrs, pairwise_cons, pairwise_map] at hpair
  refine ⟨fun b hb => (hpair.1 (some b) (mem_map_of_mem hb)).1, ?_⟩
  refine hpair.2.imp_of_mem fun {a b} ha _ hab => ?_
  exact BitVec.le_trans (h.gapLe (some a) (some_mem_ptrs.2 ha)) hab.1

lemma Inv.consistent (hpos : start < start + size) (h : Inv start (start + size) mm) :
    Consistent start size mm := by
  have hend : ∀ id ∈ mm.nodeList, (holeNodeStart mm (some id)).toNat =
      (mm.node (some id)).start.toNat + (mm.node (some id)).size.toNat := fun id hid =>
    (gapStart_eq h (some_mem_ptrs.2 hid)).symm
  have hdisj : mm.nodeList.Pairwise fun a b =>
      (mm.node (some a)).start.toNat + (mm.node (some a)).size.toNat ≤
        (mm.node (some b)).start.toNat := by
    refine h.pairwise_nodeList.2.imp_of_mem fun {a b} ha _ hab => ?_
    rw [← hend a ha]
    exact hab
  refine ⟨⟨h.nodup, h.alloc⟩, ?_, fun id hid => ?_, hdisj, fun id hid => ⟨?_, ?_⟩, fun r hr => ?_,
    h.indexed.stack, h.indexed.size, h.indexed.addr, ?_, ?_⟩
  · refine hdisj.imp_of_mem fun {a b} ha _ hab => ?_
    have := h.nodePos a ha
    have := hend a ha
    bv_omega
  · have := h.nodePos id hid
    have := hend id hid
    bv_omega
  · have hfirst := h.pairwise_nodeList.1 id hid
    have hhead := h.gapLe none (none_mem_ptrs _)
    rw [h.headHole] at hhead
    bv_omega
  · have hmem : some id ∈ mm.refs := some_mem_ptrs.2 hid
    have hle := gapEnd_le hpos h hmem
    have hgap := h.gapLe (some id) hmem
    rw [gapEnd_eq hpos h] at hle
    rw [← hend id hid]
    bv_omega
  · have hgap := h.gapLe r hr
    rw [gapStart_eq h hr, gapEnd_eq hpos h, h.gapEq r hr]
    bv_omega
  · exact h.indexed.sizeSorted
  · refine h.indexed.addrSorted.imp_of_mem fun {a b} ha hb hab => ?_
    rw [gapStart_eq h ((h.indexed.addr.2 a).1 ha).1, gapStart_eq h ((h.indexed.addr.2 b).1 hb).1]
    exact hab

/-- Every state that an allocator reaches by any sequence of calls is consistent. -/
theorem reachable_consistent {start size : U64} {mm : Mm} (hpos : start < start + size)
    (hr : Reachable start size mm) : Consistent start size mm :=
  (inv_of_reachable hpos hr).consistent hpos

/-- The memory of nodes that no driver has touched yet. -/
def freshMem : NodeId → Node := fun _ =>
  { color := 0, start := 0, size := 0, holeSize := 0, allocated := false }

/-- An allocator of one page, with one node in its middle. -/
theorem reachable_consistent_reserve :
    (Op.run (init freshMem 0x1000 0x1000) (.reserve 0 0x1800 0x100 0)).2.nodeList = [0] ∧
      Consistent 0x1000 0x1000
        (Op.run (init freshMem 0x1000 0x1000) (.reserve 0 0x1800 0x100 0)).2 :=
  ⟨by decide, reachable_consistent (by decide)
    ⟨freshMem, fun _ => rfl, .single ⟨.reserve 0 0x1800 0x100 0, rfl, rfl⟩⟩⟩

/-! ## Insertions -/

/-- The interval of `len` bytes at `s` is free: it lies in the gap behind some node. It is where
the caller wants it when it lies in the range asked for and `s` is a multiple of the alignment,
`0` and `1` meaning that there is none. -/
def IsRoom (start size : U64) (mm : Mm) (len alignment rangeStart rangeEnd : U64) (s : ℕ) : Prop :=
  (∃ r ∈ mm.refs, gapStart start mm r ≤ s ∧ s + len.toNat ≤ gapEnd start size mm r) ∧
    rangeStart.toNat ≤ s ∧ s + len.toNat ≤ rangeEnd.toNat ∧
    (alignment ≠ 0 → alignment ≠ 1 → alignment.toNat ∣ s)

lemma isRoom_iff (hpos : start < start + size) (h : Inv start (start + size) mm) {len : U64} :
    IsRoom start size mm len alignment rangeStart rangeEnd s.toNat ↔
      ∃ r ∈ mm.refs, Fits len alignment rangeStart rangeEnd (holeNodeStart mm r)
        (holeNodeEnd mm r) s := by
  have hal : (alignment ≠ 0 → alignment ≠ 1 → alignment.toNat ∣ s.toNat) ↔
      (1 < alignment.toNat → alignment.toNat ∣ s.toNat) := by
    rw [← and_imp]
    exact imp_congr_left (by constructor <;> bv_omega)
  rw [IsRoom, hal]
  constructor
  · rintro ⟨⟨r, hr, hlo, hhi⟩, hrest⟩
    rw [gapStart_eq h hr] at hlo
    rw [gapEnd_eq hpos h] at hhi
    exact ⟨r, hr, hlo, hhi, hrest⟩
  · rintro ⟨r, hr, hlo, hhi, hrest⟩
    refine ⟨⟨r, hr, ?_, ?_⟩, hrest⟩
    · rwa [gapStart_eq h hr]
    · rwa [gapEnd_eq hpos h]

lemma SamePlaces.addHole_ite {mm' : Mm} (h : SamePlaces mm mm') (c : Prop) [Decidable c]
    (r : Ref) : SamePlaces mm (if c then addHole mm' r else mm') := by
  split
  · exact h.trans (samePlaces_addHole mm' r)
  · exact h

lemma samePlaces_linkNode (mm : Mm) (hole : Ref) (id : NodeId) (holeStart holeEnd : U64) :
    SamePlaces (linked mm hole id) (linkNode mm hole id holeStart holeEnd) :=
  ((samePlaces_rmHole _ hole).addHole_ite _ hole).addHole_ite _ (some id)

/-- An insertion succeeds exactly when there is room for it, in every mode; it then puts the node
where there was room, and otherwise changes nothing. -/
theorem insertNodeInRange_ok_iff {start size : U64} {mm : Mm} (hpos : start < start + size)
    (hr : Reachable start size mm) (id : NodeId) (len alignment color : U64)
    {rangeStart rangeEnd : U64} (hrange : rangeStart < rangeEnd) (mode : InsertMode) :
    let out := insertNodeInRange mm id len alignment color rangeStart rangeEnd mode
    (out.1 = .ok ↔ 0 < len ∧ ∃ s, IsRoom start size mm len alignment rangeStart rangeEnd s) ∧
      (out.1 = .ok → (out.2.node (some id)).size = len ∧
        IsRoom start size mm len alignment rangeStart rangeEnd
          (out.2.node (some id)).start.toNat) ∧
      (out.1 = .enospc → out.2 = mm) := by
  have h := inv_of_reachable hpos hr
  intro out
  by_cases hlen : len = 0 ∨ rangeEnd - rangeStart < len
  · have hout : out = (.enospc, mm) := if_pos hlen
    rw [hout]
    refine ⟨⟨by simp, ?_⟩, by simp, by simp⟩
    rintro ⟨hlen0, s, -, hlo, hhi, -⟩
    bv_omega
  have hlen0 : len ≠ 0 := fun e => hlen (.inl e)
  have hout : out = _ := insertNodeInRange_eq len alignment color rangeStart rangeEnd mode hlen
  cases hs : search mm len (if alignment ≤ 1 then 0 else alignment) color rangeStart rangeEnd
      mode with
  | none =>
    rw [hs] at hout
    rw [hout]
    refine ⟨⟨by simp, ?_⟩, by simp, by simp⟩
    rintro ⟨-, s, hs'⟩
    obtain ⟨s, rfl⟩ : ∃ v : U64, v.toNat = s :=
      ⟨BitVec.ofNat 64 s, by have := hs'.2.2.1; have := rangeEnd.isLt; simp; omega⟩
    obtain ⟨r, hr, hfit⟩ := (isRoom_iff hpos h).1 hs'
    exact absurd (fits_alignment.2 hfit)
      (h.search_none hlen0 (alignment_cases alignment) hs hr s)
  | some p =>
    obtain ⟨href, hfit⟩ := h.sound.search_some hlen0 (alignment_cases alignment) hs
    have hroom := (isRoom_iff hpos h).2 ⟨p.1, href, fits_alignment.1 hfit⟩
    rw [hs] at hout
    have hstart : (out.2.node (some id)).start = p.2 := by
      rw [hout, (samePlaces_linkNode ..).start, linked_start, modify_node_self]
    have hsize : (out.2.node (some id)).size = len := by
      rw [hout, (samePlaces_linkNode ..).size, linked_size, modify_node_self]
    have hok : out.1 = .ok := by rw [hout]
    refine ⟨⟨fun _ => ⟨by bv_omega, _, hroom⟩, fun _ => hok⟩, fun _ => ⟨hsize, ?_⟩, ?_⟩
    · rw [hstart]
      exact hroom
    · rw [hok]
      simp

/-- A page with a node in it, and so with two holes. -/
def twoHoles : Mm := (Op.run (init freshMem 0x1000 0x1000) (.reserve 1 0x1400 0x100 0)).2

lemma reachable_twoHoles : Reachable 0x1000 0x1000 twoHoles :=
  ⟨freshMem, fun _ => rfl, .single ⟨.reserve 1 0x1400 0x100 0, rfl, rfl⟩⟩

/-- There is room for `0x100` bytes on both sides of the node, found from the top of the range. -/
theorem insertNodeInRange_ok_iff_high :
    (insertNodeInRange twoHoles 0 0x100 0x100 0 0x1100 0x1800 .high).1 = .ok ∧
      ∃ s, IsRoom 0x1000 0x1000 twoHoles 0x100 0x100 0x1100 0x1800 s :=
  have hok : (insertNodeInRange twoHoles 0 0x100 0x100 0 0x1100 0x1800 .high).1 = .ok := by
    decide +kernel
  ⟨hok, ((insertNodeInRange_ok_iff (by decide) reachable_twoHoles 0 0x100 0x100 0 (by decide)
    .high).1.1 hok).2⟩

end KmsDrm.DrmMm
