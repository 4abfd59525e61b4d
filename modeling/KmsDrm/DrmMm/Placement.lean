import KmsDrm.DrmMm.Scan

/-!
# Where nodes are placed

A reservation succeeds exactly where there is room, and taking out a node that was just placed
leads back to the nodes and holes from before. An insertion takes the place that its mode asks
for.

## Main results

* `DrmMm.reserve_ok_iff_and_remove_undoes`, `DrmMm.insert_preferred` — the two parts.
-/

namespace KmsDrm.DrmMm

open KmsDrm.Lib List

variable {lo hi : U64} {mm mm' : Mm} {id : NodeId}

/-! ## Reservations -/

/-- `find_hole` looks at hole starts only, but no other hole can hold an interval at the address. -/
lemma Inv.findHole_unique (h : Inv lo hi mm) {s e : U64} (hse : s < e) {r : Ref}
    (hr : r ∈ mm.refs) (hlo : holeNodeStart mm r ≤ s) (hhi : e ≤ holeNodeEnd mm r) :
    findHole mm s = some r := by
  have hmem : r ∈ mm.holesAddr.inorder :=
    (h.indexed.addr.2 r).2 ⟨hr, by rw [h.gapEq r hr]; bv_omega⟩
  rcases h.findHole_spec s with ⟨hnil, -⟩ | ⟨xs, x, ys, hio, hx, hxs, hys⟩
  · simp [hnil] at hmem
  · rw [hio, mem_append, mem_cons] at hmem
    rcases hmem with hmem | rfl | hmem
    · have := hxs r hmem
      bv_omega
    · exact hx
    · have := hys r hmem
      bv_omega

lemma Inv.reserveNode_ok_iff (h : Inv lo hi mm) {s len : U64}
    (hs : (mm.node (some id)).start = s) (hlen : (mm.node (some id)).size = len) :
    (reserveNode mm id).1 = .ok ↔
      s < s + len ∧ ∃ r ∈ mm.refs, holeNodeStart mm r ≤ s ∧ s + len ≤ holeNodeEnd mm r := by
  simp only [reserveNode, hs, hlen]
  by_cases hwrap : s + len ≤ s
  · simp [hwrap]
  rw [if_neg hwrap]
  have hlt : s < s + len := BitVec.not_le.1 hwrap
  rcases h.findHole_spec s with ⟨-, hnone⟩ | ⟨xs, x, ys, hio, hx, -, -⟩
  · simp only [hnone, reduceCtorEq, false_iff]
    rintro ⟨-, r, hr, hlo, hhi⟩
    have := h.findHole_unique hlt hr hlo hhi
    rw [hnone] at this
    cases this
  · have hxr : x ∈ mm.refs := ((h.indexed.addr.2 x).1 (by simp [hio])).1
    simp only [hx, adjustColor, h.noColor, h.holeEnd_eq hxr]
    constructor
    · intro hok
      split_ifs at hok with hout
      exact ⟨hlt, x, hxr, by bv_omega, by bv_omega⟩
    · rintro ⟨-, r, hr, hlo, hhi⟩
      have hrx := h.findHole_unique hlt hr hlo hhi
      rw [hx] at hrx
      cases hrx
      rw [if_neg (by bv_omega)]

/-! ## Taking out what was placed -/

/-- The holes, as the pairs of their starts and sizes. -/
def holes (mm : Mm) : Set (U64 × U64) :=
  {p | ∃ r ∈ mm.holeStack, p = (holeNodeStart mm r, (mm.node r).holeSize)}

lemma Inv.holes_eq (h : Inv lo hi mm) (h' : Inv lo hi mm') (hl : mm'.nodeList = mm.nodeList)
    (hp : ∀ q ∈ mm.refs, (mm'.node q).start = (mm.node q).start ∧
      (mm'.node q).size = (mm.node q).size) : holes mm' = holes mm := by
  have hrefs : mm'.refs = mm.refs := by rw [Mm.refs, Mm.refs, hl]
  have hstart : ∀ q ∈ mm.refs, holeNodeStart mm' q = holeNodeStart mm q := fun q hq => by
    rw [holeNodeStart, (hp q hq).1, (hp q hq).2, holeNodeStart]
  have hsize : ∀ q ∈ mm.refs, (mm'.node q).holeSize = (mm.node q).holeSize := fun q hq => by
    rw [h.gapEq q hq, h'.gapEq q (hrefs ▸ hq), hstart q hq, holeNodeEnd, hl,
      (hp _ (CircList.next_mem_ptrs _ q)).1, holeNodeEnd]
  ext p
  refine exists_congr fun r => ?_
  rw [h.indexed.stack.2, h'.indexed.stack.2, hrefs, and_assoc, and_assoc]
  refine and_congr_right fun hr => ?_
  rw [hsize r hr, hstart r hr]

/-- The calls that place the node, if they succeed. -/
def Op.Places (id : NodeId) : Op → Prop
  | .reserve i _ _ _ => i = id
  | .insert i _ _ _ _ _ _ => i = id
  | _ => False

lemma Op.Places.samePlaces {op : Op} (hop : op.Places id) (hok : (op.run mm).1 = .ok) :
    ∃ hole f, SamePlaces (linked (mm.modify (some id) f) hole id) (op.run mm).2 := by
  cases op with
  | reserve i s len color =>
    cases hop
    simp only [Op.run, reserveNode] at hok ⊢
    split_ifs at hok ⊢
    split at hok
    · cases hok
    · split_ifs at hok ⊢
      exact ⟨_, _, samePlaces_linkNode ..⟩
  | insert i len alignment color rangeStart rangeEnd mode =>
    cases hop
    simp only [Op.run] at hok ⊢
    by_cases hlen : len = 0 ∨ rangeEnd - rangeStart < len
    · rw [insertNodeInRange, if_pos hlen] at hok
      cases hok
    · rw [insertNodeInRange_eq _ _ _ _ _ _ hlen] at hok ⊢
      split at hok
      · cases hok
      · exact ⟨_, _, samePlaces_linkNode ..⟩
  | remove i => cases hop
  | replace old new => cases hop

lemma Inv.run_places (h : Inv lo hi mm) (hid : id ∉ mm.nodeList) {op : Op}
    (hop : op.Places id) : Inv lo hi (op.run mm).2 := by
  rw [← uncolored_eq ((run_colorAdjust mm op).trans h.noColor)]
  cases op with
  | reserve i s len color =>
    cases hop
    have h' := h.modify_free (f := fun n => { n with start := s, size := len, color }) hid
      fun _ => rfl
    exact h'.sound.reserveNode hid
  | insert i len alignment color rangeStart rangeEnd mode =>
    cases hop
    exact h.sound.insertNodeInRange hid len alignment color rangeStart rangeEnd mode
  | remove i => cases hop
  | replace old new => cases hop

lemma Inv.remove_undoes (h : Inv lo hi mm) (hid : id ∉ mm.nodeList) {op : Op}
    (hop : op.Places id) (hok : (op.run mm).1 = .ok) :
    (DrmMm.removeNode (op.run mm).2 id).nodeList = mm.nodeList ∧
      holes (DrmMm.removeNode (op.run mm).2 id) = holes mm := by
  obtain ⟨hole, f, hsame⟩ := hop.samePlaces hok
  have hinv := h.run_places hid hop
  have hmem : id ∈ (op.run mm).2.nodeList := (hinv.alloc id).1 (by
    rw [hsame.allocated]
    simp [linked])
  have hlist : (DrmMm.removeNode (op.run mm).2 id).nodeList = mm.nodeList := by
    rw [removeNode_nodeList, hsame.nodeList]
    exact CircList.erase_insertAfter hid hole
  refine ⟨hlist, h.holes_eq (hinv.removeNode hmem) hlist fun q hq => ?_⟩
  have hne : q ≠ some id := fun e => hid (by simpa [e, Mm.refs] using hq)
  rw [(removeNode_place ..).1, (removeNode_place ..).2, hsame.start, hsame.size,
    linked_node_of_ne hne, modify_node_of_ne hne]
  exact ⟨rfl, rfl⟩

/-- **Reservations and removals.** In every reachable state without a callback, reserving
`[s, s + len)` succeeds exactly when the interval is not empty, does not wrap around and lies in one
gap; and after any call that places a node, removing the node at once restores the list of nodes
and the holes. -/
theorem reserve_ok_iff_and_remove_undoes {start size : U64} (hpos : start < start + size)
    (hr : Reachable start size mm) (hid : (mm.node (some id)).allocated = false) :
    (∀ s len color : U64, (Op.run mm (.reserve id s len color)).1 = .ok ↔ s < s + len ∧
      ∃ r ∈ mm.refs, gapStart start mm r ≤ s.toNat ∧
        s.toNat + len.toNat ≤ gapEnd start size mm r) ∧
    ∀ op : Op, op.Places id → (op.run mm).1 = .ok →
      (removeNode (op.run mm).2 id).nodeList = mm.nodeList ∧
        holes (removeNode (op.run mm).2 id) = holes mm := by
  have h := inv_of_reachable hpos hr
  have hfree : id ∉ mm.nodeList := fun hmem => by simp [(h.alloc id).2 hmem] at hid
  refine ⟨fun s len color => ?_, fun op hop hok => h.remove_undoes hfree hop hok⟩
  have h' := h.modify_free (f := fun n => { n with start := s, size := len, color }) hfree
    fun _ => rfl
  rw [Op.run, h'.reserveNode_ok_iff (by rw [modify_node_self]) (by rw [modify_node_self])]
  refine and_congr_right fun hlt => exists_congr fun r => and_congr_right fun hr => ?_
  rw [gapStart_eq h hr, gapEnd_eq hpos h, (modify_free_gap hfree _ hr).1,
    (modify_free_gap hfree _ hr).2]
  bv_omega

/-- A node right behind another one, in a page. -/
theorem reserve_ok_iff_and_remove_undoes_adjacent :
    let mm := (Op.run (init freshMem 0x1000 0x1000) (.reserve 0 0x1800 0x100 0)).2
    let mm' := removeNode (Op.run mm (.reserve 1 0x1900 0x100 0)).2 1
    mm'.nodeList = [0] ∧ holes mm' = holes mm := by
  intro mm mm'
  have hok : (Op.run mm (.reserve 1 0x1900 0x100 0)).1 = .ok := by decide +kernel
  have hid : (mm.node (some 1)).allocated = false := by decide +kernel
  exact (reserve_ok_iff_and_remove_undoes (by decide) ⟨freshMem, fun _ => rfl,
    .single ⟨.reserve 0 0x1800 0x100 0, rfl, rfl⟩⟩ hid).2 _ rfl hok

/-! ## The place of an insertion -/

section Optimal

variable {size alignment color rangeStart rangeEnd s t : U64} {mode : InsertMode} {hole : Ref}

lemma placeBetween_optimal (hal : alignment = 0 ∨ 1 < alignment.toNat)
    (hs : placeBetween size alignment (if isPowerOf2 alignment then alignment - 1 else 0)
      rangeStart rangeEnd mode (lo, hi) = some s)
    (ht : Fits size alignment rangeStart rangeEnd lo hi t) :
    if mode = .high then t ≤ s else s ≤ t := by
  obtain ⟨hlo, hhi, hdvd⟩ := fits_iff.1 ht
  simp only [placeBetween] at hs
  rw [Option.ite_none_left_eq_some] at hs
  obtain ⟨hroom, hs⟩ := hs
  generalize hadj : (if mode = .high then minU64 hi rangeEnd - size else maxU64 lo rangeStart) =
    adj at hs
  have hbound : if mode = .high then t ≤ adj else adj ≤ t := by
    subst hadj
    split_ifs <;> bv_omega
  have hrem := alignRem_toNat alignment adj
  generalize alignRem alignment (if isPowerOf2 alignment then alignment - 1 else 0) adj = rem
    at hrem hs
  by_cases h0 : alignment ≠ 0 ∧ rem ≠ 0
  · have hal := hal.resolve_left h0.1
    simp only [if_pos h0.1, if_pos h0.2, Option.ite_none_left_eq_some, Option.some.injEq] at hs
    obtain ⟨-, -, rfl⟩ := hs
    by_cases hm : mode = .high
    · simp only [hm, ne_eq, not_true_eq_false, if_true, if_false] at hbound ⊢
      have hle := le_sub_mod_of_dvd (hdvd hal) hbound
      bv_omega
    · simp only [hm, ne_eq] at hbound ⊢
      exact (align_up hal hrem h0.2 hbound (hdvd hal)).2
  · have : s = adj := by grind
    rwa [this]

section

variable (h : Inv lo hi mm) (hsize : size ≠ 0) (hal : alignment = 0 ∨ 1 < alignment.toNat)
  (hs : search mm size alignment color rangeStart rangeEnd mode = some (hole, s))

include h hsize hal hs

lemma Inv.search_place :
    ∃ xs ys, visitOrder mm mode = xs ++ hole :: ys ∧
      (∀ r ∈ xs, NoFit mm size alignment rangeStart rangeEnd r) ∧
      ∀ t, Fits size alignment rangeStart rangeEnd (holeNodeStart mm hole) (holeNodeEnd mm hole) t →
        if mode = .high then t ≤ s else s ≤ t := by
  obtain ⟨ws, l, hl, hfirst, hws⟩ := h.firstHole_spec size alignment rangeStart rangeEnd mode
  rw [search, hfirst] at hs
  obtain ⟨xs, ys, rfl, hskip, hret⟩ := searchHoles_spec h.indexed hl (h.indexed.length_lt hl)
  rw [hs] at hret
  obtain ⟨⟨ys, rfl⟩, hplace⟩ := hret
  have hin : ∀ r ∈ xs ++ hole :: ys, r ∈ mm.refs := fun r hr =>
    (((h.indexed.isIndex_visitOrder mode).2 r).1 (by rw [hl]; exact mem_append_right _ hr)).1
  refine ⟨ws ++ xs, ys, by simp [hl], fun r hr => ?_, fun t ht => ?_⟩
  · rcases mem_append.1 hr with hr | hr
    · exact hws r hr
    · exact h.noFit_of_skip hsize hal (hin r (by simp [hr])) (hskip r hr)
  · have hp := placeBetween_of_tryHole hplace
    rw [h.holeEnd_eq (hin hole (by simp)), adjustColor, h.noColor] at hp
    exact placeBetween_optimal hal hp ht

/-- The hole that a mode should prefer to the hole `r`, in which there is room at `t`: it takes the
smallest or the largest address, the smallest hole, or the hole that was created last. -/
def Preferred (mm : Mm) (hole : Ref) (s : U64) (r : Ref) (t : U64) : InsertMode → Prop
  | .low => s ≤ t
  | .high => t ≤ s
  | .best => (mm.node hole).holeSize ≤ (mm.node r).holeSize
  | .evict => mm.created r ≤ mm.created hole

lemma Inv.search_preferred {r : Ref} (hr : r ∈ mm.refs)
    (ht : Fits size alignment rangeStart rangeEnd (holeNodeStart mm r) (holeNodeEnd mm r) t) :
    Preferred mm hole s r t mode := by
  obtain ⟨hhole, hfits⟩ := h.sound.search_some hsize hal hs
  obtain ⟨xs, ys, horder, hxs, hplace⟩ := h.search_place hsize hal hs
  have hpos : (mm.node r).holeSize ≠ 0 := fun h0 => by
    have := h.holeEnd_eq hr
    obtain ⟨h1, h2, -⟩ := ht
    bv_omega
  have hmem := ((h.indexed.isIndex_visitOrder mode).2 r).2 ⟨hr, hpos⟩
  rw [horder, mem_append, mem_cons] at hmem
  rcases hmem with hmem | rfl | hmem
  · exact absurd ht (hxs r hmem t)
  · have := hplace t ht
    cases mode with
    | low => simpa [Preferred] using this
    | high => simpa [Preferred] using this
    | best => exact BitVec.le_refl _
    | evict => exact le_rfl
  · obtain ⟨h1, h2, -⟩ := hfits
    obtain ⟨h3, h4, -⟩ := ht
    cases mode with
    | low =>
      have hord := h.addr_disjoint
      rw [show mm.holesAddr.inorder = _ from horder, pairwise_append,
        pairwise_cons] at hord
      have := hord.2.1.1 r hmem
      change s ≤ t
      bv_omega
    | high =>
      have hord := h.addr_disjoint
      rw [← pairwise_reverse, show mm.holesAddr.inorder.reverse = _ from horder,
        pairwise_append, pairwise_cons] at hord
      have := hord.2.1.1 r hmem
      change t ≤ s
      bv_omega
    | best =>
      have hord := h.indexed.sizeSorted
      rw [show mm.holesSize.inorder = _ from horder, pairwise_append,
        pairwise_cons] at hord
      exact hord.2.1.1 r hmem
    | evict =>
      have hrecent := (pairwise_cons.1 h.indexed.recent).2
      rw [pairwise_map, show mm.holeStack = _ from horder, pairwise_append,
        pairwise_cons] at hrecent
      exact (hrecent.2.1.1 r hmem).le

end

/-- **Where a node goes.** In every reachable state without a callback a successful insertion uses
a hole with room, at the smallest address for `LOW` and the largest one for `HIGH`, a smallest such
hole for `BEST` and the most recent one for `EVICT`. -/
theorem insert_preferred {start len : U64} (hpos : start < start + len)
    (hr : Reachable start len mm)
    (hok : (insertNodeInRange mm id size alignment color rangeStart rangeEnd mode).1 = .ok) :
    ∃ hole ∈ mm.refs, ∃ s,
      ((insertNodeInRange mm id size alignment color rangeStart rangeEnd mode).2.node
        (some id)).start = s ∧
      Fits size alignment rangeStart rangeEnd (holeNodeStart mm hole) (holeNodeEnd mm hole) s ∧
      ∀ r ∈ mm.refs, ∀ t,
        Fits size alignment rangeStart rangeEnd (holeNodeStart mm r) (holeNodeEnd mm r) t →
        Preferred mm hole s r t mode := by
  have h := inv_of_reachable hpos hr
  by_cases hsize : size = 0 ∨ rangeEnd - rangeStart < size
  · rw [insertNodeInRange, if_pos hsize] at hok
    cases hok
  rw [insertNodeInRange_eq _ _ _ _ _ _ hsize] at hok ⊢
  have hsize0 : size ≠ 0 := fun e => hsize (.inl e)
  cases hs : search mm size (if alignment ≤ 1 then 0 else alignment) color rangeStart rangeEnd
      mode with
  | none =>
    rw [hs] at hok
    cases hok
  | some p =>
    obtain ⟨hhole, hfits⟩ := h.sound.search_some hsize0 (alignment_cases alignment) hs
    refine ⟨p.1, hhole, p.2, ?_, fits_alignment.1 hfits, fun r hr t ht => ?_⟩
    · rw [(samePlaces_linkNode ..).start, linked_start, modify_node_self]
    · exact h.search_preferred hsize0 (alignment_cases alignment) hs hr (fits_alignment.2 ht)

/-- The node goes to the top of the range, though there is room below and in the other hole. -/
theorem insert_preferred_high :
    let out := insertNodeInRange twoHoles 0 0x100 0x100 0 0x1100 0x1800 .high
    out.1 = .ok ∧ (out.2.node (some 0)).start = 0x1700 ∧
      ∀ r ∈ twoHoles.refs, ∀ t, Fits 0x100 0x100 0x1100 0x1800 (holeNodeStart twoHoles r)
        (holeNodeEnd twoHoles r) t → t ≤ 0x1700 := by
  intro out
  have hok : out.1 = .ok := by decide +kernel
  have hstart : (out.2.node (some 0)).start = 0x1700 := by decide +kernel
  obtain ⟨hole, -, s, hs, -, hall⟩ := insert_preferred (by decide) reachable_twoHoles hok
  obtain rfl := hs.symm.trans hstart
  exact ⟨hok, hstart, hall⟩

end Optimal

end KmsDrm.DrmMm
