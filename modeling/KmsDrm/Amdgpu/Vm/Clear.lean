import KmsDrm.Amdgpu.Vm.Mappings

/-!
# Clearing a range of an amdgpu VM

`amdgpu_vm_bo_clear_mappings` removes all mappings of a range and is meant to leave everything
outside of the range as it was. Seen through the translation of GPU pages it does so unless a
mapping reaches over one of the ends of the range: the piece behind the range gets an offset
that adds a number of pages to a number of bytes, and neither piece gets a `bo_va`.

## Main results

* `Amdgpu.clearMappings_spec` — what the function does to the tree, the mappings, the lists
  and `vm->freed`.
* `Amdgpu.cleared_iff` — when it does what it is for.
-/

namespace KmsDrm.Amdgpu

open KmsDrm.Lib List
open Function (update_of_ne update_self)

variable {a b m t x : MapId} {page saddr size : U64} {cur vm vm' : Vm} {done : List MapId}

/-! ## What the mappings mean -/

def Mapping.Covers (m : Mapping) (page : U64) : Prop := m.start ≤ page ∧ page ≤ m.last

instance (m : Mapping) (page : U64) : Decidable (m.Covers page) :=
  inferInstanceAs (Decidable (_ ∧ _))

/-- What a GPU page is backed by. -/
structure Backing where
  boVa : Option BoVaId
  /-- The byte of the buffer object at which the page starts. -/
  offset : U64
  flags : U64
  deriving DecidableEq, Repr

def Mapping.backing (m : Mapping) (page : U64) : Backing :=
  ⟨m.boVa, m.offset + (page - m.start) * gpuPageSize, m.flags⟩

/-- What a GPU page is backed by, `none` if it is not mapped. -/
def translate (vm : Vm) (page : U64) : Option Backing :=
  (vm.mappings.find? fun m => decide ((vm.mapping m).Covers page)).map fun m =>
    (vm.mapping m).backing page

def PagesDisjoint (vm : Vm) : Prop :=
  ∀ a ∈ vm.mappings, ∀ b ∈ vm.mappings, ∀ page,
    (vm.mapping a).Covers page → (vm.mapping b).Covers page → a = b

/-- The mapping is on one of the two lists of a `bo_va`. -/
def Vm.OnList (vm : Vm) (b : BoVaId) (m : MapId) : Prop := m ∈ vm.valids b ∨ m ∈ vm.invalids b

/-- A VM whose mappings stand in a valid interval tree and are disjoint. -/
structure WellFormed (vm : Vm) : Prop where
  tree : IntervalTree.Valid vm.itStart vm.itLast vm.va
  proper : ∀ m ∈ vm.mappings, (vm.mapping m).start ≤ (vm.mapping m).last
  disjoint : PagesDisjoint vm
  /-- The pointers in use are not handed out again. -/
  fresh : ∀ m ∈ vm.mappings, m < vm.next
  freshList : ∀ b m, vm.OnList b m → m < vm.next

lemma valid_congr (h : IntervalTree.Valid vm.itStart vm.itLast vm.va) (hva : vm'.va = vm.va)
    (hmap : ∀ m ∈ vm.mappings, vm'.mapping m = vm.mapping m) :
    IntervalTree.Valid vm'.itStart vm'.itLast vm'.va := by
  rw [hva]
  refine h.congr (fun m hm => ?_) (fun m hm => ?_)
  · rw [Vm.itStart, hmap m hm, Vm.itStart]
  · rw [Vm.itLast, hmap m hm, Vm.itLast]

lemma translate_eq_some_iff (h : PagesDisjoint vm) {b : Backing} :
    translate vm page = some b ↔
      ∃ m ∈ vm.mappings, (vm.mapping m).Covers page ∧ (vm.mapping m).backing page = b := by
  rw [translate, Option.map_eq_some_iff]
  constructor
  · rintro ⟨m, hm, hb⟩
    exact ⟨m, mem_of_find?_eq_some hm, by simpa using List.find?_some hm, hb⟩
  · rintro ⟨m, hm, hc, hb⟩
    cases hf : vm.mappings.find? fun m => decide ((vm.mapping m).Covers page) with
    | none => exact absurd hc (by simpa using List.find?_eq_none.1 hf m hm)
    | some m' =>
      have hc' : (vm.mapping m').Covers page := by simpa using List.find?_some hf
      obtain rfl := h m' (mem_of_find?_eq_some hf) m hm page hc' hc
      exact ⟨m', rfl, hb⟩

lemma translate_eq_none_iff :
    translate vm page = none ↔ ∀ m ∈ vm.mappings, ¬ (vm.mapping m).Covers page := by
  simp [translate]

lemma mem_insertAfter_some {l : List MapId} {old new : MapId} :
    x ∈ CircList.insertAfter l (some old) new ↔ x ∈ l ∨ (x = new ∧ old ∈ l) := by
  induction l with
  | nil => simp [CircList.insertAfter]
  | cons c l ih =>
    unfold CircList.insertAfter
    split_ifs with h
    · subst h; simp; tauto
    · simp; tauto

@[simp] lemma onList_modify (vm : Vm) (p : MapId) (f : Mapping → Mapping) (b : BoVaId)
    (x : MapId) : (vm.modify p f).OnList b x ↔ vm.OnList b x := Iff.rfl

@[simp] lemma onList_linkBehind (vm : Vm) (new old : MapId) (b : BoVaId) (x : MapId) :
    (vm.linkBehind new old).OnList b x ↔ vm.OnList b x ∨ (x = new ∧ vm.OnList b old) := by
  simp only [Vm.OnList, Vm.linkBehind, mem_insertAfter_some]
  tauto

lemma onList_unlink {b : BoVaId} (hx : x ≠ m) : (vm.unlink m).OnList b x ↔ vm.OnList b x := by
  simp [Vm.OnList, Vm.unlink, mem_erase_of_ne hx]

lemma onList_of_unlink {b : BoVaId} (h : (vm.unlink m).OnList b x) : vm.OnList b x :=
  h.imp mem_of_mem_erase mem_of_mem_erase

/-! ## Gathering the mappings of the range -/

section Clear

variable (lo hi : U64)

/-- The mapping meets the pages `lo` to `hi`, the query of the interval tree. -/
def Mapping.Meets (m : Mapping) : Prop := m.start ≤ hi ∧ lo ≤ m.last

instance (m : Mapping) : Decidable (m.Meets lo hi) := inferInstanceAs (Decidable (_ ∧ _))

/-- The piece of a mapping before the range, as the source fills it in. -/
def Mapping.head (m : Mapping) : Mapping := ⟨none, m.start, lo - 1, m.offset, m.flags⟩

/-- The piece of a mapping after the range, as the source fills it in. -/
def Mapping.tail (m : Mapping) : Mapping :=
  ⟨none, hi + 1, m.last, m.offset + (hi + 1 - m.start), m.flags⟩

/-- What is left of a removed mapping for `vm->freed`. -/
def Mapping.cut (m : Mapping) : Mapping :=
  { m with
    start := if m.start < lo then lo else m.start
    last := if hi < m.last then hi else m.last
    boVa := none }

/-- The mappings of the range, in the order of the tree. -/
def removed (vm : Vm) : List MapId :=
  vm.mappings.filter fun m => decide ((vm.mapping m).Meets lo hi)

lemma mem_removed : m ∈ removed lo hi vm ↔ m ∈ vm.mappings ∧ (vm.mapping m).Meets lo hi := by
  simp [removed]

lemma WellFormed.start_unique (h : WellFormed vm) (ha : a ∈ removed lo hi vm)
    (hb : b ∈ removed lo hi vm) (has : (vm.mapping a).start < lo)
    (hbs : (vm.mapping b).start < lo) : a = b := by
  rw [mem_removed] at ha hb
  exact h.disjoint a ha.1 b hb.1 lo ⟨BitVec.le_of_lt has, ha.2.2⟩ ⟨BitVec.le_of_lt hbs, hb.2.2⟩

lemma WellFormed.last_unique (h : WellFormed vm) (ha : a ∈ removed lo hi vm)
    (hb : b ∈ removed lo hi vm) (hal : hi < (vm.mapping a).last) (hbl : hi < (vm.mapping b).last) :
    a = b := by
  rw [mem_removed] at ha hb
  exact h.disjoint a ha.1 b hb.1 hi ⟨ha.2.1, BitVec.le_of_lt hal⟩ ⟨hb.2.1, BitVec.le_of_lt hbl⟩

/-- The piece `id` after the mappings `done` have been looked at: it is linked iff one of them
crosses the end of the range it is for; then it is filled in from that mapping and linked
wherever that mapping is. -/
structure Piece (crosses : Mapping → Prop) (piece : Mapping → Mapping) (id : MapId)
    (vm : Vm) (done : List MapId) (cur : Vm) (linked : Bool) : Prop where
  linked : linked = true ↔ ∃ t ∈ done, crosses (vm.mapping t)
  boVa : (cur.mapping id).boVa = none
  mapping : ∀ t ∈ done, crosses (vm.mapping t) → cur.mapping id = piece (vm.mapping t)
  onList : ∀ b, cur.OnList b id ↔ ∃ t ∈ done, crosses (vm.mapping t) ∧ vm.OnList b t

section Piece

variable {crosses : Mapping → Prop} {piece : Mapping → Mapping} {id : MapId} {vm : Vm}
  {done : List MapId} {cur : Vm} {linked : Bool} {tmp : MapId}

section

variable (h : Piece crosses piece id vm done cur linked)

include h

lemma Piece.skip (hnot : ¬ crosses (vm.mapping tmp)) :
    Piece crosses piece id vm (done ++ [tmp]) cur linked where
  linked := by simp [h.linked, or_and_right, exists_or, hnot]
  boVa := h.boVa
  mapping t ht hc := by
    rcases mem_append.1 ht with ht | ht
    · exact h.mapping t ht hc
    · exact absurd (mem_singleton.1 ht ▸ hc) hnot
  onList b := by simp [h.onList, hnot]

lemma Piece.frame {cur' : Vm}
    (hmap : cur'.mapping id = cur.mapping id) (hlist : ∀ b, cur'.OnList b id ↔ cur.OnList b id) :
    Piece crosses piece id vm done cur' linked where
  linked := h.linked
  boVa := by rw [hmap, h.boVa]
  mapping t ht hc := by rw [hmap, h.mapping t ht hc]
  onList b := by rw [hlist, h.onList]

lemma Piece.split (hcross : crosses (vm.mapping tmp))
    (huniq : ∀ t ∈ done, crosses (vm.mapping t) → t = tmp)
    (hlist : ∀ b, cur.OnList b tmp ↔ vm.OnList b tmp) {f : Mapping → Mapping}
    (hf : ∀ m, m.boVa = none → f m = piece (vm.mapping tmp))
    (hnull : (piece (vm.mapping tmp)).boVa = none) :
    Piece crosses piece id vm (done ++ [tmp]) ((cur.modify id f).linkBehind id tmp) true := by
  have hmap : ((cur.modify id f).linkBehind id tmp).mapping id = piece (vm.mapping tmp) := by
    rw [← hf _ h.boVa]
    exact update_self _ _ _
  constructor
  · simp [hcross]
  · rw [hmap, hnull]
  · intro t ht hc
    rcases mem_append.1 ht with ht | ht
    · rw [hmap, huniq t ht hc]
    · rw [hmap, mem_singleton.1 ht]
  · intro b
    simp only [onList_linkBehind, onList_modify, h.onList, hlist, mem_append,
      mem_singleton, or_and_right, exists_or, exists_eq_left, hcross]

end

end Piece

/-- The state of the gathering loop when the starts of the mappings `ds`, the ends of the
mappings `de` and the links of the mappings `dr` have been taken care of. -/
structure Gathered (vm : Vm) (ds de dr : List MapId) (g : Gather) : Prop where
  va : g.vm.va = vm.va
  freed : g.vm.freed = vm.freed
  next : g.vm.next = vm.next + 2
  boSize : g.vm.boSize = vm.boSize
  live : g.vm.live = vm.live
  mapping : ∀ m < vm.next, g.vm.mapping m = vm.mapping m
  removed : g.removed = dr.reverse
  before : Piece (fun m => m.start < lo) (Mapping.head lo) vm.next vm ds g.vm g.before
  after : Piece (fun m => hi < m.last) (Mapping.tail hi) (vm.next + 1) vm de g.vm g.after
  ofOnList : ∀ b x, x ≠ vm.next → x ≠ vm.next + 1 → g.vm.OnList b x → vm.OnList b x
  onList : ∀ b x, x ∉ dr → vm.OnList b x → g.vm.OnList b x

variable {lo hi} {vm : Vm} {ds de dr : List MapId} {g : Gather} {tmp : MapId}

section

variable (h : Gathered lo hi vm ds de dr g)

include h

lemma Gathered.onList_iff (htmp : tmp < vm.next)
    (hnew : tmp ∉ dr) (b : BoVaId) : g.vm.OnList b tmp ↔ vm.OnList b tmp :=
  ⟨h.ofOnList b tmp htmp.ne (Nat.lt_succ_of_lt htmp).ne, h.onList b tmp hnew⟩

lemma Gathered.splitStart (htmp : tmp < vm.next)
    (huniq : ∀ t ∈ ds, (vm.mapping t).start < lo → (vm.mapping tmp).start < lo → t = tmp)
    (hnew : tmp ∉ dr) :
    Gathered lo hi vm (ds ++ [tmp]) de dr (splitStart lo vm.next g tmp) := by
  unfold Amdgpu.splitStart
  rw [h.mapping tmp htmp]
  split_ifs with hs
  · refine { h with mapping := ?_, before := ?_, after := ?_, ofOnList := ?_, onList := ?_ }
    · intro m hm
      rw [← h.mapping m hm]
      exact update_of_ne hm.ne _ _
    · refine h.before.split hs (fun t ht hts => huniq t ht hts hs) (h.onList_iff htmp hnew) ?_ rfl
      rintro ⟨boVa, -, -, -, -⟩ rfl
      rfl
    · refine h.after.frame (update_of_ne (Nat.succ_ne_self _) _ _) fun b => ?_
      simp
    · intro b x hx hx' hon
      simp only [onList_linkBehind, hx, false_and, or_false] at hon
      exact h.ofOnList b x hx hx' hon
    · intro b x hx hon
      simp only [onList_linkBehind]
      exact .inl (h.onList b x hx hon)
  · exact { h with before := h.before.skip hs }

lemma Gathered.splitEnd (htmp : tmp < vm.next)
    (huniq : ∀ t ∈ de, hi < (vm.mapping t).last → hi < (vm.mapping tmp).last → t = tmp)
    (hnew : tmp ∉ dr) :
    Gathered lo hi vm ds (de ++ [tmp]) dr (splitEnd hi (vm.next + 1) g tmp) := by
  unfold Amdgpu.splitEnd
  rw [h.mapping tmp htmp]
  split_ifs with hl
  · refine { h with mapping := ?_, before := ?_, after := ?_, ofOnList := ?_, onList := ?_ }
    · intro m hm
      rw [← h.mapping m hm]
      exact update_of_ne (Nat.lt_succ_of_lt hm).ne _ _
    · refine h.before.frame (update_of_ne (Nat.succ_ne_self _).symm _ _) fun b => ?_
      simp
    · refine h.after.split hl (fun t ht htl => huniq t ht htl hl) (h.onList_iff htmp hnew) ?_ rfl
      rintro ⟨boVa, -, -, -, -⟩ rfl
      rfl
    · intro b x hx hx' hon
      simp only [onList_linkBehind, hx', false_and, or_false] at hon
      exact h.ofOnList b x hx hx' hon
    · intro b x hx hon
      simp only [onList_linkBehind]
      exact .inl (h.onList b x hx hon)
  · exact { h with after := h.after.skip hl }

lemma Gathered.unlink (htmp : tmp < vm.next) :
    Gathered lo hi vm ds de (dr ++ [tmp])
      { g with vm := g.vm.unlink tmp, removed := tmp :: g.removed } :=
  { h with
    removed := by simp [h.removed]
    before := h.before.frame rfl fun b => onList_unlink htmp.ne'
    after := h.after.frame rfl fun b => onList_unlink (Nat.lt_succ_of_lt htmp).ne'
    ofOnList := fun b x hx hx' hon => h.ofOnList b x hx hx' (onList_of_unlink hon)
    onList := fun b x hx hon => by
      simp only [mem_append, mem_singleton, not_or] at hx
      exact (onList_unlink hx.2).2 (h.onList b x hx.1 hon) }

end

lemma Gathered.gatherOne (h : Gathered lo hi vm done done done g) (hwf : WellFormed vm)
    (hdone : ∀ t ∈ done, t ∈ Amdgpu.removed lo hi vm) (htmp : tmp ∈ Amdgpu.removed lo hi vm)
    (hnew : tmp ∉ done) :
    Gathered lo hi vm (done ++ [tmp]) (done ++ [tmp]) (done ++ [tmp])
      (gatherOne lo hi vm.next (vm.next + 1) g tmp) := by
  have hlt : tmp < vm.next := hwf.fresh tmp ((mem_removed lo hi).1 htmp).1
  have h1 := h.splitStart hlt
    (fun t ht hts htmps => hwf.start_unique lo hi (hdone t ht) htmp hts htmps) hnew
  have h2 := h1.splitEnd hlt
    (fun t ht htl htmpl => hwf.last_unique lo hi (hdone t ht) htmp htl htmpl) hnew
  exact h2.unlink hlt

variable (lo hi) in
lemma gathered_kzalloc (hwf : WellFormed vm) :
    Gathered lo hi vm [] [] [] ⟨vm.kzalloc.kzalloc, [], false, false⟩ := by
  have hlist : ∀ b x, vm.kzalloc.kzalloc.OnList b x ↔ vm.OnList b x := fun _ _ => Iff.rfl
  have hfresh : ∀ b x, vm.next ≤ x → ¬ vm.OnList b x := fun b x hx hon =>
    (hwf.freshList b x hon).not_ge hx
  refine ⟨rfl, rfl, rfl, rfl, rfl, ?_, rfl, ⟨?_, ?_, ?_, ?_⟩, ⟨?_, ?_, ?_, ?_⟩, ?_, ?_⟩
  · intro m hm
    simp [Vm.kzalloc, hm.ne, (Nat.lt_succ_of_lt hm).ne]
  · simp
  · simp [Vm.kzalloc]
  · simp
  · simp [hlist, hfresh]
  · simp
  · simp [Vm.kzalloc]
  · simp
  · simp [hlist, hfresh]
  · exact fun b x _ _ hon => hon
  · exact fun b x _ hon => hon

lemma gatherOne_frame (lo hi : U64) (before after : MapId) (g : Gather) (tmp : MapId) :
    (gatherOne lo hi before after g tmp).vm.va = g.vm.va ∧
      ∀ m, m ≠ before → m ≠ after →
        (gatherOne lo hi before after g tmp).vm.mapping m = g.vm.mapping m := by
  have hstart : (splitStart lo before g tmp).vm.va = g.vm.va ∧
      ∀ m, m ≠ before → (splitStart lo before g tmp).vm.mapping m = g.vm.mapping m := by
    unfold splitStart
    split_ifs
    · exact ⟨rfl, fun m hm => update_of_ne hm _ _⟩
    · exact ⟨rfl, fun m _ => rfl⟩
  have hend : ∀ g : Gather, (splitEnd hi after g tmp).vm.va = g.vm.va ∧
      ∀ m, m ≠ after → (splitEnd hi after g tmp).vm.mapping m = g.vm.mapping m := by
    intro g
    unfold splitEnd
    split_ifs
    · exact ⟨rfl, fun m hm => update_of_ne hm _ _⟩
    · exact ⟨rfl, fun m _ => rfl⟩
  refine ⟨(hend _).1.trans hstart.1, fun m hm hm' => ?_⟩
  exact ((hend _).2 m hm').trans (hstart.2 m hm)

lemma meets_eq (vm : Vm) (m : MapId) :
    IntervalTree.meets vm.itStart vm.itLast lo.toNat hi.toNat m =
      decide ((vm.mapping m).Meets lo hi) := by
  rw [Bool.eq_iff_iff]
  simp only [IntervalTree.meets, Bool.and_eq_true, decide_eq_true_eq]
  exact Iff.rfl

lemma gather_eq_foldl (hwf : WellFormed vm) :
    gather lo hi vm.next (vm.next + 1) vm.mappings.length ⟨vm.kzalloc.kzalloc, [], false, false⟩ =
      (removed lo hi vm).foldl (gatherOne lo hi vm.next (vm.next + 1))
        ⟨vm.kzalloc.kzalloc, [], false, false⟩ := by
  have hne : ∀ m ∈ vm.mappings, m ≠ vm.next ∧ m ≠ vm.next + 1 := fun m hm =>
    ⟨(hwf.fresh m hm).ne, (Nat.lt_succ_of_lt (hwf.fresh m hm)).ne⟩
  -- the body keeps the tree and all end points of its nodes, so the iteration is not disturbed
  let I : Gather → Prop := fun g =>
    g.vm.va = vm.va ∧ ∀ m ∈ vm.mappings, g.vm.mapping m = vm.mapping m
  have hvalid : ∀ g, I g → IntervalTree.Valid g.vm.itStart g.vm.itLast g.vm.va := fun g hg =>
    valid_congr hwf.tree hg.1 hg.2
  have helements : ∀ g, I g → IntervalTree.elements g.vm.va = vm.mappings := fun g hg => by
    rw [hg.1]
  have hmeets : ∀ g, I g → ∀ l : List MapId, (∀ m ∈ l, m ∈ vm.mappings) →
      l.find? (IntervalTree.meets g.vm.itStart g.vm.itLast lo.toNat hi.toNat) =
        l.find? fun m => decide ((vm.mapping m).Meets lo hi) := by
    intro g hg l hl
    refine List.find?_congr fun m hm => ?_
    rw [meets_eq, hg.2 m (hl m hm)]
  have hinit : I ⟨vm.kzalloc.kzalloc, [], false, false⟩ :=
    ⟨rfl, fun m hm => (gathered_kzalloc lo hi hwf).mapping m (hwf.fresh m hm)⟩
  have hfirst : vm.kzalloc.kzalloc.itFirst lo hi =
      vm.mappings.find? fun m => decide ((vm.mapping m).Meets lo hi) := by
    rw [Vm.itFirst, (hvalid _ hinit).iterFirst_eq]
    exact hmeets _ hinit _ fun m hm => hm
  unfold gather
  rw [hfirst]
  refine Loop.forEach_eq_foldl (l := vm.mappings) ?_ ?_ (nil_append _).symm le_rfl hinit
  · intro g tmp xs ys hg hl
    rw [Vm.itNext, (hvalid g hg).iterNext_eq ((helements g hg).trans hl),
      hmeets g hg ys fun m hm => by simp [hl, hm]]
  · intro g tmp hg htmp
    obtain ⟨hva, hmap⟩ := gatherOne_frame lo hi vm.next (vm.next + 1) g tmp
    refine ⟨hva.trans hg.1, fun m hm => ?_⟩
    rw [hmap m (hne m hm).1 (hne m hm).2, hg.2 m hm]

/-! ## Freeing them -/

/-- The state of the freeing loop after the mappings `done`, started in `start`. -/
structure FreedUp (lo hi : U64) (start : Vm) (done : List MapId) (cur : Vm) : Prop where
  tree : IntervalTree.Valid cur.itStart cur.itLast cur.va
  mem : ∀ m, m ∈ cur.mappings ↔ m ∈ start.mappings ∧ m ∉ done
  cut : ∀ m ∈ done, cur.mapping m = (start.mapping m).cut lo hi
  rest : ∀ m, m ∉ done → cur.mapping m = start.mapping m
  freed : cur.freed = done.reverse ++ start.freed
  valids : cur.valids = start.valids
  invalids : cur.invalids = start.invalids
  next : cur.next = start.next
  boSize : cur.boSize = start.boSize
  live : cur.live = start.live

lemma FreedUp.freeOne {start : Vm} (h : FreedUp lo hi start done cur) (hnew : tmp ∉ done) :
    FreedUp lo hi start (done ++ [tmp]) (freeOne lo hi cur tmp) := by
  have hother : ∀ m, m ≠ tmp → (Amdgpu.freeOne lo hi cur tmp).mapping m = cur.mapping m :=
    fun m hm => update_of_ne hm _ _
  have hself : (Amdgpu.freeOne lo hi cur tmp).mapping tmp = (cur.mapping tmp).cut lo hi :=
    update_self _ _ _
  have hmem : ∀ m, m ∈ (Amdgpu.freeOne lo hi cur tmp).mappings ↔ m ≠ tmp ∧ m ∈ cur.mappings :=
    h.tree.mem_remove tmp
  refine { h with tree := ?_, mem := ?_, cut := ?_, rest := ?_, freed := ?_ }
  · refine @valid_congr (cur.itRemove tmp) _ (h.tree.remove tmp) rfl fun m hm => ?_
    exact hother m ((hmem m).1 hm).1
  · intro m
    rw [hmem, h.mem]
    simp only [mem_append, mem_singleton]
    tauto
  · intro m hm
    by_cases hmt : m = tmp
    · rw [hmt, hself, h.rest tmp hnew]
    · rw [hother m hmt]
      exact h.cut m (by simpa [hmt] using hm)
  · intro m hm
    simp only [mem_append, mem_singleton, not_or] at hm
    rw [hother m hm.2, h.rest m hm.1]
  · rw [reverse_append, reverse_singleton, singleton_append, cons_append,
      ← h.freed]
    rfl

variable (lo hi vm) in
/-- What `amdgpu_vm_bo_clear_mappings` has done to a VM when it succeeds. -/
structure ClearSpec (vm' : Vm) : Prop where
  tree : IntervalTree.Valid vm'.itStart vm'.itLast vm'.va
  mem : ∀ m, m ∈ vm'.mappings ↔ (m ∈ vm.mappings ∧ ¬ (vm.mapping m).Meets lo hi) ∨
    (m = vm.next ∧ ∃ t ∈ removed lo hi vm, (vm.mapping t).start < lo) ∨
    (m = vm.next + 1 ∧ ∃ t ∈ removed lo hi vm, hi < (vm.mapping t).last)
  kept : ∀ m < vm.next, m ∉ removed lo hi vm → vm'.mapping m = vm.mapping m
  cut : ∀ m ∈ removed lo hi vm, vm'.mapping m = (vm.mapping m).cut lo hi
  head : ∀ t ∈ removed lo hi vm, (vm.mapping t).start < lo →
    vm'.mapping vm.next = (vm.mapping t).head lo
  tail : ∀ t ∈ removed lo hi vm, hi < (vm.mapping t).last →
    vm'.mapping (vm.next + 1) = (vm.mapping t).tail hi
  freed : vm'.freed = removed lo hi vm ++ vm.freed
  next : vm'.next = vm.next + 2
  boSize : vm'.boSize = vm.boSize
  live : vm'.live = vm.live
  headOnList : ∀ b, vm'.OnList b vm.next ↔
    ∃ t ∈ removed lo hi vm, (vm.mapping t).start < lo ∧ vm.OnList b t
  tailOnList : ∀ b, vm'.OnList b (vm.next + 1) ↔
    ∃ t ∈ removed lo hi vm, hi < (vm.mapping t).last ∧ vm.OnList b t
  ofOnList : ∀ b x, x ≠ vm.next → x ≠ vm.next + 1 → vm'.OnList b x → vm.OnList b x
  onList : ∀ b x, x ∉ removed lo hi vm → vm.OnList b x → vm'.OnList b x

variable (lo hi) in
lemma nodup_removed (hwf : WellFormed vm) : (removed lo hi vm).Nodup := hwf.tree.nodup.filter _

variable (lo hi) in
lemma freedUp_removed (hwf : WellFormed vm) :
    ∃ g, Gathered lo hi vm (removed lo hi vm) (removed lo hi vm) (removed lo hi vm) g ∧
      gather lo hi vm.next (vm.next + 1) vm.mappings.length
        ⟨vm.kzalloc.kzalloc, [], false, false⟩ = g ∧
      FreedUp lo hi g.vm (removed lo hi vm).reverse (g.removed.foldl (freeOne lo hi) g.vm) := by
  have hnd := nodup_removed lo hi hwf
  have hnotin : ∀ {l : List MapId}, l.Nodup → ∀ xs x ys, l = xs ++ x :: ys → x ∉ xs := by
    intro l hl xs x ys heq hx
    rw [heq] at hl
    exact (nodup_append.1 hl).2.2 x hx x (by simp) rfl
  have hg : Gathered lo hi vm (removed lo hi vm) (removed lo hi vm) (removed lo hi vm)
      ((removed lo hi vm).foldl (gatherOne lo hi vm.next (vm.next + 1))
        ⟨vm.kzalloc.kzalloc, [], false, false⟩) := by
    refine Loop.foldl_induction (P := fun done g => Gathered lo hi vm done done done g)
      (gathered_kzalloc lo hi hwf) fun xs x ys g heq h => ?_
    refine h.gatherOne hwf (fun t ht => ?_) ?_ (hnotin hnd xs x ys heq)
    · rw [heq]; simp [ht]
    · rw [heq]; simp
  refine ⟨_, hg, gather_eq_foldl hwf, ?_⟩
  rw [hg.removed]
  refine Loop.foldl_induction (P := fun done cur => FreedUp lo hi _ done cur) ?_ ?_
  · refine ⟨?_, by simp, by simp, by simp, by simp, rfl, rfl, rfl, rfl, rfl⟩
    exact valid_congr hwf.tree hg.va fun m hm => hg.mapping m (hwf.fresh m hm)
  · exact fun xs x ys cur heq h => h.freeOne (hnotin (nodup_reverse.2 hnd) xs x ys heq)

lemma insertPiece_spec (h : IntervalTree.Valid cur.itStart cur.itLast cur.va) {linked : Bool}
    (hm : m ∉ cur.mappings) :
    IntervalTree.Valid (insertPiece cur linked m).itStart (insertPiece cur linked m).itLast
        (insertPiece cur linked m).va ∧
      (∀ x, x ∈ (insertPiece cur linked m).mappings ↔
        x ∈ cur.mappings ∨ (x = m ∧ linked = true)) ∧
      ∃ va, insertPiece cur linked m = { cur with va := va } := by
  unfold insertPiece
  cases linked with
  | false => exact ⟨h, by simp, cur.va, rfl⟩
  | true =>
    refine ⟨h.insert hm, fun x => ?_, _, rfl⟩
    rw [and_iff_left rfl, or_comm]
    exact h.mem_insert m x

/-- **What clearing a range does.** -/
theorem clearMappings_spec {allocBefore allocAfter : Bool} (hwf : WellFormed vm)
    (hret : clearMappings vm saddr size allocBefore allocAfter = (vm', .ok)) :
    ClearSpec (saddr / gpuPageSize) ((saddr + size - 1) / gpuPageSize) vm vm' := by
  obtain ⟨lo, hlo⟩ : ∃ lo, saddr / gpuPageSize = lo := ⟨_, rfl⟩
  obtain ⟨hi, hhi⟩ : ∃ hi, (saddr + size - 1) / gpuPageSize = hi := ⟨_, rfl⟩
  obtain ⟨g, hg, hgather, hfree⟩ := freedUp_removed lo hi hwf
  obtain ⟨cur, hcur⟩ : ∃ cur, g.removed.foldl (freeOne lo hi) g.vm = cur := ⟨_, rfl⟩
  have hvm' : insertPiece (insertPiece cur g.before vm.next) g.after (vm.next + 1) = vm' := by
    unfold clearMappings at hret
    simp only [hlo, hhi] at hret
    by_cases hmem : (!allocBefore || !allocAfter) = true
    · rw [if_pos hmem] at hret
      cases congrArg Prod.snd hret
    · rw [if_neg hmem, show vm.kzalloc.kzalloc.mappings.length = vm.mappings.length from rfl,
        hgather, hcur] at hret
      exact congrArg Prod.fst hret
  rw [hlo, hhi]
  rw [hcur] at hfree
  have hmem : ∀ m, m ∈ cur.mappings ↔ m ∈ vm.mappings ∧ ¬ (vm.mapping m).Meets lo hi := by
    intro m
    rw [hfree.mem, Vm.mappings, hg.va, mem_reverse, mem_removed]
    tauto
  have hbefore : vm.next ∉ cur.mappings := fun h => (hwf.fresh _ ((hmem _).1 h).1).false
  obtain ⟨htree1, hmem1, va1, hva1⟩ := insertPiece_spec hfree.tree hbefore
  have hafter : vm.next + 1 ∉ (insertPiece cur g.before vm.next).mappings := by
    rw [hmem1]
    rintro (h | h)
    · exact absurd (hwf.fresh _ ((hmem _).1 h).1) (by simp)
    · simp at h
  obtain ⟨htree2, hmem2, va2, hva2⟩ := insertPiece_spec htree1 hafter
  rw [hvm'] at htree2 hmem2 hva2
  rw [hva1] at hva2
  have hmapping : vm'.mapping = cur.mapping := by rw [hva2]
  have honlist : ∀ b x, vm'.OnList b x ↔ g.vm.OnList b x := by
    intro b x
    rw [hva2, Vm.OnList, Vm.OnList, ← hfree.valids, ← hfree.invalids]
  have hnotmem : ∀ m, vm.next ≤ m → m ∉ (removed lo hi vm).reverse := fun m hm h =>
    (hwf.fresh m ((mem_removed lo hi).1 (mem_reverse.1 h)).1).not_ge hm
  constructor
  · exact htree2
  · intro m
    rw [hmem2, hmem1, hmem, or_assoc, hg.before.linked, hg.after.linked]
  · intro m hm hr
    rw [hmapping, hfree.rest m (mt mem_reverse.1 hr), hg.mapping m hm]
  · intro m hm
    rw [hmapping, hfree.cut m (mem_reverse.2 hm),
      hg.mapping m (hwf.fresh m ((mem_removed lo hi).1 hm).1)]
  · intro t ht hs
    rw [hmapping, hfree.rest _ (hnotmem _ le_rfl), hg.before.mapping t ht hs]
  · intro t ht hl
    rw [hmapping, hfree.rest _ (hnotmem _ (Nat.le_succ _)), hg.after.mapping t ht hl]
  · rw [hva2]
    simpa [hg.freed] using hfree.freed
  · rw [hva2, ← hg.next, ← hfree.next]
  · rw [hva2, ← hg.boSize, ← hfree.boSize]
  · rw [hva2, ← hg.live, ← hfree.live]
  · intro b
    rw [honlist, hg.before.onList]
  · intro b
    rw [honlist, hg.after.onList]
  · intro b x hx hx' hon
    exact hg.ofOnList b x hx hx' ((honlist b x).1 hon)
  · intro b x hx hon
    exact (honlist b x).2 (hg.onList b x hx hon)

/-! ## What a cleared VM translates -/

/-- How a mapping `m` of the cleared VM comes from a mapping `t` of the VM before. -/
inductive ClearSpec.Origin (lo hi : U64) (vm vm' : Vm) (page : U64) (m t : MapId) : Prop
  | kept (hm : m = t) (hmeets : ¬ (vm.mapping t).Meets lo hi)
      (hmap : vm'.mapping m = vm.mapping t)
  | head (hm : m = vm.next) (hmeets : (vm.mapping t).Meets lo hi)
      (hcross : (vm.mapping t).start < lo) (hpage : page < lo)
      (hmap : vm'.mapping m = (vm.mapping t).head lo)
  | tail (hm : m = vm.next + 1) (hmeets : (vm.mapping t).Meets lo hi)
      (hcross : hi < (vm.mapping t).last) (hpage : hi < page)
      (hmap : vm'.mapping m = (vm.mapping t).tail hi)

lemma ClearSpec.Origin.unique (hle : lo ≤ hi) (ha : Origin lo hi vm vm' page a t)
    (hb : Origin lo hi vm vm' page b t) : a = b := by
  cases ha with
  | kept hm hmeets =>
    cases hb with
    | kept hm' => rw [hm, hm']
    | head _ hmeets' => exact absurd hmeets' hmeets
    | tail _ hmeets' => exact absurd hmeets' hmeets
  | head hm hmeets _ hpage =>
    cases hb with
    | kept _ hmeets' => exact absurd hmeets hmeets'
    | head hm' => rw [hm, hm']
    | tail _ _ _ hpage' => bv_omega
  | tail hm hmeets _ hpage =>
    cases hb with
    | kept _ hmeets' => exact absurd hmeets hmeets'
    | head _ _ _ hpage' => bv_omega
    | tail hm' => rw [hm, hm']

lemma ClearSpec.covers_removed (hs : ClearSpec lo hi vm vm') (page : U64) :
    (∃ m ∈ removed lo hi vm, (vm'.mapping m).Covers page) ↔
      translate vm page ≠ none ∧ lo ≤ page ∧ page ≤ hi := by
  rw [Ne, translate_eq_none_iff]
  constructor
  · rintro ⟨m, hm, hc⟩
    obtain ⟨hmem, h3, h4⟩ := (mem_removed lo hi).1 hm
    rw [hs.cut m hm] at hc
    obtain ⟨h1, h2⟩ := hc
    simp only [Mapping.cut] at h1 h2
    refine ⟨fun h => h m hmem ⟨?_, ?_⟩, ?_, ?_⟩ <;> split_ifs at h1 h2 <;> bv_omega
  · rintro ⟨h, hlo, hpage⟩
    simp only [not_forall, not_not] at h
    obtain ⟨m, hm, h1, h2⟩ := h
    have hmem : m ∈ removed lo hi vm := (mem_removed lo hi).2 ⟨hm, by bv_omega, by bv_omega⟩
    refine ⟨m, hmem, ?_⟩
    rw [hs.cut m hmem]
    refine ⟨?_, ?_⟩ <;> simp only [Mapping.cut] <;> split_ifs <;> bv_omega

section

variable (hs : ClearSpec lo hi vm vm') (hwf : WellFormed vm) (hhi : hi.toNat + 1 < 2 ^ 64)

include hs hwf hhi

lemma ClearSpec.exists_origin (hm : m ∈ vm'.mappings) (hc : (vm'.mapping m).Covers page) :
    ∃ t ∈ vm.mappings, (vm.mapping t).Covers page ∧ Origin lo hi vm vm' page m t := by
  rcases (hs.mem m).1 hm with ⟨hmem, hmeets⟩ | ⟨rfl, t, ht, hcross⟩ | ⟨rfl, t, ht, hcross⟩
  · have hmap := hs.kept m (hwf.fresh m hmem) (fun h => hmeets ((mem_removed lo hi).1 h).2)
    exact ⟨m, hmem, hmap ▸ hc, .kept rfl hmeets hmap⟩
  · obtain ⟨hmem, hmeets⟩ := (mem_removed lo hi).1 ht
    have hmap := hs.head t ht hcross
    rw [hmap] at hc
    obtain ⟨h1, h2⟩ := hc
    obtain ⟨h3, h4⟩ := hmeets
    simp only [Mapping.head] at h1 h2
    refine ⟨t, hmem, ⟨h1, ?_⟩, .head rfl ⟨h3, h4⟩ hcross ?_ hmap⟩
    · bv_omega
    · bv_omega
  · obtain ⟨hmem, hmeets⟩ := (mem_removed lo hi).1 ht
    have hmap := hs.tail t ht hcross
    rw [hmap] at hc
    obtain ⟨h1, h2⟩ := hc
    obtain ⟨h3, h4⟩ := hmeets
    simp only [Mapping.tail] at h1 h2
    refine ⟨t, hmem, ⟨?_, h2⟩, .tail rfl ⟨h3, h4⟩ hcross ?_ hmap⟩
    · bv_omega
    · bv_omega

lemma ClearSpec.exists_of_origin (ht : t ∈ vm.mappings) (hc : (vm.mapping t).Covers page)
    (hout : page < lo ∨ hi < page) :
    ∃ m ∈ vm'.mappings, (vm'.mapping m).Covers page ∧ Origin lo hi vm vm' page m t := by
  obtain ⟨h1, h2⟩ := hc
  by_cases hmeets : (vm.mapping t).Meets lo hi
  · have hmem := (mem_removed lo hi).2 ⟨ht, hmeets⟩
    obtain ⟨h3, h4⟩ := hmeets
    rcases hout with hlt | hgt
    · have hcross : (vm.mapping t).start < lo := by bv_omega
      have hmap := hs.head t hmem hcross
      refine ⟨vm.next, (hs.mem _).2 (.inr (.inl ⟨rfl, t, hmem, hcross⟩)), ?_,
        .head rfl ⟨h3, h4⟩ hcross hlt hmap⟩
      rw [hmap]
      exact ⟨h1, by simp only [Mapping.head]; bv_omega⟩
    · have hcross : hi < (vm.mapping t).last := by bv_omega
      have hmap := hs.tail t hmem hcross
      refine ⟨vm.next + 1, (hs.mem _).2 (.inr (.inr ⟨rfl, t, hmem, hcross⟩)), ?_,
        .tail rfl ⟨h3, h4⟩ hcross hgt hmap⟩
      rw [hmap]
      exact ⟨by simp only [Mapping.tail]; bv_omega, h2⟩
  · have hmap := hs.kept t (hwf.fresh t ht) (fun h => hmeets ((mem_removed lo hi).1 h).2)
    refine ⟨t, (hs.mem t).2 (.inl ⟨ht, hmeets⟩), ?_, .kept rfl hmeets hmap⟩
    rw [hmap]
    exact ⟨h1, h2⟩

lemma ClearSpec.disjoint (hle : lo ≤ hi) : PagesDisjoint vm' := by
  intro a ha b hb page hca hcb
  obtain ⟨t, ht, hct, hoa⟩ := hs.exists_origin hwf hhi ha hca
  obtain ⟨t', ht', hct', hob⟩ := hs.exists_origin hwf hhi hb hcb
  obtain rfl := hwf.disjoint t ht t' ht' page hct hct'
  exact hoa.unique hle hob

lemma ClearSpec.translate_inside (hlo : lo ≤ page) (hpage : page ≤ hi) :
    translate vm' page = none := by
  rw [translate_eq_none_iff]
  intro m hm hc
  obtain ⟨t, ht, ⟨h1, h2⟩, ho⟩ := hs.exists_origin hwf hhi hm hc
  cases ho with
  | kept _ hmeets =>
    refine hmeets ⟨?_, ?_⟩
    · bv_omega
    · bv_omega
  | head _ _ _ hlt => bv_omega
  | tail _ _ _ hgt => bv_omega

lemma ClearSpec.translate_outside_eq_none (hout : page < lo ∨ hi < page) :
    translate vm' page = none ↔ translate vm page = none := by
  rw [translate_eq_none_iff, translate_eq_none_iff]
  constructor
  · intro h t ht hc
    obtain ⟨m, hm, hc', -⟩ := hs.exists_of_origin hwf hhi ht hc hout
    exact h m hm hc'
  · intro h m hm hc
    obtain ⟨t, ht, hc', -⟩ := hs.exists_origin hwf hhi hm hc
    exact h t ht hc'

lemma ClearSpec.translate_of_covers (hle : lo ≤ hi) (ht : t ∈ vm.mappings)
    (hc : (vm.mapping t).Covers page) (hout : page < lo ∨ hi < page) :
    translate vm page = some ((vm.mapping t).backing page) ∧
      ∃ m, Origin lo hi vm vm' page m t ∧
        translate vm' page = some ((vm'.mapping m).backing page) := by
  obtain ⟨m, hm, hc', ho⟩ := hs.exists_of_origin hwf hhi ht hc hout
  exact ⟨(translate_eq_some_iff hwf.disjoint).2 ⟨t, ht, hc, rfl⟩, m, ho,
    (translate_eq_some_iff (hs.disjoint hwf hhi hle)).2 ⟨m, hm, hc', rfl⟩⟩

/-- Without a piece behind the range, and with pieces before it only of mappings that have no
`bo_va`, the pages outside of the range are backed as before. -/
lemma ClearSpec.translate_outside (hle : lo ≤ hi)
    (hend : ∀ t ∈ vm.mappings, (vm.mapping t).Meets lo hi → ¬ hi < (vm.mapping t).last)
    (hstart : ∀ t ∈ vm.mappings, (vm.mapping t).Meets lo hi → (vm.mapping t).start < lo →
      (vm.mapping t).boVa = none)
    (hout : page < lo ∨ hi < page) : translate vm' page = translate vm page := by
  cases ht : translate vm page with
  | none => exact (hs.translate_outside_eq_none hwf hhi hout).2 ht
  | some b =>
    obtain ⟨t, hmem, hc, -⟩ := (translate_eq_some_iff hwf.disjoint).1 ht
    obtain ⟨hold, m, ho, hnew⟩ := hs.translate_of_covers hwf hhi hle hmem hc hout
    rw [← ht, hold, hnew]
    cases ho with
    | kept _ _ hmap => rw [hmap]
    | head _ hmeets hcross _ hmap =>
      rw [hmap, Mapping.backing, Mapping.backing, hstart t hmem hmeets hcross]
      rfl
    | tail _ hmeets hcross => exact absurd hcross (hend t hmem hmeets)

lemma ClearSpec.translate_head (hle : lo ≤ hi) (ht : t ∈ removed lo hi vm)
    (hcross : (vm.mapping t).start < lo) :
    translate vm (vm.mapping t).start = some ((vm.mapping t).backing (vm.mapping t).start) ∧
      translate vm' (vm.mapping t).start =
        some (((vm.mapping t).head lo).backing (vm.mapping t).start) := by
  obtain ⟨hmem, hmeets⟩ := (mem_removed lo hi).1 ht
  obtain ⟨hold, m, ho, hnew⟩ := hs.translate_of_covers hwf hhi hle hmem
    ⟨BitVec.le_refl _, hwf.proper t hmem⟩ (.inl hcross)
  refine ⟨hold, ?_⟩
  cases ho with
  | kept _ hnot => exact absurd hmeets hnot
  | head _ _ _ _ hmap => rw [hnew, hmap]
  | tail _ _ _ hgt => bv_omega

lemma ClearSpec.translate_tail (hle : lo ≤ hi) (ht : t ∈ removed lo hi vm)
    (hcross : hi < (vm.mapping t).last) :
    translate vm (hi + 1) = some ((vm.mapping t).backing (hi + 1)) ∧
      translate vm' (hi + 1) = some (((vm.mapping t).tail hi).backing (hi + 1)) := by
  obtain ⟨hmem, hmeets⟩ := (mem_removed lo hi).1 ht
  obtain ⟨h3, h4⟩ := hmeets
  obtain ⟨hold, m, ho, hnew⟩ := hs.translate_of_covers hwf hhi hle hmem
    (show (vm.mapping t).Covers (hi + 1) from ⟨by bv_omega, by bv_omega⟩) (.inr (by bv_omega))
  refine ⟨hold, ?_⟩
  cases ho with
  | kept _ hnot => exact absurd ⟨h3, h4⟩ hnot
  | head _ _ _ hlt => bv_omega
  | tail _ _ _ _ hmap => rw [hnew, hmap]

end

end Clear

/-- The page lies in the range of addresses `[saddr, saddr + size)`. -/
def InRange (saddr size page : U64) : Prop :=
  saddr.toNat ≤ page.toNat * 4096 ∧ page.toNat * 4096 < saddr.toNat + size.toNat

/-- The mapping reaches over the address `saddr` at which the range starts. -/
def Mapping.CrossesStart (m : Mapping) (saddr : U64) : Prop :=
  m.start.toNat * 4096 < saddr.toNat ∧ saddr.toNat ≤ m.last.toNat * 4096

/-- The mapping reaches over the address `saddr + size` at which the range ends. -/
def Mapping.CrossesEnd (m : Mapping) (saddr size : U64) : Prop :=
  m.start.toNat * 4096 < saddr.toNat + size.toNat ∧
    saddr.toNat + size.toNat ≤ m.last.toNat * 4096

/-- What clearing the range `[saddr, saddr + size)` is for: only the pages of the range lose
their backing, and exactly the mappings of these pages are left to be freed. -/
structure Cleared (vm vm' : Vm) (saddr size : U64) : Prop where
  outside : ∀ page, ¬ InRange saddr size page → translate vm' page = translate vm page
  inside : ∀ page, InRange saddr size page → translate vm' page = none
  disjoint : PagesDisjoint vm'
  once : vm'.mappings.Nodup
  freed : ∃ added, vm'.freed = added ++ vm.freed ∧ ∀ page,
    (∃ m ∈ added, (vm'.mapping m).Covers page) ↔
      translate vm page ≠ none ∧ translate vm' page = none

lemma pages_of_range (hsaddr : saddr.toNat % 4096 = 0) (hsize : size.toNat % 4096 = 0)
    (hpos : 0 < size.toNat) (hwrap : saddr.toNat + size.toNat ≤ 2 ^ 64) :
    (saddr / gpuPageSize).toNat * 4096 = saddr.toNat ∧
      ((saddr + size - 1) / gpuPageSize).toNat * 4096 + 4096 = saddr.toNat + size.toNat := by
  have hlast : (saddr + size - 1).toNat = saddr.toNat + size.toNat - 1 := by bv_omega
  rw [BitVec.toNat_udiv, BitVec.toNat_udiv, toNat_gpuPageSize]
  omega

/-- The offset of the piece behind the range is not the one of its first page: it would be so
only if the piece had started with the mapping. -/
lemma tail_backing_ne {m : Mapping} {hi : U64} (hstart : m.start ≤ hi)
    (hhi : hi.toNat * 4096 + 4096 ≤ 2 ^ 64) :
    ((m.tail hi).backing (hi + 1)).offset ≠ (m.backing (hi + 1)).offset := by
  have hd : (hi + 1 - m.start).toNat = hi.toNat + 1 - m.start.toNat := by bv_omega
  have hpos : 0 < hi.toNat + 1 - m.start.toNat := by bv_omega
  intro h
  have h' : hi + 1 - m.start = (hi + 1 - m.start) * gpuPageSize := by
    simpa [Mapping.tail, Mapping.backing] using h
  have hnat := congrArg BitVec.toNat h'
  rw [BitVec.toNat_mul, toNat_gpuPageSize] at hnat
  omega

/-- **When clearing a range does what it is for.** Exactly when no mapping reaches over the end of
the range and a mapping that reaches over its start has no `bo_va`.

**Proof sketch.** What the function does to the tree is known in all cases
(`clearMappings_spec`), and with it that the pages of the range are not mapped any more, that the
remaining mappings are disjoint, and which pages the freed mappings cover. A piece behind the
range shows a wrong offset at its first page, and a piece before the range shows no `bo_va`;
without such pieces every page outside is in the mapping it was in. -/
theorem cleared_iff {vm vm' : Vm} {saddr size : U64} {allocBefore allocAfter : Bool}
    (hwf : WellFormed vm) (hsaddr : saddr.toNat % 4096 = 0) (hsize : size.toNat % 4096 = 0)
    (hpos : 0 < size.toNat) (hwrap : saddr.toNat + size.toNat ≤ 2 ^ 64)
    (hret : clearMappings vm saddr size allocBefore allocAfter = (vm', .ok)) :
    Cleared vm vm' saddr size ↔
      ∀ m ∈ vm.mappings, ¬ (vm.mapping m).CrossesEnd saddr size ∧
        ((vm.mapping m).CrossesStart saddr → (vm.mapping m).boVa = none) := by
  have hs := clearMappings_spec hwf hret
  obtain ⟨hlo, hhi⟩ := pages_of_range hsaddr hsize hpos hwrap
  obtain ⟨lo, hlo'⟩ : ∃ lo, saddr / gpuPageSize = lo := ⟨_, rfl⟩
  obtain ⟨hi, hhi'⟩ : ∃ hi, (saddr + size - 1) / gpuPageSize = hi := ⟨_, rfl⟩
  rw [hlo'] at hlo
  rw [hhi'] at hhi
  rw [hlo', hhi'] at hs
  have hle : lo ≤ hi := by rw [BitVec.le_def]; omega
  have hhi1 : hi.toNat + 1 < 2 ^ 64 := by omega
  have hin : ∀ page, InRange saddr size page ↔ lo ≤ page ∧ page ≤ hi := by
    intro page
    rw [InRange, BitVec.le_def, BitVec.le_def]
    omega
  have hout : ∀ page, ¬ InRange saddr size page ↔ page < lo ∨ hi < page := by
    intro page
    rw [InRange, BitVec.lt_def, BitVec.lt_def]
    omega
  have hend : ∀ m : Mapping, m.CrossesEnd saddr size ↔ m.Meets lo hi ∧ hi < m.last := by
    intro m
    rw [Mapping.CrossesEnd, Mapping.Meets, BitVec.le_def, BitVec.le_def, BitVec.lt_def]
    omega
  have hstart : ∀ m : Mapping, m.CrossesStart saddr ↔ m.Meets lo hi ∧ m.start < lo := by
    intro m
    rw [Mapping.CrossesStart, Mapping.Meets, BitVec.le_def, BitVec.le_def, BitVec.lt_def]
    omega
  constructor
  · intro hcl m hm
    rw [hend, hstart]
    refine ⟨fun ⟨hmeets, hcross⟩ => ?_, fun ⟨hmeets, hcross⟩ => ?_⟩
    · obtain ⟨h1, h2⟩ := hs.translate_tail hwf hhi1 hle ((mem_removed lo hi).2 ⟨hm, hmeets⟩) hcross
      have heq := hcl.outside (hi + 1) ((hout _).2 (.inr (by bv_omega)))
      rw [h1, h2, Option.some.injEq] at heq
      exact tail_backing_ne hmeets.1 (by omega) (congrArg Backing.offset heq)
    · obtain ⟨h1, h2⟩ := hs.translate_head hwf hhi1 hle ((mem_removed lo hi).2 ⟨hm, hmeets⟩) hcross
      have heq := hcl.outside _ ((hout _).2 (.inl hcross))
      rw [h1, h2, Option.some.injEq] at heq
      exact (congrArg Backing.boVa heq).symm
  · intro hcond
    refine ⟨fun page hpage => ?_, fun page hpage => ?_, hs.disjoint hwf hhi1 hle,
      hs.tree.nodup, removed lo hi vm, hs.freed, fun page => ?_⟩
    · refine hs.translate_outside hwf hhi1 hle (fun t ht hmeets hlast => ?_)
        (fun t ht hmeets hlt => ?_) ((hout page).1 hpage)
      · exact (hcond t ht).1 ((hend _).2 ⟨hmeets, hlast⟩)
      · exact (hcond t ht).2 ((hstart _).2 ⟨hmeets, hlt⟩)
    · exact hs.translate_inside hwf hhi1 ((hin page).1 hpage).1 ((hin page).1 hpage).2
    · rw [hs.covers_removed]
      by_cases hpage : InRange saddr size page
      · have := (hin page).1 hpage
        simp [this, hs.translate_inside hwf hhi1 this.1 this.2]
      · have hnone := hs.translate_outside_eq_none hwf hhi1 ((hout page).1 hpage)
        rw [hin] at hpage
        tauto

/-- Mappings of the pages 16 to 31 and of the pages 64 to 79. -/
def twoMappings (m : MapId) : Mapping :=
  if m = 0 then ⟨some 0, 16, 31, 0, 1⟩ else ⟨some 1, 64, 79, 0, 1⟩

def twoVm : Vm where
  va := [0, 1].foldl (fun va m => IntervalTree.insert (fun m => (twoMappings m).start.toNat)
    (fun m => (twoMappings m).last.toNat) m va) .empty
  mapping := twoMappings
  valids := fun _ => []
  invalids := fun b => [0, 1].filter (· = b)
  freed := []
  boSize := fun _ => none
  live := fun _ => true
  next := 2

lemma wellFormed_twoVm : WellFormed twoVm where
  tree := ((IntervalTree.valid_empty _ _).insert not_mem_nil).insert (by decide +kernel)
  proper := by decide +kernel
  disjoint := by
    have hmem : ∀ m ∈ twoVm.mappings, m = 0 ∨ m = 1 := by decide +kernel
    intro a ha b hb page
    rcases hmem a ha with rfl | rfl <;> rcases hmem b hb with rfl | rfl
    · exact fun _ _ => rfl
    · simp only [twoVm, twoMappings, Mapping.Covers, if_true, one_ne_zero, if_false]
      bv_omega
    · simp only [twoVm, twoMappings, Mapping.Covers, if_true, one_ne_zero, if_false]
      bv_omega
    · exact fun _ _ => rfl
  fresh := by decide +kernel
  freshList b x hx := by
    have hx : x ∈ [0, 1].filter (· = b) := hx.resolve_left not_mem_nil
    have hlt : ∀ y ∈ [0, 1], y < 2 := by decide
    exact hlt x (mem_filter.1 hx).1

/-- Clearing the pages 8 to 31 frees the first mapping and keeps the second. -/
theorem cleared_wholeMapping :
    ∃ vm', clearMappings twoVm 0x8000 0x18000 true true = (vm', .ok) ∧
      Cleared twoVm vm' 0x8000 0x18000 ∧ translate vm' 64 = some ⟨some 1, 0, 1⟩ := by
  obtain ⟨vm', hvm'⟩ : ∃ vm', clearMappings twoVm 0x8000 0x18000 true true = (vm', .ok) := ⟨_, rfl⟩
  have hcleared := (cleared_iff wellFormed_twoVm (by decide) (by decide) (by decide) (by decide)
    hvm').2 (by
      unfold Mapping.CrossesEnd Mapping.CrossesStart
      decide +kernel)
  refine ⟨vm', hvm', hcleared, (hcleared.outside 64 ?_).trans (by decide +kernel)⟩
  unfold InRange
  decide

/-- Clearing the pages 20 to 23 of a VM that maps the pages 16 to 31 of a buffer object: page 24
was backed by byte 32768 of the buffer object, and is now backed by byte 8 of nothing. -/
theorem not_cleared_split :
    WellFormed twoVm ∧
      ∃ vm', clearMappings twoVm 0x14000 0x4000 true true = (vm', .ok) ∧
        translate twoVm 24 = some ⟨some 0, 32768, 1⟩ ∧
        translate vm' 24 = some ⟨none, 8, 1⟩ ∧
        ¬ InRange 0x14000 0x4000 24 ∧
        ¬ Cleared twoVm vm' 0x14000 0x4000 := by
  have hbefore : translate twoVm 24 = some ⟨some 0, 32768, 1⟩ := by decide +kernel
  have hafter : translate (clearMappings twoVm 0x14000 0x4000 true true).1 24 =
      some ⟨none, 8, 1⟩ := by decide +kernel
  have hout : ¬ InRange 0x14000 0x4000 24 := by
    unfold InRange
    decide
  refine ⟨wellFormed_twoVm, _, rfl, hbefore, hafter, hout, fun hcl => ?_⟩
  have heq := hcl.outside 24 hout
  exact absurd (heq.symm.trans hafter) (by decide)

end KmsDrm.Amdgpu
