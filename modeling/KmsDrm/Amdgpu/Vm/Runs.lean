import KmsDrm.Lib.Machine
import KmsDrm.Amdgpu.Vm.Clear

/-!
# Sequences of operations on an amdgpu VM

The mappings of a VM under any sequence of `amdgpu_vm_bo_map`, `amdgpu_vm_bo_replace_map`,
`amdgpu_vm_bo_unmap` and `amdgpu_vm_bo_rmv`. The mappings stay disjoint, but the check that a
mapping fits into its buffer object is made on the 64-bit sum of offset and size: a sum that
wraps passes it.

## Main results

* `Amdgpu.mappings_consistent` — a run whose calls do not wrap stays consistent.
-/

namespace KmsDrm.Amdgpu

open KmsDrm.Lib List

variable {b : BoVaId} {m : MapId} {boSize flags hi lo offset saddr size : U64} {vm' : Vm}

/-- The number of bytes that a mapping spans. -/
def Mapping.bytes (m : Mapping) : ℕ := (m.last.toNat + 1 - m.start.toNat) * 4096

/-- A mapping fits into a buffer object, over the integers. -/
def Mapping.Fits (m : Mapping) (boSize : U64) : Prop := m.offset.toNat + m.bytes ≤ boSize.toNat

instance (m : Mapping) (boSize : U64) : Decidable (m.Fits boSize) :=
  inferInstanceAs (Decidable (_ ≤ _))

/-- The state of a VM that the operations are meant to keep. -/
structure Consistent (vm : Vm) : Prop extends WellFormed vm where
  /-- Every mapping belongs to a `bo_va`. -/
  listed : ∀ m ∈ vm.mappings, ∃ b, vm.OnList b m
  /-- The mappings of a `bo_va` fit into its buffer object. -/
  fits : ∀ b boSize, vm.boSize b = some boSize → ∀ m, vm.OnList b m → (vm.mapping m).Fits boSize

/-! ## The steps -/

/-- A call of one of the operations; the flags say which allocations succeed. -/
inductive Op where
  | map (boVa : BoVaId) (saddr offset size flags : U64) (alloc : Bool)
  | replaceMap (boVa : BoVaId) (saddr offset size flags : U64)
      (alloc allocBefore allocAfter : Bool)
  | unmap (boVa : BoVaId) (saddr : U64)
  | rmv (boVa : BoVaId)
  deriving DecidableEq, Repr

/-- The `bo_va` of a call. -/
def Op.boVa : Op → BoVaId
  | .map b .. => b
  | .replaceMap b .. => b
  | .unmap b _ => b
  | .rmv b => b

/-- One call, for a `bo_va` that exists. -/
def step (op : Op) (vm : Vm) : Option Vm :=
  if vm.live op.boVa then
    match op with
    | .map b saddr offset size flags alloc => some (boMap vm b saddr offset size flags alloc).1
    | .replaceMap b saddr offset size flags alloc allocBefore allocAfter =>
      some (boReplaceMap vm b saddr offset size flags alloc allocBefore allocAfter).1
    | .unmap b saddr => some (boUnmap vm b saddr).1
    | .rmv b => some (boRmv vm b)
  else none

/-- The sum of offset and size, which the call compares with the size of the buffer object, does
not wrap. -/
def Op.NoWrap (vm : Vm) : Op → Prop
  | .map b _ offset size .. => (vm.boSize b).isSome = true → offset.toNat + size.toNat < 2 ^ 64
  | .replaceMap b _ offset size .. =>
    (vm.boSize b).isSome = true → offset.toNat + size.toNat < 2 ^ 64
  | _ => True

instance (vm : Vm) (op : Op) : Decidable (op.NoWrap vm) := by
  cases op <;> unfold Op.NoWrap <;> infer_instance

/-! ## Taking mappings away -/

section

variable {vm : Vm}

section

variable (h : Consistent vm)

include h

lemma Consistent.drop (m : MapId) : Consistent (dropMapping vm m) := by
  have hmem : ∀ x, x ∈ (dropMapping vm m).mappings ↔ x ≠ m ∧ x ∈ vm.mappings := h.tree.mem_remove m
  have hlist : ∀ b x, (dropMapping vm m).OnList b x → vm.OnList b x :=
    fun b x hx => onList_of_unlink hx
  constructor
  · constructor
    · exact h.tree.remove m
    · exact fun x hx => h.proper x ((hmem x).1 hx).2
    · exact fun a ha b hb => h.disjoint a ((hmem a).1 ha).2 b ((hmem b).1 hb).2
    · exact fun x hx => h.fresh x ((hmem x).1 hx).2
    · exact fun b x hx => h.freshList b x (hlist b x hx)
  · intro x hx
    obtain ⟨hne, hx⟩ := (hmem x).1 hx
    obtain ⟨b, hb⟩ := h.listed x hx
    exact ⟨b, (onList_unlink hne).2 hb⟩
  · exact fun b boSize hsize x hx => h.fits b boSize hsize x (hlist b x hx)

lemma Consistent.congr (hva : vm'.va = vm.va)
    (hvalids : vm'.valids = vm.valids) (hinvalids : vm'.invalids = vm.invalids)
    (hsize : vm'.boSize = vm.boSize) (hnext : vm.next ≤ vm'.next)
    (hstart : ∀ m, (vm'.mapping m).start = (vm.mapping m).start)
    (hlast : ∀ m, (vm'.mapping m).last = (vm.mapping m).last)
    (hoffset : ∀ m, (vm'.mapping m).offset = (vm.mapping m).offset) : Consistent vm' := by
  have hlist : ∀ b m, vm'.OnList b m ↔ vm.OnList b m := fun b m => by
    rw [Vm.OnList, Vm.OnList, hvalids, hinvalids]
  have hmem : ∀ m, m ∈ vm'.mappings ↔ m ∈ vm.mappings := fun m => by
    rw [Vm.mappings, hva]
  have hcov : ∀ m page, (vm'.mapping m).Covers page ↔ (vm.mapping m).Covers page := fun m page => by
    rw [Mapping.Covers, Mapping.Covers, hstart, hlast]
  constructor
  · constructor
    · rw [hva]
      refine h.tree.congr (fun m _ => ?_) (fun m _ => ?_)
      · rw [Vm.itStart, hstart, Vm.itStart]
      · rw [Vm.itLast, hlast, Vm.itLast]
    · intro m hm
      rw [hstart, hlast]
      exact h.proper m ((hmem m).1 hm)
    · intro a ha b hb page hca hcb
      exact h.disjoint a ((hmem a).1 ha) b ((hmem b).1 hb) page ((hcov a page).1 hca)
        ((hcov b page).1 hcb)
    · exact fun m hm => (h.fresh m ((hmem m).1 hm)).trans_le hnext
    · exact fun b m hm => (h.freshList b m ((hlist b m).1 hm)).trans_le hnext
  · intro m hm
    obtain ⟨b, hb⟩ := h.listed m ((hmem m).1 hm)
    exact ⟨b, (hlist b m).2 hb⟩
  · intro b boSize hbo m hm
    rw [hsize] at hbo
    have := h.fits b boSize hbo m ((hlist b m).1 hm)
    rwa [Mapping.Fits, Mapping.bytes, hstart, hlast, hoffset]

lemma Consistent.clearBoVa (m : MapId) :
    Consistent (vm.modify m fun x => { x with boVa := none }) := by
  have hfield : ∀ x, (vm.modify m fun x => { x with boVa := none }).mapping x =
      { vm.mapping x with boVa := if x = m then none else (vm.mapping x).boVa } := by
    intro x
    by_cases hx : x = m
    · subst hx; simp [Vm.modify]
    · simp [Vm.modify, hx]
  refine h.congr rfl rfl rfl rfl le_rfl ?_ ?_ ?_ <;> intro x <;> rw [hfield]

lemma Consistent.addFreed (m : MapId) : Consistent (vm.addFreed m) :=
  h.congr rfl rfl rfl rfl le_rfl (fun _ => rfl) (fun _ => rfl) fun _ => rfl

lemma Consistent.dropValid (m : MapId) : Consistent (dropValid vm m) :=
  ((h.drop m).clearBoVa m).addFreed m

lemma Consistent.boUnmap (b : BoVaId) (saddr : U64) : Consistent (boUnmap vm b saddr).1 := by
  unfold Amdgpu.boUnmap
  dsimp only
  split
  · exact h.dropValid _
  · split
    · exact (h.drop _).clearBoVa _
    · exact h

lemma Consistent.boRmv (b : BoVaId) : Consistent (boRmv vm b) := by
  have hvalids : Consistent ((vm.valids b).foldl Amdgpu.dropValid vm) :=
    Loop.foldl_induction (P := fun _ vm => Consistent vm) h fun _ m _ _ _ hvm => hvm.dropValid m
  obtain ⟨vm1, hvm1⟩ : ∃ vm1, (vm.valids b).foldl Amdgpu.dropValid vm = vm1 := ⟨_, rfl⟩
  rw [hvm1] at hvalids
  have hinvalids : Consistent ((vm1.invalids b).foldl dropMapping vm1) :=
    Loop.foldl_induction (P := fun _ vm => Consistent vm) hvalids fun _ m _ _ _ hvm => hvm.drop m
  have hrmv : Amdgpu.boRmv vm b = { (vm1.invalids b).foldl dropMapping vm1 with
      live := Function.update ((vm1.invalids b).foldl dropMapping vm1).live b false } := by
    rw [Amdgpu.boRmv, hvm1]
  rw [hrmv]
  exact hinvalids.congr rfl rfl rfl rfl le_rfl (fun _ => rfl) (fun _ => rfl) fun _ => rfl

end

/-! ## Clearing and adding mappings -/

lemma toNat_mod_of_and_mask {x : U64} (h : x &&& gpuPageMask = 0) : x.toNat % 4096 = 0 := by
  have hnat := congrArg BitVec.toNat h
  rw [BitVec.toNat_and, show gpuPageMask.toNat = 2 ^ 12 - 1 from rfl,
    Nat.and_two_pow_sub_one_eq_mod] at hnat
  simpa using hnat

lemma range_of_not_badParameters (h : badParameters vm b saddr offset size = false) :
    saddr.toNat % 4096 = 0 ∧ size.toNat % 4096 = 0 ∧ 0 < size.toNat ∧
      saddr.toNat + size.toNat ≤ 2 ^ 64 ∧
      ∀ boSize, vm.boSize b = some boSize → (offset + size).toNat ≤ boSize.toNat := by
  unfold badParameters at h
  simp only [Bool.or_eq_false_iff, bne_eq_false_iff_eq, beq_eq_false_iff_ne,
    decide_eq_false_iff_not] at h
  obtain ⟨⟨⟨⟨⟨hsaddr, hoffset⟩, hne⟩, hsize⟩, hlt⟩, hbo⟩ := h
  have hs := toNat_mod_of_and_mask hsaddr
  have hz := toNat_mod_of_and_mask hsize
  refine ⟨hs, hz, ?_, ?_, ?_⟩
  · bv_omega
  · bv_omega
  · intro boSize hsome
    rw [hsome] at hbo
    simpa [BitVec.lt_def] using hbo

lemma Mapping.Fits.head {m : Mapping} (h : m.Fits boSize) (hmeets : m.Meets lo hi)
    (hcross : m.start < lo) : (m.head lo).Fits boSize := by
  have hlast : (lo - 1).toNat + 1 = lo.toNat := by bv_omega
  have hle : lo.toNat ≤ m.last.toNat := hmeets.2
  refine le_trans (Nat.add_le_add_left (Nat.mul_le_mul_right _ ?_) _) h
  change (lo - 1).toNat + 1 - m.start.toNat ≤ _
  omega

lemma Mapping.Fits.tail {m : Mapping} (h : m.Fits boSize) (hmeets : m.Meets lo hi)
    (hcross : hi < m.last) : (m.tail hi).Fits boSize := by
  have hstart : (hi + 1).toNat = hi.toNat + 1 := by bv_omega
  have hle : m.start.toNat ≤ hi.toNat := hmeets.1
  have hdiff : (hi + 1 - m.start).toNat = hi.toNat + 1 - m.start.toNat := by bv_omega
  have hoffset : (m.offset + (hi + 1 - m.start)).toNat ≤
      m.offset.toNat + (hi.toNat + 1 - m.start.toNat) := by
    rw [BitVec.toNat_add, hdiff]
    exact Nat.mod_le _ _
  have hlt : hi.toNat < m.last.toNat := hcross
  change m.offset.toNat + (m.last.toNat + 1 - m.start.toNat) * 4096 ≤ _ at h
  change (m.offset + (hi + 1 - m.start)).toNat +
    (m.last.toNat + 1 - (hi + 1).toNat) * 4096 ≤ _
  omega

lemma Mapping.Fits.cut {m : Mapping} (h : m.Fits boSize) : (m.cut lo hi).Fits boSize := by
  have hstart : m.start.toNat ≤ (m.cut lo hi).start.toNat := by
    simp only [Mapping.cut]
    split_ifs <;> bv_omega
  have hlast : (m.cut lo hi).last.toNat ≤ m.last.toNat := by
    simp only [Mapping.cut]
    split_ifs <;> bv_omega
  refine le_trans (Nat.add_le_add_left (Nat.mul_le_mul_right _ ?_) _) h
  omega

section

variable (hs : ClearSpec lo hi vm vm')

include hs

lemma ClearSpec.fits (h : Consistent vm)
    (hsize : vm.boSize b = some boSize) (hm : vm'.OnList b m) : (vm'.mapping m).Fits boSize := by
  by_cases hnext : m = vm.next
  · subst hnext
    obtain ⟨t, ht, hcross, hon⟩ := (hs.headOnList b).1 hm
    rw [hs.head t ht hcross]
    exact (h.fits b boSize hsize t hon).head ((mem_removed lo hi).1 ht).2 hcross
  · by_cases hnext' : m = vm.next + 1
    · subst hnext'
      obtain ⟨t, ht, hcross, hon⟩ := (hs.tailOnList b).1 hm
      rw [hs.tail t ht hcross]
      exact (h.fits b boSize hsize t hon).tail ((mem_removed lo hi).1 ht).2 hcross
    · have hon := hs.ofOnList b m hnext hnext' hm
      have hfits := h.fits b boSize hsize m hon
      by_cases hr : m ∈ removed lo hi vm
      · rw [hs.cut m hr]
        exact hfits.cut
      · rw [hs.kept m (h.freshList b m hon) hr]
        exact hfits

lemma ClearSpec.outside (h : WellFormed vm) (hm : m ∈ vm'.mappings) :
    (vm'.mapping m).start ≤ (vm'.mapping m).last ∧ ¬ (vm'.mapping m).Meets lo hi := by
  rcases (hs.mem m).1 hm with ⟨hmem, hmeets⟩ | ⟨rfl, t, ht, hcross⟩ | ⟨rfl, t, ht, hcross⟩
  · rw [hs.kept m (h.fresh m hmem) fun hr => hmeets ((mem_removed lo hi).1 hr).2]
    exact ⟨h.proper m hmem, hmeets⟩
  · rw [hs.head t ht hcross]
    simp only [Mapping.head, Mapping.Meets]
    bv_omega
  · rw [hs.tail t ht hcross]
    simp only [Mapping.tail, Mapping.Meets]
    bv_omega

lemma ClearSpec.consistent (h : Consistent vm) (hle : lo ≤ hi)
    (hhi : hi.toNat + 1 < 2 ^ 64) : Consistent vm' := by
  constructor
  · constructor
    · exact hs.tree
    · exact fun m hm => (hs.outside h.toWellFormed hm).1
    · exact hs.disjoint h.toWellFormed hhi hle
    · intro m hm
      rw [hs.next]
      rcases (hs.mem m).1 hm with ⟨hmem, -⟩ | ⟨rfl, -⟩ | ⟨rfl, -⟩
      · exact Nat.lt_add_right 2 (h.fresh m hmem)
      · exact Nat.lt_add_of_pos_right Nat.two_pos
      · exact Nat.lt_succ_self _
    · intro b m hm
      rw [hs.next]
      by_cases hnext : m = vm.next
      · exact hnext ▸ Nat.lt_add_of_pos_right Nat.two_pos
      · by_cases hnext' : m = vm.next + 1
        · exact hnext' ▸ Nat.lt_succ_self _
        · exact Nat.lt_add_right 2 (h.freshList b m (hs.ofOnList b m hnext hnext' hm))
  · intro m hm
    rcases (hs.mem m).1 hm with ⟨hmem, hmeets⟩ | ⟨rfl, t, ht, hcross⟩ | ⟨rfl, t, ht, hcross⟩
    · obtain ⟨b, hb⟩ := h.listed m hmem
      exact ⟨b, hs.onList b m (fun hr => hmeets ((mem_removed lo hi).1 hr).2) hb⟩
    · obtain ⟨b, hb⟩ := h.listed t ((mem_removed lo hi).1 ht).1
      exact ⟨b, (hs.headOnList b).2 ⟨t, ht, hcross, hb⟩⟩
    · obtain ⟨b, hb⟩ := h.listed t ((mem_removed lo hi).1 ht).1
      exact ⟨b, (hs.tailOnList b).2 ⟨t, ht, hcross, hb⟩⟩
  · intro b boSize hsize m hm
    rw [hs.boSize] at hsize
    exact hs.fits h hsize hm

end

lemma Consistent.insertMap (h : Consistent vm) (hm : m < vm.next) (htree : m ∉ vm.mappings)
    (hlist : ∀ b, ¬ vm.OnList b m)
    (hproper : saddr / gpuPageSize ≤ (saddr + size - 1) / gpuPageSize) (hmeets : ∀ t ∈ vm.mappings,
      ¬ (vm.mapping t).Meets (saddr / gpuPageSize) ((saddr + size - 1) / gpuPageSize))
    (hfits : ∀ boSize, vm.boSize b = some boSize →
      Mapping.Fits ⟨some b, saddr / gpuPageSize, (saddr + size - 1) / gpuPageSize, offset, flags⟩
        boSize) :
    Consistent (insertMap (newMapping vm m saddr offset size flags) b m) := by
  obtain ⟨vm', hvm'⟩ : ∃ vm',
    Amdgpu.insertMap (newMapping vm m saddr offset size flags) b m = vm' := ⟨_, rfl⟩
  obtain ⟨new, hnew⟩ : ∃ new : Mapping, ⟨some b, saddr / gpuPageSize,
    (saddr + size - 1) / gpuPageSize, offset, flags⟩ = new := ⟨_, rfl⟩
  have hself : vm'.mapping m = new := by
    subst hvm' hnew
    simp [Amdgpu.insertMap, newMapping, Vm.modify, Vm.itInsert]
  have hother : ∀ x, x ≠ m → vm'.mapping x = vm.mapping x := by
    subst hvm'
    intro x hx
    simp [Amdgpu.insertMap, newMapping, Vm.modify, Vm.itInsert, hx]
  have hne : ∀ x ∈ vm.mappings, x ≠ m := fun x hx hxm => htree (hxm ▸ hx)
  have hold : IntervalTree.Valid vm'.itStart vm'.itLast vm.va := by
    refine @valid_congr vm { vm' with va := vm.va } h.tree rfl fun x hx => ?_
    exact hother x (hne x hx)
  have hva : vm'.va = IntervalTree.insert vm'.itStart vm'.itLast m vm.va := by
    subst hvm'
    rfl
  have hmem : ∀ x, x ∈ vm'.mappings ↔ x = m ∨ x ∈ vm.mappings := by
    intro x
    rw [Vm.mappings, hva]
    exact hold.mem_insert m x
  have honlist : ∀ b' x, vm'.OnList b' x ↔ vm.OnList b' x ∨ (x = m ∧ b' = b) := by
    subst hvm'
    intro b' x
    by_cases hb : b' = b
    · subst hb
      simp [Vm.OnList, Amdgpu.insertMap, Vm.itInsert]
      tauto
    · simp [Vm.OnList, Amdgpu.insertMap, newMapping, Vm.modify, Vm.itInsert, hb]
  have hsize' : vm'.boSize = vm.boSize ∧ vm'.next = vm.next := by
    subst hvm'
    exact ⟨rfl, rfl⟩
  have hnotboth : ∀ x ∈ vm.mappings, ∀ page, (vm.mapping x).Covers page → ¬ new.Covers page := by
    rintro x hx page ⟨h1, h2⟩ ⟨h3, h4⟩
    subst hnew
    exact hmeets x hx ⟨BitVec.le_trans h1 h4, BitVec.le_trans h3 h2⟩
  rw [hvm']
  rw [hnew] at hfits
  constructor
  · constructor
    · rw [hva]
      exact hold.insert htree
    · intro x hx
      rcases (hmem x).1 hx with rfl | hx
      · rw [hself, ← hnew]
        exact hproper
      · rw [hother x (hne x hx)]
        exact h.proper x hx
    · intro x hx y hy page hcx hcy
      rcases (hmem x).1 hx with rfl | hx' <;> rcases (hmem y).1 hy with rfl | hy'
      · rfl
      · rw [hself] at hcx
        rw [hother y (hne y hy')] at hcy
        exact absurd hcx (hnotboth y hy' page hcy)
      · rw [hself] at hcy
        rw [hother x (hne x hx')] at hcx
        exact absurd hcy (hnotboth x hx' page hcx)
      · rw [hother x (hne x hx')] at hcx
        rw [hother y (hne y hy')] at hcy
        exact h.disjoint x hx' y hy' page hcx hcy
    · intro x hx
      rw [hsize'.2]
      rcases (hmem x).1 hx with rfl | hx
      · exact hm
      · exact h.fresh x hx
    · intro b' x hx
      rw [hsize'.2]
      rcases (honlist b' x).1 hx with hx | ⟨rfl, -⟩
      · exact h.freshList b' x hx
      · exact hm
  · intro x hx
    rcases (hmem x).1 hx with rfl | hx
    · exact ⟨b, (honlist b x).2 (.inr ⟨rfl, rfl⟩)⟩
    · obtain ⟨b', hb'⟩ := h.listed x hx
      exact ⟨b', (honlist b' x).2 (.inl hb')⟩
  · intro b' boSize hsize x hx
    rw [hsize'.1] at hsize
    rcases (honlist b' x).1 hx with hx | ⟨rfl, rfl⟩
    · have hxm : x ≠ m := fun hxm => hlist b' (hxm ▸ hx)
      rw [hother x hxm]
      exact h.fits b' boSize hsize x hx
    · rw [hself]
      exact hfits boSize hsize

section

variable (hsaddr : saddr.toNat % 4096 = 0) (hsize : size.toNat % 4096 = 0) (hpos : 0 < size.toNat)
  (hwrap : saddr.toNat + size.toNat ≤ 2 ^ 64)

include hsaddr hsize hpos hwrap

lemma fits_newMapping
    (hsum : offset.toNat + size.toNat < 2 ^ 64) (hle : (offset + size).toNat ≤ boSize.toNat) :
    Mapping.Fits ⟨some b, saddr / gpuPageSize, (saddr + size - 1) / gpuPageSize, offset, flags⟩
      boSize := by
  obtain ⟨hlo, hhi⟩ := pages_of_range hsaddr hsize hpos hwrap
  have hadd : (offset + size).toNat = offset.toNat + size.toNat := by bv_omega
  change offset.toNat + (((saddr + size - 1) / gpuPageSize).toNat + 1 -
    (saddr / gpuPageSize).toNat) * 4096 ≤ _
  omega

lemma pages_le :
    saddr / gpuPageSize ≤ (saddr + size - 1) / gpuPageSize ∧
      ((saddr + size - 1) / gpuPageSize).toNat + 1 < 2 ^ 64 := by
  obtain ⟨hlo, hhi⟩ := pages_of_range hsaddr hsize hpos hwrap
  rw [BitVec.le_def]
  omega

end

lemma Consistent.bump (h : Consistent vm) : Consistent { vm with next := vm.next + 1 } :=
  h.congr rfl rfl rfl rfl (Nat.le_succ _) (fun _ => rfl) (fun _ => rfl) fun _ => rfl

lemma Consistent.boMap (h : Consistent vm) {alloc : Bool}
    (hsum : (vm.boSize b).isSome = true → offset.toNat + size.toNat < 2 ^ 64) :
    Consistent (boMap vm b saddr offset size flags alloc).1 := by
  unfold Amdgpu.boMap
  by_cases hbad : badParameters vm b saddr offset size = true
  · rwa [if_pos hbad]
  rw [if_neg hbad]
  rw [Bool.not_eq_true] at hbad
  obtain ⟨hs, hz, hpos, hwrap, hbo⟩ := range_of_not_badParameters hbad
  cases hfirst : vm.itFirst (saddr / gpuPageSize) ((saddr + size - 1) / gpuPageSize) with
  | some tmp => exact h
  | none =>
    cases alloc with
    | false => exact h
    | true =>
      refine h.bump.insertMap (Nat.lt_succ_self _) (fun hm => (h.fresh _ hm).false)
        (fun b' hm => (h.freshList b' _ hm).false) (pages_le hs hz hpos hwrap).1 ?_ ?_
      · intro t ht hmeets
        rw [Vm.itFirst, h.tree.iterFirst_eq, List.find?_eq_none] at hfirst
        refine hfirst t ht ?_
        rw [meets_eq]
        exact decide_eq_true hmeets
      · intro boSize hsome
        exact fits_newMapping hs hz hpos hwrap
          (hsum (Option.isSome_iff_exists.2 ⟨boSize, hsome⟩)) (hbo boSize hsome)

lemma clearMappings_cases (vm : Vm) (saddr size : U64) (allocBefore allocAfter : Bool) :
    clearMappings vm saddr size allocBefore allocAfter = (vm, .enomem) ∨
      ∃ vm', clearMappings vm saddr size allocBefore allocAfter = (vm', .ok) := by
  unfold clearMappings
  by_cases h : (!allocBefore || !allocAfter) = true
  · rw [if_pos h]
    exact .inl rfl
  · rw [if_neg h]
    exact .inr ⟨_, rfl⟩

lemma Consistent.boReplaceMap (h : Consistent vm) {alloc allocBefore allocAfter : Bool}
    (hsum : (vm.boSize b).isSome = true → offset.toNat + size.toNat < 2 ^ 64) :
    Consistent (boReplaceMap vm b saddr offset size flags alloc allocBefore allocAfter).1 := by
  unfold Amdgpu.boReplaceMap
  by_cases hbad : badParameters vm b saddr offset size = true
  · rwa [if_pos hbad]
  rw [if_neg hbad]
  rw [Bool.not_eq_true] at hbad
  obtain ⟨hs, hz, hpos, hwrap, hbo⟩ := range_of_not_badParameters hbad
  obtain ⟨hle, hhi⟩ := pages_le hs hz hpos hwrap
  cases alloc with
  | false => exact h
  | true =>
    rcases clearMappings_cases { vm with next := vm.next + 1 } saddr size allocBefore allocAfter
      with hret | ⟨vm', hret⟩
    · rw [hret]
      exact h.bump
    · rw [hret]
      have hspec := clearMappings_spec h.bump.toWellFormed hret
      have hne : vm.next ≠ vm.next + 1 := (Nat.lt_succ_self _).ne
      have hne' : vm.next ≠ vm.next + 1 + 1 := (Nat.lt_add_of_pos_right Nat.two_pos).ne
      refine (hspec.consistent h.bump hle hhi).insertMap ?_ ?_ ?_ hle ?_ ?_
      · rw [hspec.next]
        exact Nat.lt_add_of_pos_right (Nat.succ_pos 2)
      · intro hm
        rcases (hspec.mem _).1 hm with ⟨hm, -⟩ | ⟨hm, -⟩ | ⟨hm, -⟩
        · exact (h.fresh _ hm).false
        · exact hne hm
        · exact hne' hm
      · intro b' hm
        exact (h.freshList b' _ (hspec.ofOnList b' _ hne hne' hm)).false
      · exact fun t ht => (hspec.outside h.bump.toWellFormed ht).2
      · intro boSize hsome
        rw [hspec.boSize] at hsome
        exact fits_newMapping hs hz hpos hwrap
          (hsum (Option.isSome_iff_exists.2 ⟨boSize, hsome⟩)) (hbo boSize hsome)

lemma Consistent.step (h : Consistent vm) {op : Op} (hcond : op.NoWrap vm)
    (hstep : step op vm = some vm') : Consistent vm' := by
  unfold Amdgpu.step at hstep
  rw [Option.ite_none_right_eq_some] at hstep
  obtain ⟨-, hstep⟩ := hstep
  cases op with
  | map b saddr offset size flags alloc =>
    cases hstep
    exact h.boMap hcond
  | replaceMap b saddr offset size flags alloc allocBefore allocAfter =>
    cases hstep
    exact h.boReplaceMap hcond
  | unmap b saddr =>
    cases hstep
    exact h.boUnmap b saddr
  | rmv b =>
    cases hstep
    exact h.boRmv b

end

/-- A VM without mappings, as `amdgpu_vm_init` leaves it, with the given buffer objects. -/
def initVm (boSize : BoVaId → Option U64) : Vm where
  va := .empty
  mapping := fun _ => ⟨none, 0, 0, 0, 0⟩
  valids := fun _ => []
  invalids := fun _ => []
  freed := []
  boSize := boSize
  live := fun _ => true
  next := 0

lemma consistent_initVm (boSize : BoVaId → Option U64) : Consistent (initVm boSize) where
  tree := IntervalTree.valid_empty _ _
  proper _ hm := absurd hm not_mem_nil
  disjoint _ hm := absurd hm not_mem_nil
  fresh _ hm := absurd hm not_mem_nil
  freshList _ _ hm := (hm.elim not_mem_nil not_mem_nil).elim
  listed _ hm := absurd hm not_mem_nil
  fits _ _ _ _ hm := (hm.elim not_mem_nil not_mem_nil).elim

/-- **The mappings of a VM.** In every run whose calls do not wrap the sum of offset and size, the
mappings of the VM are disjoint, every mapping belongs to a `bo_va`, and every mapping of a
buffer object lies within it. -/
theorem mappings_consistent {vm vm' : Vm} (hinit : Consistent vm)
    (hrun : Machine.Runs step (fun vm op => op.NoWrap vm) vm vm') :
    PagesDisjoint vm' ∧ (∀ m ∈ vm'.mappings, ∃ b, vm'.OnList b m) ∧
      ∀ b boSize, vm'.boSize b = some boSize → ∀ m, vm'.OnList b m →
        (vm'.mapping m).offset.toNat + (vm'.mapping m).bytes ≤ boSize.toNat := by
  have h : Consistent vm' := hrun.invariant hinit fun vm op vm' hvm hcond hstep =>
    hvm.step hcond hstep
  exact ⟨h.disjoint, h.listed, h.fits⟩

/-- Two calls: map the pages 16 to 31, then replace the pages 20 to 23 by those of another buffer
object. -/
def replaceRun : List Op :=
  [.map 0 0x10000 0 0x10000 1 true, .replaceMap 1 0x14000 0x1000 0x4000 1 true true true]

/-- The run that splits a mapping in two ends with three mappings. -/
theorem mappings_consistent_replace :
    ∃ vm', Machine.Runs step (fun vm op => op.NoWrap vm) (initVm fun _ => some 0x10000) vm' ∧
      vm'.mappings.length = 3 ∧ PagesDisjoint vm' ∧ (∀ m ∈ vm'.mappings, ∃ b, vm'.OnList b m) ∧
      ∀ b boSize, vm'.boSize b = some boSize → ∀ m, vm'.OnList b m →
        (vm'.mapping m).offset.toNat + (vm'.mapping m).bytes ≤ boSize.toNat := by
  obtain ⟨vm', hexec, hlen⟩ := Option.map_eq_some_iff.1
    (show (Machine.execIf step (fun vm op => op.NoWrap vm) (initVm fun _ => some 0x10000)
      replaceRun).map (fun vm => vm.mappings.length) = some 3 by decide +kernel)
  have hrun := Machine.execIf_runs hexec
  exact ⟨vm', hrun, hlen, mappings_consistent (consistent_initVm _) hrun⟩

/-- A call whose sum of offset and size wraps: two pages, of which the first would start 4096
bytes before the end of the 64-bit range, are mapped from a buffer object of one page. -/
theorem mapping_past_end :
    ∃ vm', Machine.exec step (initVm fun _ => some 0x1000)
        [.map 0 0x10000 0xfffffffffffff000 0x2000 1 true] = some vm' ∧
      vm'.boSize 0 = some 0x1000 ∧
      ∃ m, vm'.OnList 0 m ∧
        ¬ (vm'.mapping m).offset.toNat + (vm'.mapping m).bytes ≤ (0x1000 : U64).toNat := by
  refine ⟨_, rfl, rfl, 0, ?_⟩
  unfold Vm.OnList
  decide +kernel

end KmsDrm.Amdgpu
