import KmsDrm.Amdgpu.Vm.PageTables

/-!
# Huge page directory entries of an amdgpu VM

What a sequence of page table updates makes of the translation of a page. A block that was
updated as a whole is huge and its page table is stale; an update of a part of the block makes
the directory point to that stale page table again, and the pages of the block that this update
does not cover lose what the update of the whole block said about them.

## Main results

* `Amdgpu.updatePtes_block` — the code refines the abstract model.
* `Amdgpu.walk_last_iff` — when the translation of a page is the one of the last update that
  covered it.
-/

namespace KmsDrm.Amdgpu

open Function (update update_of_ne update_self)
open List

variable {dev : Device}

variable {vm : PageTables} {u : Update} {addr page stop : ℕ}

/-! ## The way to a page table -/

lemma pteCount_eq (dev : Device) : pteCount dev = 2 ^ dev.blockSize := Nat.one_shiftLeft _

lemma pteCount_pos (dev : Device) : 0 < pteCount dev := by
  rw [pteCount_eq]
  exact Nat.two_pow_pos _

lemma block_bounds (dev : Device) (addr : ℕ) :
    addr / pteCount dev * pteCount dev + addr % pteCount dev = addr ∧
      addr % pteCount dev < pteCount dev ∧
      (addr / pteCount dev + 1) * pteCount dev =
        addr / pteCount dev * pteCount dev + pteCount dev :=
  ⟨Nat.div_add_mod' _ _, Nat.mod_lt _ (pteCount_pos dev), Nat.succ_mul _ _⟩

lemma and_mask (dev : Device) (addr : ℕ) : addr &&& (pteCount dev - 1) = addr % pteCount dev := by
  rw [pteCount_eq, Nat.and_two_pow_sub_one_eq_mod]

/-- A VM whose directories and page tables all exist, at addresses that a directory entry can
hold. -/
structure Allocated (dev : Device) (vm : PageTables) : Prop where
  root : dev.rootLevel ≤ pdb0
  hasEntries : ∀ q, vm.hasEntries q = decide (dev.rootLevel + q.length < ptb)
  tables : ∀ q, (tablePde dev vm q).isSome = true

/-- The indices of an address, with `d` levels to go. -/
def pathFrom (dev : Device) : ℕ → ℕ → Path
  | 0, _ => []
  | d + 1, addr =>
    addr / 2 ^ (9 * d + dev.blockSize) ::
      pathFrom dev d (addr % 2 ^ (9 * d + dev.blockSize))

def tableOf (dev : Device) (addr : ℕ) : Path := pathFrom dev (ptb - dev.rootLevel) addr

lemma getEntryLoop_eq (h : Allocated dev vm) {d turns : ℕ} (path : Path) (addr : ℕ)
    (hd : dev.rootLevel + path.length + d = ptb) (hturns : d < turns) :
    getEntryLoop dev vm turns path (dev.rootLevel + path.length) addr =
      (path ++ pathFrom dev d addr, ptb) := by
  induction d generalizing turns path addr with
  | zero =>
    obtain ⟨turns, rfl⟩ := Nat.exists_eq_succ_of_ne_zero (Nat.ne_zero_of_lt hturns)
    have hleaf : vm.hasEntries path = false := by
      rw [h.hasEntries, decide_eq_false_iff_not]
      omega
    rw [getEntryLoop, hleaf, pathFrom]
    simpa using hd
  | succ d ih =>
    obtain ⟨turns, rfl⟩ := Nat.exists_eq_succ_of_ne_zero (Nat.ne_zero_of_lt hturns)
    have hdir : vm.hasEntries path = true := by
      rw [h.hasEntries, decide_eq_true_eq]
      omega
    have hshift : levelShift dev (dev.rootLevel + path.length) = 9 * d + dev.blockSize := by
      have : dev.rootLevel + path.length ≤ pdb0 := by simp only [pdb0, ptb] at *; omega
      rw [levelShift, if_pos this]
      simp only [pdb0, ptb] at *
      omega
    have hnext := ih (path ++ [addr / 2 ^ (9 * d + dev.blockSize)])
      (addr % 2 ^ (9 * d + dev.blockSize)) (by simp; omega) (Nat.lt_of_succ_lt_succ hturns)
    rw [length_append, length_singleton, ← Nat.add_assoc] at hnext
    rw [getEntryLoop, hdir, hshift]
    dsimp only
    rw [Nat.shiftRight_eq_div_pow, Nat.one_shiftLeft, Nat.and_two_pow_sub_one_eq_mod, hnext,
      pathFrom]
    simp

lemma getEntry_eq (h : Allocated dev vm) (addr : ℕ) :
    getEntry dev vm addr = some (tableOf dev addr) := by
  have hroot := h.root
  have hloop : getEntryLoop dev vm (ptb + 1) [] (dev.rootLevel + ([] : Path).length) addr =
      ([] ++ tableOf dev addr, ptb) :=
    getEntryLoop_eq h [] addr (by simp only [pdb0, ptb, length_nil] at *; omega) (by omega)
  simp only [length_nil, Nat.add_zero] at hloop
  rw [getEntry, hloop]
  simp

lemma pathFrom_eq_iff (d a b : ℕ) :
    pathFrom dev (d + 1) a = pathFrom dev (d + 1) b ↔ a / pteCount dev = b / pteCount dev := by
  induction d generalizing a b with
  | zero => simp [pathFrom, pteCount_eq]
  | succ d ih =>
    have hsplit : 2 ^ (9 * (d + 1) + dev.blockSize) = pteCount dev * 2 ^ (9 * (d + 1)) := by
      rw [pteCount_eq, ← Nat.pow_add, Nat.add_comm]
    have hcons : ∀ a, pathFrom dev (d + 1 + 1) a = a / 2 ^ (9 * (d + 1) + dev.blockSize) ::
        pathFrom dev (d + 1) (a % 2 ^ (9 * (d + 1) + dev.blockSize)) := fun _ => rfl
    rw [hcons, hcons, List.cons.injEq, ih, hsplit, Nat.mod_mul_right_div_self,
      Nat.mod_mul_right_div_self, ← Nat.div_div_eq_div_mul, ← Nat.div_div_eq_div_mul]
    constructor
    · rintro ⟨hdiv, hmod⟩
      rw [← Nat.div_add_mod (a / pteCount dev) (2 ^ (9 * (d + 1))), hdiv, hmod, Nat.div_add_mod]
    · intro h
      rw [h]
      exact ⟨rfl, rfl⟩

lemma tableOf_eq_iff (hroot : dev.rootLevel ≤ pdb0) (a b : ℕ) :
    tableOf dev a = tableOf dev b ↔ a / pteCount dev = b / pteCount dev := by
  obtain ⟨d, hd⟩ : ∃ d, ptb - dev.rootLevel = d + 1 := by
    refine Nat.exists_eq_succ_of_ne_zero ?_
    simp only [pdb0, ptb] at *
    omega
  rw [tableOf, tableOf, hd, pathFrom_eq_iff]

/-! ## The abstract model -/

/-- A block of pages: whether its directory entry is huge, that entry, and its page table. -/
@[ext] structure Block where
  huge : Bool
  pde : Entry
  pte : ℕ → Entry

/-- The block that has its page table at the end of the path. -/
def PageTables.block (vm : PageTables) (q : Path) : Block := ⟨vm.huge q, vm.pde q, vm.pte q⟩

/-- What an update says about a page. -/
def Update.entry (u : Update) (page : ℕ) : Entry :=
  ⟨u.dst + BitVec.ofNat 64 ((page - u.start) * 4096), u.flags⟩

def Update.Covers (u : Update) (page : ℕ) : Prop := u.start ≤ page ∧ page < u.stop

instance Update.decidableCovers (u : Update) (page : ℕ) : Decidable (u.Covers page) :=
  inferInstanceAs (Decidable (_ ∧ _))

/-- The update covers some page of the block. -/
def Update.Touches (dev : Device) (u : Update) (b : ℕ) : Prop :=
  u.start < u.stop ∧ u.start < (b + 1) * pteCount dev ∧ b * pteCount dev < u.stop

def Update.CoversBlock (dev : Device) (u : Update) (b : ℕ) : Prop :=
  u.start ≤ b * pteCount dev ∧ (b + 1) * pteCount dev ≤ u.stop

instance Update.decidableTouches (u : Update) (b : ℕ) : Decidable (u.Touches dev b) :=
  inferInstanceAs (Decidable (_ ∧ _))

instance Update.decidableCoversBlock (u : Update) (b : ℕ) : Decidable (u.CoversBlock dev b) :=
  inferInstanceAs (Decidable (_ ∧ _))

/-- The directory entry of a huge block. -/
def hugePde (dev : Device) (e : Entry) : Entry :=
  ⟨e.addr, if dev.translateFurther then (e.flags ||| pdePte) &&& ~~~pdePte else e.flags ||| pdePte⟩

/-- What an update makes of a block: a block that it covers becomes huge, a block that it touches
has the entries of the pages it covers written and is not huge. -/
def Update.apply (dev : Device) (u : Update) (b : ℕ) (blk : Block) : Block :=
  if u.CoversBlock dev b then
    { blk with huge := true, pde := hugePde dev (u.entry (b * pteCount dev)) }
  else if u.Touches dev b then
    { blk with
      huge := false
      pte := fun i =>
        if u.Covers (b * pteCount dev + i) ∧ i < pteCount dev then
          u.entry (b * pteCount dev + i)
        else blk.pte i }
  else blk

/-- The destinations of the blocks that the update covers pass the `BUG_ON` on the address of a
directory entry. -/
def Update.Encodable (dev : Device) (u : Update) : Prop :=
  ∀ b, u.CoversBlock dev b → (u.entry (b * pteCount dev)).addr &&& 0xFFFF00000000003F = 0

/-- The update keeps off the flag that marks a directory entry as a page table entry. -/
def Update.PlainFlags (u : Update) : Prop := u.flags &&& pdePte = 0

instance Update.decidablePlainFlags (u : Update) : Decidable u.PlainFlags :=
  inferInstanceAs (Decidable (_ = _))

lemma or_pdePte_ne_zero (flags : U64) : (flags ||| pdePte) &&& pdePte ≠ 0 := by
  intro h
  have h54 := congrArg (fun x : U64 => x.getLsbD 54) h
  simp [pdePte] at h54

lemma getVmPde_huge {e : Entry} (haddr : e.addr &&& 0xFFFF00000000003F = 0) :
    getVmPde dev pdb0 e.addr (e.flags ||| pdePte) = some (hugePde dev e) := by
  have hflag : ¬ (e.flags ||| pdePte) &&& pdePte = 0 := or_pdePte_ne_zero _
  unfold getVmPde hugePde
  simp only [if_neg hflag, haddr]
  cases dev.translateFurther <;> simp [pdb0, pdb1]

/-! ## One turn of the loop -/

lemma nptes_pos (h : addr < stop) : 0 < nptes dev addr stop := by
  unfold nptes
  split_ifs with hblock
  · omega
  · rw [and_mask]
    have := Nat.mod_lt addr (pteCount_pos dev)
    omega

lemma add_nptes (h : addr < stop) :
    addr + nptes dev addr stop = min stop ((addr / pteCount dev + 1) * pteCount dev) := by
  obtain ⟨haddr, hmod, hmul⟩ := block_bounds dev addr
  unfold nptes
  split_ifs with hblock
  · obtain ⟨hstop, hlt, -⟩ := block_bounds dev stop
    rw [← hblock] at hstop
    omega
  · rw [and_mask]
    have hlt : addr / pteCount dev < stop / pteCount dev :=
      lt_of_le_of_ne (Nat.div_le_div_right h.le) hblock
    have hle := Nat.mul_le_of_le_div _ _ _ hlt
    rw [Nat.succ_eq_add_one] at hle
    omega

lemma nptes_eq_pteCount_iff (h : u.start < u.stop) :
    nptes dev u.start u.stop = pteCount dev ↔ u.CoversBlock dev (u.start / pteCount dev) := by
  have hadd : u.start + nptes dev u.start u.stop = _ := add_nptes h
  obtain ⟨haddr, hmod, hmul⟩ := block_bounds dev u.start
  rw [Update.CoversBlock]
  omega

/-- What the updates of the page tables leave for `amdgpu_vm_update_directories`: the entry of a
directory or table that is not huge points to it, unless it is on `vm->relocated`; and only page
tables are huge. -/
structure Ready (dev : Device) (vm : PageTables) : Prop where
  pde : ∀ q, vm.huge q = false → q ≠ [] →
    tablePde dev vm q = some (vm.pde q) ∨ q ∈ vm.relocated
  huge : ∀ q, vm.huge q = true → dev.rootLevel + q.length = ptb

/-- What a part of the update `u` has done that touches one block only. -/
structure BlockUpdated (dev : Device) (u : Update) (vm vm' : PageTables) : Prop where
  here : vm'.block (tableOf dev u.start) =
    u.apply dev (u.start / pteCount dev) (vm.block (tableOf dev u.start))
  other : ∀ q, q ≠ tableOf dev u.start → vm'.block q = vm.block q
  allocated : Allocated dev vm'
  ready : Ready dev vm'

lemma length_tableOf (hroot : dev.rootLevel ≤ pdb0) (addr : ℕ) :
    dev.rootLevel + (tableOf dev addr).length = ptb := by
  have hlen : ∀ d a, (pathFrom dev d a).length = d := by
    intro d
    induction d with
    | zero => exact fun _ => rfl
    | succ d ih => exact fun a => by rw [pathFrom, length_cons, ih]
  rw [tableOf, hlen]
  simp only [pdb0, ptb] at *
  omega

section

variable (h : Allocated dev vm) (hready : Ready dev vm)

include h hready

lemma BlockUpdated.setHuge
    (hcov : u.CoversBlock dev (u.start / pteCount dev))
    (hstart : u.start = u.start / pteCount dev * pteCount dev) :
    BlockUpdated dev u vm { vm with
      huge := update vm.huge (tableOf dev u.start) true
      pde := update vm.pde (tableOf dev u.start) (hugePde dev (u.entry u.start)) } where
  here := by
    rw [Update.apply, if_pos hcov, ← hstart]
    simp [PageTables.block]
  other q hq := by simp [PageTables.block, hq]
  allocated := { h with }
  ready := by
    constructor
    · intro q hhuge hne
      have hq : q ≠ tableOf dev u.start := by
        rintro rfl
        simp at hhuge
      simp only [update_of_ne hq] at hhuge ⊢
      exact hready.pde q hhuge hne
    · intro q hhuge
      by_cases hq : q = tableOf dev u.start
      · rw [hq]
        exact length_tableOf h.root _
      · simp only [update_of_ne hq] at hhuge
        exact hready.huge q hhuge

/-- The state in which the page table of a block is written: the block is not huge, or is put on
`vm->relocated` to be no longer huge. -/
def unhuge (vm : PageTables) (q : Path) : PageTables :=
  if vm.huge q then
    { vm with
      huge := update vm.huge q false
      relocated := q :: vm.relocated.erase q }
  else vm

lemma unhuge_spec (q : Path) :
    (unhuge vm q).block q = { vm.block q with huge := false } ∧
      (∀ p, p ≠ q → (unhuge vm q).block p = vm.block p) ∧ Allocated dev (unhuge vm q) ∧
      Ready dev (unhuge vm q) := by
  unfold unhuge
  by_cases hhuge : vm.huge q = true
  · rw [if_pos hhuge]
    refine ⟨by simp [PageTables.block], fun p hp => by simp [PageTables.block, hp],
      { h with }, ⟨fun p hp hne => ?_, fun p hp => ?_⟩⟩
    · by_cases hpq : p = q
      · exact .inr (by simp [hpq])
      · simp only [update_of_ne hpq] at hp
        refine (hready.pde p hp hne).imp id fun hmem => ?_
        exact .tail _ ((mem_erase_of_ne hpq).2 hmem)
    · have hpq : p ≠ q := by
        rintro rfl
        simp at hp
      simp only [update_of_ne hpq] at hp
      exact hready.huge p hp
  · rw [if_neg hhuge]
    refine ⟨?_, fun _ _ => rfl, h, hready⟩
    simp [PageTables.block, hhuge]

lemma BlockUpdated.setPart (hlt : u.start < u.stop)
    (hcov : ¬ u.CoversBlock dev (u.start / pteCount dev)) :
    BlockUpdated dev u vm (setPtes (unhuge vm (tableOf dev u.start)) (tableOf dev u.start)
      (u.start % pteCount dev) (nptes dev u.start u.stop) u.dst u.flags) := by
  obtain ⟨hself, hother, halloc, hready'⟩ := unhuge_spec h hready (tableOf dev u.start)
  have hadd : u.start + nptes dev u.start u.stop = _ := add_nptes hlt
  obtain ⟨hdiv, hmod, hmul⟩ := block_bounds dev u.start
  have htouch : u.Touches dev (u.start / pteCount dev) := by
    refine ⟨hlt, ?_, ?_⟩ <;> omega
  refine ⟨?_, fun q hq => ?_, { halloc with }, { hready' with }⟩
  · rw [Update.apply, if_neg hcov, if_pos htouch]
    obtain ⟨hh, hp, ht⟩ := Block.mk.injEq .. ▸ hself
    ext1
    · exact hh
    · exact hp
    · funext i
      change update (unhuge vm _).pte _ _ _ _ = _
      rw [update_self]
      have hcond : (u.start % pteCount dev ≤ i ∧
          i < u.start % pteCount dev + nptes dev u.start u.stop) ↔
          (u.Covers (u.start / pteCount dev * pteCount dev + i) ∧ i < pteCount dev) := by
        unfold Update.Covers
        omega
      by_cases hc : u.Covers (u.start / pteCount dev * pteCount dev + i) ∧ i < pteCount dev
      · simp only [if_pos (hcond.2 hc), if_pos hc]
        congr 4
        omega
      · simp only [if_neg (mt hcond.1 hc), if_neg hc]
        exact congrFun ht i
  · rw [← hother q hq]
    simp [PageTables.block, setPtes, hq]

/-- **One turn of the loop of `amdgpu_vm_update_ptes`.** It does what the update says about the
block of the current address, and nothing else. -/
theorem updateBlock_spec (hlt : u.start < u.stop)
    (henc : u.Encodable dev) (hflags : u.PlainFlags) :
    ∃ vm', updateBlock dev vm u.start u.stop u.dst u.flags = .ok vm' ∧
      BlockUpdated dev u vm vm' := by
  by_cases hcov : u.CoversBlock dev (u.start / pteCount dev)
  · have hstart : u.start = u.start / pteCount dev * pteCount dev :=
      le_antisymm hcov.1 (Nat.div_mul_le_self _ _)
    have hentry : u.entry u.start = ⟨u.dst, u.flags⟩ := by simp [Update.entry]
    have haddr := henc _ hcov
    rw [← hstart] at haddr
    have hpde : getVmPde dev pdb0 _ _ = _ := getVmPde_huge haddr
    simp only [hentry] at hpde
    have hflag : ¬ (u.flags ||| pdePte) &&& pdePte = 0 := or_pdePte_ne_zero _
    refine ⟨_, ?_, BlockUpdated.setHuge h hready hcov hstart⟩
    simp only [updateBlock, getEntry_eq h, handleHugePages, (nptes_eq_pteCount_iff hlt).2 hcov,
      if_true, if_neg hflag, hpde, update_self, hentry]
  · have hn := mt (nptes_eq_pteCount_iff hlt).1 hcov
    refine ⟨_, ?_, BlockUpdated.setPart h hready hlt hcov⟩
    have hhandle : handleHugePages dev vm (tableOf dev u.start) (nptes dev u.start u.stop) u.dst
        u.flags = .ok (unhuge vm (tableOf dev u.start)) := by
      have hplain : u.flags &&& pdePte = 0 := hflags
      unfold handleHugePages unhuge
      simp only [if_neg hn]
      split_ifs <;> rfl
    have hnot : (unhuge vm (tableOf dev u.start)).huge (tableOf dev u.start) = false :=
      congrArg Block.huge (unhuge_spec h hready (tableOf dev u.start)).1
    simp only [updateBlock, getEntry_eq h, hhandle, hnot, Bool.false_eq_true, if_false, and_mask]

end

/-! ## The loop -/

/-- What is left of an update after the first turn of the loop. -/
def Update.rest (dev : Device) (u : Update) : Update where
  start := u.start + nptes dev u.start u.stop
  stop := u.stop
  dst := u.dst + BitVec.ofNat 64 (nptes dev u.start u.stop * 4096)
  flags := u.flags

/-- What an update has done. -/
structure Updated (dev : Device) (u : Update) (vm vm' : PageTables) : Prop where
  blocks : ∀ addr, vm'.block (tableOf dev addr) =
    u.apply dev (addr / pteCount dev) (vm.block (tableOf dev addr))
  allocated : Allocated dev vm'
  ready : Ready dev vm'

lemma Update.entry_rest (h : (u.rest dev).start ≤ page) :
    (u.rest dev).entry page = u.entry page := by
  have hsub : page - u.start = nptes dev u.start u.stop + (page - (u.rest dev).start) := by
    simp only [Update.rest] at h ⊢
    omega
  rw [Update.entry, Update.entry, hsub, Nat.add_mul, BitVec.ofNat_add, ← BitVec.add_assoc]
  rfl

lemma Update.apply_rest_self (h : u.start < u.stop) (blk : Block) :
    (u.rest dev).apply dev (u.start / pteCount dev) blk = blk := by
  have hadd : (u.rest dev).start = _ := add_nptes h
  obtain ⟨hdiv, hmod, hmul⟩ := block_bounds dev u.start
  have hstop : (u.rest dev).stop = u.stop := rfl
  have htouch : ¬ (u.rest dev).Touches dev (u.start / pteCount dev) := by
    unfold Update.Touches
    omega
  have hcov : ¬ (u.rest dev).CoversBlock dev (u.start / pteCount dev) := by
    unfold Update.CoversBlock
    omega
  rw [Update.apply, if_neg hcov, if_neg htouch]

lemma Update.apply_rest (h : u.start < u.stop) {b : ℕ} (hb : b ≠ u.start / pteCount dev)
    (blk : Block) :
    (u.rest dev).apply dev b blk = u.apply dev b blk := by
  have hadd : (u.rest dev).start = _ := add_nptes h
  have hstop : (u.rest dev).stop = u.stop := rfl
  have hle := Nat.div_mul_le_self u.start (pteCount dev)
  have hpos := pteCount_pos dev
  have hblock : (b + 1) * pteCount dev = b * pteCount dev + pteCount dev := Nat.succ_mul _ _
  have hpos' : u.start < (u.rest dev).start := Nat.lt_add_of_pos_right (nptes_pos h)
  have hside : (b + 1) * pteCount dev ≤ u.start ∨
      (u.start / pteCount dev + 1) * pteCount dev ≤ b * pteCount dev := by
    refine (lt_or_gt_of_ne hb).imp (fun hbelow => ?_) fun habove => ?_
    · exact (Nat.mul_le_mul_right _ (Nat.succ_le_of_lt hbelow)).trans hle
    · exact Nat.mul_le_mul_right _ (Nat.succ_le_of_lt habove)
  have hcov : (u.rest dev).CoversBlock dev b ↔ u.CoversBlock dev b := by
    unfold Update.CoversBlock
    omega
  have htouch : (u.rest dev).Touches dev b ↔ u.Touches dev b := by
    unfold Update.Touches
    omega
  have hcovers : ∀ i, i < pteCount dev →
      ((u.rest dev).Covers (b * pteCount dev + i) ↔ u.Covers (b * pteCount dev + i)) := by
    unfold Update.Covers
    omega
  by_cases hc : u.CoversBlock dev b
  · rw [Update.apply, Update.apply, if_pos (hcov.2 hc), if_pos hc, Update.entry_rest (hcov.2 hc).1]
  by_cases ht : u.Touches dev b
  · rw [Update.apply, Update.apply, if_neg (mt hcov.1 hc), if_neg hc, if_pos (htouch.2 ht),
      if_pos ht]
    congr 1
    funext i
    by_cases hi : u.Covers (b * pteCount dev + i) ∧ i < pteCount dev
    · have hi' := (hcovers i hi.2).2 hi.1
      rw [if_pos hi, if_pos ⟨hi', hi.2⟩, Update.entry_rest hi'.1]
    · rw [if_neg hi, if_neg fun hi' => hi ⟨(hcovers i hi'.2).1 hi'.1, hi'.2⟩]
  · rw [Update.apply, Update.apply, if_neg (mt hcov.1 hc), if_neg hc, if_neg (mt htouch.1 ht),
      if_neg ht]

lemma Update.Encodable.rest (h : u.Encodable dev) : (u.rest dev).Encodable dev := by
  intro b hcov
  rw [Update.entry_rest hcov.1]
  exact h b ⟨(Nat.le_add_right _ _).trans hcov.1, hcov.2⟩

lemma Update.apply_of_le (h : u.stop ≤ u.start) (b : ℕ) (blk : Block) :
    u.apply dev b blk = blk := by
  have hpos := pteCount_pos dev
  have hblock : (b + 1) * pteCount dev = b * pteCount dev + pteCount dev := Nat.succ_mul _ _
  have hcov : ¬ u.CoversBlock dev b := by
    unfold Update.CoversBlock
    omega
  have htouch : ¬ u.Touches dev b := fun ht => absurd ht.1 (not_lt.2 h)
  rw [Update.apply, if_neg hcov, if_neg htouch]

/-- Every turn of the loop that is followed by another covers fewer than `2 ^ 20` pages, so that the
32-bit product by which `dst` moves on does not wrap. -/
def Update.ShortTurns (dev : Device) (u : Update) : Prop :=
  ∀ addr, u.start ≤ addr → addr + nptes dev addr u.stop < u.stop → nptes dev addr u.stop < 2 ^ 20

lemma Update.ShortTurns.rest (h : u.ShortTurns dev) : (u.rest dev).ShortTurns dev :=
  fun addr haddr => h addr ((Nat.le_add_right _ _).trans haddr)

/-- In page tables of fewer than `2 ^ 20` entries every turn is short. -/
lemma Update.shortTurns_of_blockSize (hsize : dev.blockSize < 20) : u.ShortTurns dev := by
  intro addr _ hnext
  have hadd : addr + nptes dev addr u.stop = _ := add_nptes (by omega)
  obtain ⟨hdiv, hmod, hmul⟩ := block_bounds dev addr
  have hcount : pteCount dev ≤ 2 ^ 19 := by
    rw [pteCount_eq]
    exact Nat.pow_le_pow_right Nat.two_pos (Nat.le_of_lt_succ hsize)
  omega

lemma updatePtesLoop_of_le {flags dst : U64} {turns : ℕ} (h : stop ≤ addr) :
    updatePtesLoop dev stop flags turns vm addr dst = .ok vm := by
  cases turns with
  | zero => rfl
  | succ turns => rw [updatePtesLoop, if_neg (not_lt.2 h)]

section

variable (h : Allocated dev vm) (hready : Ready dev vm)

include h hready

lemma updatePtesLoop_spec {turns : ℕ} (henc : u.Encodable dev) (hflags : u.PlainFlags)
    (hshort : u.ShortTurns dev) (hturns : u.stop - u.start ≤ turns) :
    ∃ vm', updatePtesLoop dev u.stop u.flags turns vm u.start u.dst = .ok vm' ∧
      Updated dev u vm vm' := by
  induction turns generalizing vm u with
  | zero =>
    have hle : u.stop ≤ u.start := by omega
    exact ⟨vm, rfl, fun addr => (Update.apply_of_le hle _ _).symm, h, hready⟩
  | succ turns ih =>
    by_cases hlt : u.start < u.stop
    · obtain ⟨vm1, hturn, hblock⟩ := updateBlock_spec h hready hlt henc hflags
      have hpos : 0 < nptes dev u.start u.stop := nptes_pos hlt
      have hleft : (u.rest dev).stop - (u.rest dev).start ≤ turns := by
        simp only [Update.rest]
        omega
      obtain ⟨vm', hloop, hrest⟩ := ih hblock.allocated hblock.ready henc.rest
        (show (u.rest dev).PlainFlags from hflags) hshort.rest hleft
      refine ⟨vm', ?_, fun addr => ?_, hrest.allocated, hrest.ready⟩
      · rw [updatePtesLoop, if_pos hlt, hturn]
        by_cases hnext : u.start + nptes dev u.start u.stop < u.stop
        · have hturn : nptes dev u.start u.stop < 2 ^ 20 := hshort u.start le_rfl hnext
          rw [Nat.mod_eq_of_lt (by omega)]
          exact hloop
        · -- the destination is not read after the last turn
          exact (updatePtesLoop_of_le (not_lt.1 hnext)).trans
            ((updatePtesLoop_of_le (not_lt.1 hnext)).symm.trans hloop)
      · rw [hrest.blocks]
        by_cases hb : addr / pteCount dev = u.start / pteCount dev
        · rw [(tableOf_eq_iff h.root _ _).2 hb, hb, Update.apply_rest_self hlt, hblock.here]
        · rw [Update.apply_rest hlt hb, hblock.other _ (mt (tableOf_eq_iff h.root _ _).1 hb)]
    · refine ⟨vm, updatePtesLoop_of_le (not_lt.1 hlt), fun addr => ?_, h, hready⟩
      exact (Update.apply_of_le (not_lt.1 hlt) _ _).symm

/-- **`amdgpu_vm_update_ptes` refines the abstract update.** It succeeds and makes of every block
what the update says. -/
theorem updatePtes_block (henc : u.Encodable dev) (hflags : u.PlainFlags)
    (hshort : u.ShortTurns dev) : ∃ vm', updatePtes dev vm u = .ok vm' ∧ Updated dev u vm vm' :=
  updatePtesLoop_spec h hready henc hflags hshort le_rfl

/-- What a sequence of updates makes of a block. -/
def applyAll (dev : Device) (b : ℕ) (us : List Update) (blk : Block) : Block :=
  us.foldl (fun blk u => u.apply dev b blk) blk

lemma updateAll_block {us : List Update}
    (hus : ∀ u ∈ us, u.Encodable dev ∧ u.PlainFlags ∧ u.ShortTurns dev) :
    ∃ vm', updateAll dev vm us = .ok vm' ∧
      (∀ addr, vm'.block (tableOf dev addr) =
        applyAll dev (addr / pteCount dev) us (vm.block (tableOf dev addr))) ∧
      Allocated dev vm' ∧ Ready dev vm' := by
  induction us generalizing vm with
  | nil => exact ⟨vm, rfl, fun _ => rfl, h, hready⟩
  | cons u us ih =>
    obtain ⟨⟨henc, hflags, hshort⟩, hus⟩ := forall_mem_cons.1 hus
    obtain ⟨vm1, hfirst, hupdated⟩ := updatePtes_block h hready henc hflags hshort
    obtain ⟨vm', hall, hblocks, hend⟩ := ih hupdated.allocated hupdated.ready hus
    refine ⟨vm', by rw [updateAll, hfirst]; exact hall, fun addr => ?_, hend⟩
    rw [hblocks, hupdated.blocks]
    rfl

end

/-! ## The directories and the walk -/

/-- What `amdgpu_vm_update_directories` has done: every entry that is not huge points to its
directory or table, and the rest is as it was. -/
structure Pointed (dev : Device) (vm vm' : PageTables) : Prop where
  hasEntries : vm'.hasEntries = vm.hasEntries
  huge : vm'.huge = vm.huge
  pte : vm'.pte = vm.pte
  hugePde : ∀ q, vm.huge q = true → vm'.pde q = vm.pde q
  points : ∀ q, vm.huge q = false → q ≠ [] → tablePde dev vm' q = some (vm'.pde q)
  allocated : Allocated dev vm'

/-- The loop of `amdgpu_vm_update_directories`: what is on the rest of the list is pointed to its
table when its turn comes. -/
lemma updateRelocated_spec {l : List Path} (h : Allocated dev vm)
    (hready : ∀ q, vm.huge q = false → q ≠ [] → tablePde dev vm q = some (vm.pde q) ∨ q ∈ l) :
    ∃ vm', updateRelocated dev vm l = .ok vm' ∧ Pointed dev vm vm' := by
  induction l generalizing vm with
  | nil =>
    refine ⟨_, rfl, rfl, rfl, rfl, fun _ _ => rfl, fun q hq hne => ?_, { h with }⟩
    exact (hready q hq hne).resolve_right not_mem_nil
  | cons e l ih =>
    by_cases he : e = []
    · rw [updateRelocated, if_pos he]
      refine ih h fun q hq hne => (hready q hq hne).imp_right fun hmem => ?_
      exact (mem_cons.1 hmem).resolve_left fun hqe => hne (hqe.trans he)
    by_cases hhuge : vm.huge e = true
    · rw [updateRelocated, if_neg he, updatePde, if_pos hhuge]
      refine ih h fun q hq hne => (hready q hq hne).imp_right fun hmem => ?_
      refine (mem_cons.1 hmem).resolve_left ?_
      rintro rfl
      exact absurd hhuge (by simp [hq])
    · obtain ⟨pde, hpde⟩ := Option.isSome_iff_exists.1 (h.tables e)
      rw [updateRelocated, if_neg he, updatePde, if_neg hhuge, hpde]
      have hnext : ∀ q, vm.huge q = false → q ≠ [] →
          tablePde dev vm q = some (update vm.pde e pde q) ∨ q ∈ l := by
        intro q hq hne
        by_cases hqe : q = e
        · left
          rw [hqe, update_self, hpde]
        · rw [update_of_ne hqe]
          exact (hready q hq hne).imp_right fun hmem => (mem_cons.1 hmem).resolve_left hqe
      obtain ⟨vm', hrest, hpointed⟩ := @ih { vm with pde := update vm.pde e pde } { h with } hnext
      refine ⟨vm', hrest, hpointed.hasEntries, hpointed.huge, hpointed.pte, fun q hq => ?_,
        hpointed.points, hpointed.allocated⟩
      have hqe : q ≠ e := by
        rintro rfl
        exact hhuge hq
      rw [hpointed.hugePde q hq]
      exact update_of_ne hqe _ _

lemma updateDirectories_spec (h : Allocated dev vm) (hready : Ready dev vm) :
    ∃ vm', updateDirectories dev vm = .ok vm' ∧ Pointed dev vm vm' :=
  updateRelocated_spec h hready.pde

/-- What a block says about a page of it. -/
def Block.translate (dev : Device) (blk : Block) (page : ℕ) : Entry :=
  if blk.huge then
    ⟨blk.pde.addr + BitVec.ofNat 64 (page % pteCount dev * 4096), blk.pde.flags &&& ~~~pdePte⟩
  else blk.pte (page % pteCount dev)

lemma length_lt_of_mem_dropLast_inits {α : Type} {l q : List α} (h : q ∈ l.inits.dropLast) :
    q.length < l.length := by
  induction l generalizing q with
  | nil => simp at h
  | cons a l ih =>
    have hne : l.inits.map (fun t => a :: t) ≠ [] := ne_nil_of_length_pos (by simp)
    rw [inits_cons, dropLast_cons_of_ne_nil hne, ← map_dropLast, mem_cons,
      mem_map] at h
    obtain rfl | ⟨t, ht, rfl⟩ := h
    · simp
    · simpa using ih ht

lemma Pointed.walk_eq {vm' : PageTables} (h : Pointed dev vm vm') (hready : Ready dev vm)
    (page : ℕ) :
    walk dev vm' page = some ((vm.block (tableOf dev page)).translate dev page) := by
  obtain ⟨q, hq⟩ : ∃ q, tableOf dev page = q := ⟨_, rfl⟩
  have hlen := length_tableOf h.allocated.root page
  rw [hq] at hlen
  have hne : q ≠ [] := by
    rintro rfl
    have := h.allocated.root
    simp only [pdb0, ptb, length_nil] at *
    omega
  -- only the page table at the end of the way can be huge
  have hdirs : (q.inits.tail.dropLast).all
      (fun q => tablePde dev vm' q == some (vm'.pde q)) = true := by
    rw [all_eq_true]
    intro d hd
    obtain ⟨i, l, rfl⟩ := exists_cons_of_ne_nil hne
    rw [inits_cons, tail_cons, ← map_dropLast, mem_map] at hd
    obtain ⟨t, ht, rfl⟩ := hd
    have hlt := length_lt_of_mem_dropLast_inits ht
    have hhuge : vm.huge (i :: t) = false := by
      rw [← Bool.not_eq_true]
      intro hhuge
      have := hready.huge _ hhuge
      simp only [length_cons] at *
      omega
    rw [h.points _ hhuge (cons_ne_nil _ _)]
    exact beq_self_eq_true _
  simp only [walk, getEntry_eq h.allocated, hq, hdirs, Block.translate, and_mask,
    PageTables.block, h.huge, h.pte]
  by_cases hhuge : vm.huge q = true
  · simp only [hhuge, if_true, h.hugePde q hhuge]
  · rw [Bool.not_eq_true] at hhuge
    simp only [hhuge, Bool.false_eq_true, if_false, h.points q hhuge hne, if_true]

/-! ## The last update of a page -/

/-- What an update leaves of a block of which it does not cover a page: the entry of that page, and
whether the block is huge if the update is elsewhere. -/
lemma Update.apply_uncovered (h : ¬ u.Covers page) (blk : Block) :
    (u.apply dev (page / pteCount dev) blk).pde = blk.pde ∧
      (u.apply dev (page / pteCount dev) blk).pte (page % pteCount dev) =
        blk.pte (page % pteCount dev) ∧
      (u.apply dev (page / pteCount dev) blk).huge =
        (blk.huge && !decide (u.Touches dev (page / pteCount dev))) := by
  obtain ⟨hpage, hmod, hblock⟩ := block_bounds dev page
  have hcov : ¬ u.CoversBlock dev (page / pteCount dev) := by
    unfold Update.CoversBlock
    unfold Update.Covers at h
    omega
  rw [Update.apply, if_neg hcov]
  by_cases ht : u.Touches dev (page / pteCount dev)
  · rw [if_pos ht]
    refine ⟨rfl, if_neg fun hc => ?_, by simp [ht]⟩
    rw [hpage] at hc
    exact h hc.1
  · rw [if_neg ht]
    exact ⟨rfl, rfl, by simp [ht]⟩

lemma applyAll_uncovered {us : List Update} (h : ∀ u ∈ us, ¬ u.Covers page) (blk : Block) :
    (applyAll dev (page / pteCount dev) us blk).pde = blk.pde ∧
      (applyAll dev (page / pteCount dev) us blk).pte (page % pteCount dev) =
        blk.pte (page % pteCount dev) ∧
      ((applyAll dev (page / pteCount dev) us blk).huge = true ↔
        blk.huge = true ∧ ∀ u ∈ us, ¬ u.Touches dev (page / pteCount dev)) := by
  induction us generalizing blk with
  | nil => simp [applyAll]
  | cons u us ih =>
    obtain ⟨hu, hus⟩ := forall_mem_cons.1 h
    obtain ⟨hpde, hpte, hhuge⟩ := ih hus (u.apply dev (page / pteCount dev) blk)
    obtain ⟨hpde', hpte', hhuge'⟩ := Update.apply_uncovered hu blk
    refine ⟨hpde.trans hpde', hpte.trans hpte', hhuge.trans ?_⟩
    rw [hhuge', Bool.and_eq_true, Bool.not_eq_true', decide_eq_false_iff_not, and_assoc,
      forall_mem_cons]

lemma or_and_not_eq_self {x m : U64} (h : x &&& m = 0) : (x ||| m) &&& ~~~m = x := by
  refine BitVec.eq_of_getLsbD_eq fun i hi => ?_
  have hbit := congrArg (fun y : U64 => y.getLsbD i) h
  simp only [BitVec.getLsbD_and] at hbit
  cases hx : x.getLsbD i <;> cases hm : m.getLsbD i <;> simp_all

lemma hugePde_flags {e : Entry} (h : e.flags &&& pdePte = 0) :
    (hugePde dev e).flags &&& ~~~pdePte = e.flags := by
  have hclear := or_and_not_eq_self h
  unfold hugePde
  cases dev.translateFurther
  · exact hclear
  · simp only [if_true]
    rw [BitVec.and_assoc, BitVec.and_self, hclear]

lemma translate_huge (hcov : u.CoversBlock dev (page / pteCount dev)) (hflags : u.PlainFlags)
    {blk : Block} (hhuge : blk.huge = true)
    (hpde : blk.pde = hugePde dev (u.entry (page / pteCount dev * pteCount dev))) :
    blk.translate dev page = u.entry page := by
  have hsub : page - u.start = page / pteCount dev * pteCount dev - u.start +
      page % pteCount dev := by
    have hpage := Nat.div_add_mod' page (pteCount dev)
    have hle := hcov.1
    omega
  have hkeep : (u.entry (page / pteCount dev * pteCount dev)).flags &&& pdePte = 0 := hflags
  rw [Block.translate, if_pos hhuge, hpde, hugePde_flags hkeep]
  unfold Update.entry hugePde
  rw [hsub, Nat.add_mul, BitVec.ofNat_add, ← BitVec.add_assoc]

lemma translate_applyAll_iff {pre post : List Update} {c : Update} (hcov : c.Covers page)
    (hlast : ∀ u ∈ post, ¬ u.Covers page) (hflags : c.PlainFlags) (blk : Block) :
    (applyAll dev (page / pteCount dev) (pre ++ c :: post) blk).translate dev page =
        c.entry page ↔
      (c.CoversBlock dev (page / pteCount dev) →
        (∀ u ∈ post, ¬ u.Touches dev (page / pteCount dev)) ∨
          (applyAll dev (page / pteCount dev) pre blk).pte (page % pteCount dev) =
            c.entry page) := by
  have hsplit : applyAll dev (page / pteCount dev) (pre ++ c :: post) blk =
      applyAll dev (page / pteCount dev) post (c.apply dev (page / pteCount dev)
        (applyAll dev (page / pteCount dev) pre blk)) := by
    simp [applyAll]
  rw [hsplit]
  obtain ⟨blk0, hblk0⟩ : ∃ b, applyAll dev (page / pteCount dev) pre blk = b := ⟨_, rfl⟩
  rw [hblk0]
  obtain ⟨hpde, hpte, hhuge⟩ :=
    applyAll_uncovered hlast (c.apply dev (page / pteCount dev) blk0)
  by_cases hblock : c.CoversBlock dev (page / pteCount dev)
  · have happly : c.apply dev (page / pteCount dev) blk0 = _ := if_pos hblock
    by_cases htouch : ∀ u ∈ post, ¬ u.Touches dev (page / pteCount dev)
    · -- the block stays huge
      have hstays := hhuge.2 ⟨congrArg Block.huge happly, htouch⟩
      have hentry := hpde.trans (congrArg Block.pde happly)
      exact iff_of_true (translate_huge hblock hflags hstays hentry) fun _ => .inl htouch
    · -- a later update of a part of the block brings the old page table back
      have hback := mt hhuge.1 fun hc => htouch hc.2
      have hold := hpte.trans (congrFun (congrArg Block.pte happly) _)
      rw [Block.translate, if_neg hback, hold]
      constructor
      · exact fun h _ => .inr h
      · exact fun h => (h hblock).resolve_left htouch
  · obtain ⟨hpage, hmod, hmul⟩ := block_bounds dev page
    have htouch : c.Touches dev (page / pteCount dev) := by
      obtain ⟨hstart, hstop⟩ := hcov
      refine ⟨?_, ?_, ?_⟩ <;> omega
    have happly : c.apply dev (page / pteCount dev) blk0 = _ :=
      (if_neg hblock).trans (if_pos htouch)
    have hback := mt hhuge.1 fun hc => absurd ((congrArg Block.huge happly).symm.trans hc.1) nofun
    have hwritten := hpte.trans (congrFun (congrArg Block.pte happly) _)
    simp only [hpage] at hwritten
    rw [if_pos ⟨hcov, hmod⟩] at hwritten
    refine iff_of_true ?_ fun hc => absurd hc hblock
    rw [Block.translate, if_neg hback, hwritten]

/-- **The last update of a page.** On a chip with huge directory entries, a sequence of calls of
`amdgpu_vm_update_ptes` and the update of the directories succeed. A page then translates to what
the last call `c` that covered it said iff `c` did not cover its whole block, or no later call
touched the block, or the entry that the page table had before `c` happens to say the same.

**Proof sketch.** Both the calls and the update of the directories are carried over to the abstract
block of the page (`updateAll_block`, `Pointed.walk_eq`), where the calls after `c` leave the
page's own entry alone and only may switch the block back from huge. -/
theorem walk_last_iff {vm : PageTables} (h : Allocated dev vm) (hready : Ready dev vm)
    {pre post : List Update} {c : Update}
    (hus : ∀ u ∈ pre ++ c :: post, u.Encodable dev ∧ u.PlainFlags ∧ u.ShortTurns dev) {page : ℕ}
    (hcov : c.Covers page) (hlast : ∀ u ∈ post, ¬ u.Covers page) :
    ∃ vm₁ vm₂, updateAll dev vm (pre ++ c :: post) = .ok vm₁ ∧
      updateDirectories dev vm₁ = .ok vm₂ ∧
      (walk dev vm₂ page = some (c.entry page) ↔
        (c.CoversBlock dev (page / pteCount dev) →
          (∀ u ∈ post, ¬ u.Touches dev (page / pteCount dev)) ∨
            (applyAll dev (page / pteCount dev) pre (vm.block (tableOf dev page))).pte
              (page % pteCount dev) = c.entry page)) := by
  obtain ⟨vm₁, hall, hblocks, halloc, hready₁⟩ := updateAll_block h hready hus
  obtain ⟨vm₂, hdirs, hpointed⟩ := updateDirectories_spec halloc hready₁
  refine ⟨vm₁, vm₂, hall, hdirs, ?_⟩
  have hflags : c.PlainFlags := (hus c (by simp)).2.1
  rw [hpointed.walk_eq hready₁, hblocks, Option.some_inj]
  exact translate_applyAll_iff hcov hlast hflags _

/-- A device with two levels and 512 entries in a page table. -/
def twoLevels : Device := ⟨pdb0, 9, false, 0⟩

/-- A VM in which the directories point to tables at `0x1000` that are all clear. -/
def clearTables : PageTables where
  hasEntries q := decide (twoLevels.rootLevel + q.length < ptb)
  huge _ := false
  pde _ := ⟨0x1000, pteValid⟩
  pte _ _ := ⟨0, 0⟩
  gpuOffset _ := 0x1000
  relocated := []

lemma tablePde_clearTables (q : Path) :
    tablePde twoLevels clearTables q = some (clearTables.pde q) := by
  simp [tablePde, getVmPde, twoLevels, clearTables]

lemma allocated_clearTables : Allocated twoLevels clearTables :=
  ⟨le_rfl, fun _ => rfl, fun q => by rw [tablePde_clearTables]; rfl⟩

lemma ready_clearTables : Ready twoLevels clearTables :=
  ⟨fun q _ _ => .inl (tablePde_clearTables q), fun _ h => absurd h nofun⟩

lemma Update.encodable_of_stop_le (hstop : u.stop ≤ pteCount dev)
    (haddr : (u.entry 0).addr &&& 0xFFFF00000000003F = 0) : u.Encodable dev := by
  intro b hcov
  have hle := hcov.2.trans hstop
  have hb : b = 0 := by
    have hpos := pteCount_pos dev
    by_contra hb
    have := Nat.mul_lt_mul_of_lt_of_le (show 1 < b + 1 by omega) (le_refl (pteCount dev)) hpos
    omega
  rw [hb, Nat.zero_mul]
  exact haddr

/-- The pages of the first block are mapped one by one and then all at once: the block becomes huge,
and page 5 translates to the destination of the second update. -/
theorem walk_last_wholeBlock : ∃ vm₁ vm₂,
    updateAll twoLevels clearTables [⟨0, 8, 0x100000, pteValid⟩, ⟨0, 512, 0x800000, pteValid⟩] =
      .ok vm₁ ∧ updateDirectories twoLevels vm₁ = .ok vm₂ ∧
      walk twoLevels vm₂ 5 = some ⟨0x805000, pteValid⟩ := by
  have hus : ∀ u ∈ [(⟨0, 8, 0x100000, pteValid⟩ : Update), ⟨0, 512, 0x800000, pteValid⟩],
      u.Encodable twoLevels ∧ u.PlainFlags ∧ u.ShortTurns twoLevels := by
    intro u hu
    have hshort : u.ShortTurns twoLevels := Update.shortTurns_of_blockSize (by decide)
    simp only [mem_cons, not_mem_nil, or_false] at hu
    obtain rfl | rfl := hu
    · exact ⟨Update.encodable_of_stop_le (by decide) (by decide), by decide, hshort⟩
    · exact ⟨Update.encodable_of_stop_le (by decide) (by decide), by decide, hshort⟩
  obtain ⟨vm₁, vm₂, hall, hdirs, hwalk⟩ := @walk_last_iff twoLevels clearTables
    allocated_clearTables ready_clearTables [_] [] _ hus 5 (by decide) (by simp)
  exact ⟨vm₁, vm₂, hall, hdirs, hwalk.2 fun _ => .inl (by simp)⟩

/-- **A stale page table.** The first block is mapped at once and is huge; then its page 0 is
mapped elsewhere. Page 5, which only the first update covered, translates to what its page table
held before both. -/
theorem walk_stale : ∃ vm₁ vm₂,
    updateAll twoLevels clearTables [⟨0, 512, 0x800000, pteValid⟩, ⟨0, 1, 0x100000, pteValid⟩] =
      .ok vm₁ ∧ updateDirectories twoLevels vm₁ = .ok vm₂ ∧
      (⟨0, 512, 0x800000, pteValid⟩ : Update).entry 5 = ⟨0x805000, pteValid⟩ ∧
      walk twoLevels vm₂ 5 = some ⟨0, 0⟩ := by
  refine ⟨_, _, rfl, rfl, ?_, ?_⟩ <;> decide +kernel

end KmsDrm.Amdgpu
