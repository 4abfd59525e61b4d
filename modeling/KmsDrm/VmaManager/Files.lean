import KmsDrm.Lib.Machine
import KmsDrm.LinuxKpi.RbTree

/-!
# The open files of a node of `drm_vma_manager.c`

A node keeps the open files that may map it in a tree ordered by the pointer to the file, each with
a count of how often it was allowed.

## Main results

* `VmaManager.allowed_iff_allows_exceed` — a file is allowed while more calls have allowed than
  revoked it.
* `VmaManager.revoked_too_early` — unless the count wraps around.
-/

namespace KmsDrm.VmaManager

open KmsDrm.Lib List
open KmsDrm.RbTree (RbRoot rbInsert rbErase)
open Function (update update_of_ne update_self)

/-- `struct drm_vma_offset_file`; a tag is the address of a `struct drm_file`, and `vm_count` is an
`unsigned long`, which has 64 bits on the amd64 kernels that the drivers are built for. -/
structure File where
  vmTag : ℕ
  vmCount : BitVec 64
  deriving DecidableEq

inductive Ret where
  | ok
  | enomem
  deriving DecidableEq, Repr

/-- The descent to the entry of a tag. -/
def find (tag : ℕ) : RbRoot File → Option File
  | .nil => none
  | .node _ l entry r =>
    if tag = entry.vmTag then some entry
    else if entry.vmTag < tag then find tag r
    else find tag l

/-- The assignment to `vm_count` in the entry that the descent finds. -/
def setCount (tag : ℕ) (vmCount : BitVec 64) : RbRoot File → RbRoot File
  | .nil => .nil
  | .node c l entry r =>
    if tag = entry.vmTag then .node c l { entry with vmCount } r
    else if entry.vmTag < tag then .node c l entry (setCount tag vmCount r)
    else .node c (setCount tag vmCount l) entry r

/-- `drm_vma_node_allow` on `vm_files`, where `mem` says whether the allocation succeeds. -/
def allow (tag : ℕ) (mem : Bool) (vmFiles : RbRoot File) : Ret × RbRoot File :=
  match find tag vmFiles with
  | some entry => (.ok, setCount tag (entry.vmCount + 1) vmFiles)
  | none =>
    if mem then (.ok, rbInsert (fun entry => decide (tag < entry.vmTag)) ⟨tag, 1⟩ vmFiles)
    else (.enomem, vmFiles)

/-- `drm_vma_node_revoke`. -/
def revoke (tag : ℕ) (vmFiles : RbRoot File) : RbRoot File :=
  match find tag vmFiles with
  | some entry =>
    if entry.vmCount - 1 = 0 then rbErase entry vmFiles
    else setCount tag (entry.vmCount - 1) vmFiles
  | none => vmFiles

/-- `drm_vma_node_is_allowed`. -/
def isAllowed (tag : ℕ) (vmFiles : RbRoot File) : Bool := (find tag vmFiles).isSome

/-- The files of a node, and how often each was allowed, and revoked while it was allowed. -/
structure State where
  vmFiles : RbRoot File
  allows : ℕ → ℕ
  revokes : ℕ → ℕ

def init : State := ⟨.nil, fun _ => 0, fun _ => 0⟩

inductive Act where
  | allow (tag : ℕ) (mem : Bool)
  | revoke (tag : ℕ)

def step : Act → State → Option State
  | .allow tag mem, s =>
    some { s with
      vmFiles := (allow tag mem s.vmFiles).2
      allows := if (allow tag mem s.vmFiles).1 = .ok then update s.allows tag (s.allows tag + 1)
        else s.allows }
  | .revoke tag, s =>
    some { s with
      vmFiles := revoke tag s.vmFiles
      revokes := if isAllowed tag s.vmFiles then update s.revokes tag (s.revokes tag + 1)
        else s.revokes }

/-- A file is allowed only while its count fits into 64 bits. -/
def Fits (s : State) : Act → Prop
  | .allow tag _ => s.allows tag - s.revokes tag < 2 ^ 64
  | .revoke _ => True

/-- The tree is ordered, and its entries are the files that are held, with their counts. -/
structure Holds (t : RbRoot File) (held : ℕ → ℕ) : Prop where
  sorted : t.inorder.Pairwise fun e e' => e.vmTag < e'.vmTag
  mem : ∀ e, e ∈ t.inorder ↔ 0 < held e.vmTag ∧ e.vmCount = BitVec.ofNat 64 (held e.vmTag)
  le : ∀ tag, held tag ≤ 2 ^ 64

variable {s s' : State} {held : ℕ → ℕ} {tag : ℕ} {e : File} {t : RbRoot File} {mem : Bool}

lemma find_eq_some (ht : t.inorder.Pairwise fun e e' => e.vmTag < e'.vmTag) :
    find tag t = some e ↔ e ∈ t.inorder ∧ e.vmTag = tag := by
  induction t with
  | nil => simp [find]
  | node c l a r ihl ihr =>
    rw [BinTree.inorder_node, pairwise_append] at ht
    obtain ⟨hl, ⟨har, hr⟩, hlr⟩ := ht
    have hla : ∀ e ∈ l.inorder, e.vmTag < a.vmTag := fun e he => hlr e he a (by simp)
    rw [find, BinTree.inorder_node]
    split_ifs with heq hlt
    · grind
    · grind
    · grind

lemma map_vmTag_setCount (vmCount : BitVec 64) (t : RbRoot File) :
    (setCount tag vmCount t).inorder.map File.vmTag = t.inorder.map File.vmTag := by
  induction t with
  | nil => rfl
  | node c l a r ihl ihr =>
    rw [setCount]
    split_ifs <;> simp [ihl, ihr]

lemma mem_setCount (ht : t.inorder.Pairwise fun e e' => e.vmTag < e'.vmTag)
    {a : File} (ha : a ∈ t.inorder) {vmCount : BitVec 64} :
    e ∈ (setCount a.vmTag vmCount t).inorder ↔
      if e.vmTag = a.vmTag then e.vmCount = vmCount else e ∈ t.inorder := by
  induction t with
  | nil => simp at ha
  | node c l b r ihl ihr =>
    rw [BinTree.inorder_node, pairwise_append] at ht
    obtain ⟨hl, ⟨hbr, hr⟩, hlr⟩ := ht
    have hlb : ∀ e ∈ l.inorder, e.vmTag < b.vmTag := fun e he => hlr e he b (by simp)
    rw [BinTree.inorder_node] at ha
    rw [setCount, BinTree.inorder_node]
    by_cases heq : a.vmTag = b.vmTag
    · rw [if_pos heq, BinTree.inorder_node]
      rcases e with ⟨tag', count'⟩
      grind
    · rw [if_neg heq]
      by_cases hlt : b.vmTag < a.vmTag
      · rw [if_pos hlt, BinTree.inorder_node]
        grind
      · rw [if_neg hlt, BinTree.inorder_node]
        grind

lemma allow_of_ne_ok (h : (allow tag mem t).1 ≠ .ok) : (allow tag mem t).2 = t := by
  revert h
  rw [allow]
  split
  · simp
  · split_ifs <;> simp

namespace Holds

section

variable (h : Holds t held)

include h

lemma find_eq : find tag t =
    if 0 < held tag then some ⟨tag, BitVec.ofNat 64 (held tag)⟩ else none := by
  split_ifs with hpos
  · exact (find_eq_some h.sorted).2 ⟨(h.mem _).2 ⟨hpos, rfl⟩, rfl⟩
  · refine Option.eq_none_iff_forall_ne_some.2 fun e he => ?_
    obtain ⟨hmem, rfl⟩ := (find_eq_some h.sorted).1 he
    exact hpos ((h.mem e).1 hmem).1

lemma setCount (hpos : 0 < held tag) {n : ℕ} (hn : 0 < n) (hle : n ≤ 2 ^ 64) :
    Holds (setCount tag (BitVec.ofNat 64 n) t) (update held tag n) := by
  refine ⟨?_, fun e => ?_, fun tag' => ?_⟩
  · rw [← pairwise_map (f := File.vmTag) (R := (· < ·)), map_vmTag_setCount, pairwise_map]
    exact h.sorted
  · have hmem : (⟨tag, BitVec.ofNat 64 (held tag)⟩ : File) ∈ t.inorder := (h.mem _).2 ⟨hpos, rfl⟩
    rw [mem_setCount h.sorted hmem, h.mem]
    by_cases htag : e.vmTag = tag <;> simp [htag, hn]
  · by_cases htag : tag' = tag
    · simpa [htag] using hle
    · simpa [htag] using h.le tag'

lemma insert (hzero : held tag = 0) :
    Holds (rbInsert (fun e => decide (tag < e.vmTag)) ⟨tag, 1⟩ t) (update held tag 1) := by
  have hpart : t.inorder.Pairwise fun e e' =>
      decide (tag < e.vmTag) = true → decide (tag < e'.vmTag) = true :=
    h.sorted.imp fun hlt => by simpa using fun hle => hle.trans hlt
  have hne : ∀ e ∈ t.inorder, e.vmTag ≠ tag := fun e he heq => by
    have := ((h.mem e).1 he).1
    rw [heq] at this
    omega
  refine ⟨?_, fun e => ?_, fun tag' => ?_⟩
  · rw [RbTree.inorder_rbInsert _ hpart, pairwise_append, pairwise_cons]
    refine ⟨h.sorted.filter _, ⟨fun e he => ?_, h.sorted.filter _⟩, fun e he e' he' => ?_⟩ <;>
      grind
  · have hmem : e ∈ (rbInsert (fun e => decide (tag < e.vmTag)) ⟨tag, 1⟩ t).inorder ↔
        e = ⟨tag, 1⟩ ∨ e ∈ t.inorder := by
      rw [RbTree.inorder_rbInsert _ hpart]
      grind
    rw [hmem, h.mem]
    rcases e with ⟨tag', count'⟩
    by_cases htag : tag' = tag <;> simp [htag, hzero]
  · by_cases htag : tag' = tag
    · simp [htag]
    · simpa [htag] using h.le tag'

lemma erase :
    Holds (rbErase ⟨tag, BitVec.ofNat 64 (held tag)⟩ t) (update held tag 0) := by
  have hnodup : t.inorder.Nodup := h.sorted.imp fun hlt heq => by simp [heq] at hlt
  have hio : (rbErase ⟨tag, BitVec.ofNat 64 (held tag)⟩ t).inorder =
      t.inorder.erase ⟨tag, BitVec.ofNat 64 (held tag)⟩ := RbTree.inorder_rbErase hnodup
  refine ⟨?_, fun e => ?_, fun tag' => ?_⟩
  · rw [hio]
    exact h.sorted.sublist erase_sublist
  · rw [hio, hnodup.mem_erase_iff, h.mem]
    rcases e with ⟨tag', count'⟩
    by_cases htag : tag' = tag
    · grind
    · simp [htag]
  · by_cases htag : tag' = tag
    · simp [htag]
    · simpa [htag] using h.le tag'

lemma allow (hfits : held tag < 2 ^ 64) (hok : (allow tag mem t).1 = .ok) :
    Holds (allow tag mem t).2 (update held tag (held tag + 1)) := by
  rw [VmaManager.allow, h.find_eq] at hok ⊢
  by_cases hpos : 0 < held tag
  · simp only [if_pos hpos]
    have hset := h.setCount hpos (Nat.zero_lt_succ (held tag)) hfits
    rwa [Nat.succ_eq_add_one, BitVec.ofNat_add] at hset
  · simp only [if_neg hpos] at hok ⊢
    have hzero : held tag = 0 := by omega
    cases mem with
    | true =>
      rw [hzero]
      exact h.insert hzero
    | false => cases hok

lemma revoke : Holds (revoke tag t) (update held tag (held tag - 1)) := by
  rw [VmaManager.revoke, h.find_eq]
  by_cases hpos : 0 < held tag
  · have hone : BitVec.ofNat 64 (held tag) - 1 = BitVec.ofNat 64 (held tag - 1) := by bv_omega
    simp only [if_pos hpos, hone]
    by_cases hlast : held tag = 1
    · have herase : Holds _ (update held tag 0) := h.erase
      rw [hlast] at herase ⊢
      exact herase
    · have hle := h.le tag
      rw [if_neg (by bv_omega)]
      exact h.setCount hpos (by omega) (by omega)
  · have hzero : held tag = 0 := by omega
    rwa [hzero, Function.update_eq_self_iff.2 hzero.symm]

end

end Holds

/-! ## Runs -/

/-- The numbers of calls tell how often each file is held. -/
def Inv (s : State) : Prop :=
  ∃ held, Holds s.vmFiles held ∧ ∀ tag, s.allows tag = s.revokes tag + held tag

lemma Inv.step {a : Act} (h : Inv s) (hfits : Fits s a) (hstep : step a s = some s') :
    Inv s' := by
  obtain ⟨held, hholds, hheld⟩ := h
  cases a with
  | allow tag mem =>
    cases hstep
    by_cases hok : (allow tag mem s.vmFiles).1 = .ok
    · refine ⟨_, hholds.allow ?_ hok, fun tag' => ?_⟩
      · rw [Fits, hheld] at hfits
        omega
      · by_cases htag : tag' = tag
        · simp [hok, htag, hheld, Nat.add_assoc]
        · simp [hok, htag, hheld]
    · refine ⟨held, ?_, fun tag' => by simp [hok, hheld]⟩
      rwa [allow_of_ne_ok hok]
  | revoke tag =>
    cases hstep
    refine ⟨_, hholds.revoke, fun tag' => ?_⟩
    by_cases htag : tag' = tag
    · subst htag
      by_cases hpos : 0 < held tag'
      · simp [isAllowed, hholds.find_eq, hpos, hheld]
        omega
      · simp only [isAllowed, hholds.find_eq, hheld, if_neg hpos]
        simp
        omega
    · split_ifs <;> simp [htag, hheld]

/-- **A counted set of files.** In every run in which no count exceeds 64 bits a file is allowed
exactly while more calls have allowed than revoked it, the tree is ordered with one entry for each
file, and a call without memory changes nothing. -/
theorem allowed_iff_allows_exceed (hrun : Machine.Runs step Fits init s) :
    (∀ tag, isAllowed tag s.vmFiles = true ↔ s.revokes tag < s.allows tag) ∧
      (s.vmFiles.inorder.Pairwise fun e e' => e.vmTag < e'.vmTag) ∧
      ∀ tag mem, (allow tag mem s.vmFiles).1 = .enomem →
        (allow tag mem s.vmFiles).2 = s.vmFiles := by
  obtain ⟨held, hholds, hheld⟩ : Inv s := by
    refine hrun.invariant (P := Inv) ⟨fun _ => 0, ⟨.nil, ?_, fun _ => Nat.zero_le _⟩, fun _ => rfl⟩
      fun _ _ _ h => h.step
    simp [init]
  refine ⟨fun tag => ?_, hholds.sorted, fun tag mem hret => allow_of_ne_ok (by simp [hret])⟩
  rw [isAllowed, hholds.find_eq, hheld]
  split_ifs <;> simp <;> omega

theorem allowed_iff_allows_exceed_twice :
    ∃ s, Machine.Runs step Fits init s ∧ s.allows 5 = 2 ∧ s.revokes 5 = 1 ∧
      isAllowed 5 s.vmFiles = true := by
  have hrun : Machine.Runs step Fits init _ :=
    .step (.revoke 5) (.step (.allow 5 false) (.step (.allow 5 true) .start
      (show 0 - 0 < 2 ^ 64 by decide) rfl) (show 1 - 0 < 2 ^ 64 by decide) rfl) trivial rfl
  refine ⟨_, hrun, by decide, by decide, ?_⟩
  exact ((allowed_iff_allows_exceed hrun).1 5).2 (by decide)

lemma exists_allowed (n : ℕ) :
    ∃ s, Machine.Reachable step init s ∧
      s.vmFiles = .node .black .nil ⟨0, BitVec.ofNat 64 (n + 1)⟩ .nil ∧ s.allows 0 = n + 1 ∧
      s.revokes 0 = 0 := by
  induction n with
  | zero => exact ⟨_, .step (.allow 0 true) .start trivial rfl, rfl, rfl, rfl⟩
  | succ n ih =>
    obtain ⟨s, hrun, hfiles, hallows, hrevokes⟩ := ih
    refine ⟨_, .step (.allow 0 true) hrun trivial rfl, ?_⟩
    simp [allow, hfiles, find, setCount, hallows, hrevokes, BitVec.ofNat_add]

/-- The count of a file that is allowed `2 ^ 64 + 1` times is `1`. -/
theorem revoked_too_early :
    ∃ s, Machine.Reachable step init s ∧ s.allows 0 = 2 ^ 64 + 1 ∧ s.revokes 0 = 1 ∧
      isAllowed 0 s.vmFiles = false := by
  obtain ⟨s, hrun, hfiles, hallows, hrevokes⟩ := exists_allowed (2 ^ 64)
  refine ⟨_, .step (.revoke 0) hrun trivial rfl, hallows, ?_, ?_⟩
  · simp [isAllowed, hfiles, find, hrevokes]
  · change isAllowed 0 (revoke 0 s.vmFiles) = false
    rw [hfiles]
    decide

end KmsDrm.VmaManager
