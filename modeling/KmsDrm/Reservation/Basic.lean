import Mathlib

/-!
# Reservation objects

A reservation object holds an exclusive fence and a list of shared fences, and it owns a
reference to each of them. This module models the functions of `linux_reservation.c` that change
an object. They run with the lock of the object held, so a call is one step.

A list has a capacity, `shared_max`, and uses the first `shared_count` of its slots. The model
keeps the slots in use: the slots behind them are written before they are read. Of the staged
list only the capacity matters, for the same reason.

## Main definitions

* `Reservation.reserveShared`, `addSharedFence`, `addExclFence`, `copyFences`, `fini` — the
  functions.

## Implementation notes

Memory that is freed is not modelled, and the sequence count is not changed by the writers here:
no reader runs during a step. The number of references of a fence is an integer, so that a
reference that is released without being owned is seen as well.
-/

namespace KmsDrm.Reservation

/-- `struct reservation_object_list`: the capacity and the slots in use. -/
structure FenceList (F : Type) where
  sharedMax : ℕ
  shared : List F
  deriving DecidableEq, Repr

/-- The number of slots in use. -/
def FenceList.sharedCount {F : Type} (l : FenceList F) : ℕ := l.shared.length

/-- `struct reservation_object`; of the staged list there is the capacity. -/
structure Obj (F : Type) where
  fenceExcl : Option F := none
  fence : Option (FenceList F) := none
  staged : Option ℕ := none
  deriving DecidableEq, Repr

def Obj.shared {F : Type} (obj : Obj F) : List F :=
  match obj.fence with
  | some l => l.shared
  | none => []

/-- What ends the run of the kernel: a null pointer, a `BUG_ON`, a write behind an array. -/
inductive Fault where
  | nullPointer
  | bugOn
  | overrun
  deriving DecidableEq, Repr

/-- The values that the functions return. -/
inductive Ret where
  | zero
  | enomem
  deriving DecidableEq, Repr

section References

variable {F : Type} [DecidableEq F]

/-- The number of references of each fence. -/
abbrev Refs (F : Type) : Type := F → ℤ

/-- `dma_fence_get` -/
def dmaFenceGet (f : F) (refs : Refs F) : Refs F := Function.update refs f (refs f + 1)

/-- `dma_fence_put` -/
def dmaFencePut (f : F) (refs : Refs F) : Refs F := Function.update refs f (refs f - 1)

/-- `dma_fence_get` of a pointer that may be null -/
def dmaFenceGet? (f : Option F) (refs : Refs F) : Refs F := f.elim refs fun f => dmaFenceGet f refs

/-- `dma_fence_put` of a pointer that may be null -/
def dmaFencePut? (f : Option F) (refs : Refs F) : Refs F := f.elim refs fun f => dmaFencePut f refs

end References

/-! ## Adding a shared fence -/

section Add

variable {F : Type}

/-- `krealloc` of the staged list, which fails if `alloc` is not set. -/
def growStaged (alloc : Bool) (obj : Obj F) (max : ℕ) : Obj F × Ret :=
  if alloc then ({ obj with staged := some max }, .zero) else (obj, .enomem)

/-- `reservation_object_reserve_shared` -/
def reserveShared (alloc : Bool) (obj : Obj F) : Obj F × Ret :=
  match obj.fence with
  | some old =>
    if old.sharedMax ≠ 0 then
      if old.sharedCount < old.sharedMax then ({ obj with staged := none }, .zero)
      -- `max` is a `u32`
      else growStaged alloc obj (old.sharedMax * 2 % 2 ^ 32)
    else growStaged alloc obj 4
  | none => growStaged alloc obj 4

variable (ctx : F → BitVec 64)

/-- The loop of `reservation_object_add_shared_inplace`: put the fence in the first slot of its
context. Without such a slot there is no result, else the fence that was in the slot and the
slots afterwards. -/
def replaceInplace (fence : F) : List F → Option (F × List F)
  | [] => none
  | oldFence :: rest =>
    if ctx oldFence = ctx fence then some (oldFence, fence :: rest)
    else (replaceInplace fence rest).map fun r => (r.1, oldFence :: r.2)

/-- The loop of `reservation_object_add_shared_replace`: copy the slots, with the fence in the
place of the first one of its context, which is `oldFence` once it was found. -/
def copyReplacing (fence : F) : Option F → List F → Option F × List F
  | oldFence, [] => (oldFence, [])
  | oldFence, check :: rest =>
    if oldFence.isNone ∧ ctx check = ctx fence then
      let r := copyReplacing fence (some check) rest
      (r.1, fence :: r.2)
    else
      let r := copyReplacing fence oldFence rest
      (r.1, check :: r.2)

variable [DecidableEq F]

/-- `reservation_object_add_shared_inplace` -/
def addSharedInplace (fobj : FenceList F) (fence : F) (refs : Refs F) :
    Except Fault (FenceList F × Refs F) :=
  match replaceInplace ctx fence fobj.shared with
  | some (oldFence, shared) =>
    .ok ({ fobj with shared := shared }, dmaFencePut oldFence (dmaFenceGet fence refs))
  | none =>
    if fobj.sharedCount < fobj.sharedMax then
      .ok ({ fobj with shared := fobj.shared ++ [fence] }, dmaFenceGet fence refs)
    else .error .overrun

/-- `reservation_object_add_shared_replace`, where the new list has the capacity `max` -/
def addSharedReplace (old : Option (FenceList F)) (max : ℕ) (fence : F) (refs : Refs F) :
    Except Fault (FenceList F × Refs F) :=
  match old with
  | none =>
    if 0 < max then .ok (⟨max, [fence]⟩, dmaFenceGet fence refs) else .error .overrun
  | some old =>
    if old.sharedCount ≤ max then
      match copyReplacing ctx fence none old.shared with
      | (none, shared) =>
        if old.sharedCount < max then
          .ok (⟨max, shared ++ [fence]⟩, dmaFenceGet fence refs)
        else .error .overrun
      | (some oldFence, shared) =>
        .ok (⟨max, shared⟩, dmaFencePut oldFence (dmaFenceGet fence refs))
    else .error .overrun

/-- `reservation_object_add_shared_fence` -/
def addSharedFence (obj : Obj F) (fence : F) (refs : Refs F) : Except Fault (Obj F × Refs F) :=
  match obj.staged with
  | none =>
    match obj.fence with
    | none => .error .nullPointer
    | some old =>
      if old.sharedMax ≤ old.sharedCount then .error .bugOn
      else do
        let (l, refs) ← addSharedInplace ctx old fence refs
        return ({ obj with staged := none, fence := some l }, refs)
  | some max => do
    let (l, refs) ← addSharedReplace ctx obj.fence max fence refs
    return ({ obj with staged := none, fence := some l }, refs)

end Add

/-! ## A reservation -/

lemma reserveShared_cases {F : Type} (alloc : Bool) (obj : Obj F) :
    (∃ l, obj.fence = some l ∧ l.sharedCount < l.sharedMax ∧
      reserveShared alloc obj = ({ obj with staged := none }, .zero)) ∨
    reserveShared alloc obj = (obj, .enomem) ∨
    ∃ max, reserveShared alloc obj = ({ obj with staged := some max }, .zero) ∧
      (max = 4 ∧ (∀ l, obj.fence = some l → l.sharedMax = 0) ∨
        ∃ l, obj.fence = some l ∧ l.sharedMax ≠ 0 ∧ l.sharedMax ≤ l.sharedCount ∧
          max = l.sharedMax * 2 % 2 ^ 32) := by
  unfold reserveShared growStaged
  rcases hfence : obj.fence with _ | old
  · cases alloc
    · exact .inr (.inl rfl)
    · exact .inr (.inr ⟨4, rfl, .inl ⟨rfl, by simp⟩⟩)
  · dsimp only
    by_cases hzero : old.sharedMax = 0
    · rw [if_neg (by simpa using hzero)]
      cases alloc
      · exact .inr (.inl rfl)
      · exact .inr (.inr ⟨4, rfl, .inl ⟨rfl, by simp [hzero]⟩⟩)
    · rw [if_pos hzero]
      by_cases hroom : old.sharedCount < old.sharedMax
      · rw [if_pos hroom]
        exact .inl ⟨old, rfl, hroom, rfl⟩
      · rw [if_neg hroom]
        cases alloc
        · exact .inr (.inl rfl)
        · exact .inr (.inr ⟨_, rfl, .inr ⟨old, rfl, hzero, Nat.le_of_not_lt hroom, rfl⟩⟩)

/-! ## The slot of a context -/

section Slot

variable {F : Type} {ctx : F → BitVec 64} {fence : F}

lemma replaceInplace_eq_none {l : List F} :
    replaceInplace ctx fence l = none ↔ ∀ x ∈ l, ctx x ≠ ctx fence := by
  induction l with
  | nil => simp [replaceInplace]
  | cons a l ih =>
    unfold replaceInplace
    split_ifs with ha
    · simp [ha]
    · simp [ha, ih]

lemma replaceInplace_eq_some {l l' : List F} {oldFence : F}
    (h : replaceInplace ctx fence l = some (oldFence, l')) :
    ∃ xs ys, l = xs ++ oldFence :: ys ∧ l' = xs ++ fence :: ys ∧ ctx oldFence = ctx fence := by
  induction l generalizing l' with
  | nil => simp [replaceInplace] at h
  | cons a l ih =>
    unfold replaceInplace at h
    split_ifs at h with ha
    · cases h
      exact ⟨[], l, rfl, rfl, ha⟩
    · obtain ⟨⟨b, l1⟩, hrest, hb⟩ := Option.map_eq_some_iff.1 h
      obtain ⟨rfl, rfl⟩ := Prod.mk.inj hb
      obtain ⟨xs, ys, rfl, rfl, hctx⟩ := ih hrest
      exact ⟨a :: xs, ys, rfl, rfl, hctx⟩

lemma replaceInplace_length {l l' : List F} {oldFence : F}
    (h : replaceInplace ctx fence l = some (oldFence, l')) : l'.length = l.length := by
  obtain ⟨xs, ys, rfl, rfl, -⟩ := replaceInplace_eq_some h
  simp

lemma copyReplacing_some (oldFence : F) (l : List F) :
    copyReplacing ctx fence (some oldFence) l = (some oldFence, l) := by
  induction l with
  | nil => rfl
  | cons a l ih => simp [copyReplacing, ih]

lemma copyReplacing_none (l : List F) :
    copyReplacing ctx fence none l =
      match replaceInplace ctx fence l with
      | some (oldFence, l') => (some oldFence, l')
      | none => (none, l) := by
  induction l with
  | nil => rfl
  | cons a l ih =>
    unfold copyReplacing replaceInplace
    by_cases ha : ctx a = ctx fence
    · simp [ha, copyReplacing_some]
    · simp only [ha, ih]
      cases replaceInplace ctx fence l <;> rfl

/-- The capacity of the list after an addition: that of the staged list, if there is one. -/
def Obj.capacity (obj : Obj F) : ℕ :=
  match obj.staged, obj.fence with
  | some max, _ => max
  | none, some l => l.sharedMax
  | none, none => 0

/-- There is a free slot for an addition, in the staged list or in the list of the object. -/
def Obj.HasRoom (obj : Obj F) : Prop := obj.shared.length < obj.capacity

lemma Obj.shared_eq (obj : Obj F) : obj.shared = obj.fence.elim [] FenceList.shared := by
  unfold Obj.shared
  cases obj.fence <;> rfl

variable [DecidableEq F]

/-- What an addition does to the slots in use and to the references: the fence takes the slot of
its context, or it is put behind the slots in use. -/
inductive Inserted (ctx : F → BitVec 64) (fence : F) (l l' : List F) (refs refs' : Refs F) : Prop
  | slot (xs ys : List F) (oldFence : F) (hl : l = xs ++ oldFence :: ys)
      (hl' : l' = xs ++ fence :: ys) (hctx : ctx oldFence = ctx fence)
      (hrefs : refs' = dmaFencePut oldFence (dmaFenceGet fence refs))
  | fresh (hctx : ∀ x ∈ l, ctx x ≠ ctx fence) (hl' : l' = l ++ [fence])
      (hrefs : refs' = dmaFenceGet fence refs)

lemma inserted_of_some {l l' : List F} {oldFence : F} {refs : Refs F}
    (h : replaceInplace ctx fence l = some (oldFence, l')) :
    Inserted ctx fence l l' refs (dmaFencePut oldFence (dmaFenceGet fence refs)) := by
  obtain ⟨xs, ys, hl, hl', hctx⟩ := replaceInplace_eq_some h
  exact .slot xs ys oldFence hl hl' hctx rfl

lemma inserted_of_none {l : List F} {refs : Refs F} (h : replaceInplace ctx fence l = none) :
    Inserted ctx fence l (l ++ [fence]) refs (dmaFenceGet fence refs) :=
  .fresh (replaceInplace_eq_none.1 h) rfl rfl

lemma addSharedInplace_spec (ctx : F → BitVec 64) (fence : F) {fobj : FenceList F}
    (hroom : fobj.sharedCount < fobj.sharedMax) (refs : Refs F) :
    ∃ l refs', addSharedInplace ctx fobj fence refs = .ok (l, refs') ∧
      l.sharedMax = fobj.sharedMax ∧ l.sharedCount ≤ l.sharedMax ∧
      Inserted ctx fence fobj.shared l.shared refs refs' := by
  unfold addSharedInplace
  rcases h : replaceInplace ctx fence fobj.shared with _ | ⟨oldFence, shared⟩
  · rw [if_pos hroom]
    refine ⟨_, _, rfl, rfl, ?_, inserted_of_none h⟩
    simpa [FenceList.sharedCount, Nat.succ_le_iff] using hroom
  · refine ⟨_, _, rfl, rfl, ?_, inserted_of_some h⟩
    have hlen := replaceInplace_length h
    unfold FenceList.sharedCount at hroom ⊢
    dsimp only
    omega

lemma addSharedReplace_spec {old : Option (FenceList F)} {max : ℕ} {l : FenceList F}
    {refs refs' : Refs F} (h : addSharedReplace ctx old max fence refs = .ok (l, refs')) :
    l.sharedMax = max ∧ l.sharedCount ≤ l.sharedMax ∧
      Inserted ctx fence (old.elim [] FenceList.shared) l.shared refs refs' := by
  unfold addSharedReplace at h
  rcases old with _ | old
  · split_ifs at h with hmax
    cases h
    exact ⟨rfl, hmax, inserted_of_none rfl⟩
  · dsimp only at h
    rw [copyReplacing_none] at h
    rcases hrep : replaceInplace ctx fence old.shared with _ | ⟨oldFence, shared⟩
    · rw [hrep] at h
      split_ifs at h with hmax hroom
      cases h
      refine ⟨rfl, ?_, inserted_of_none hrep⟩
      simpa [FenceList.sharedCount, Nat.succ_le_iff] using hroom
    · rw [hrep] at h
      dsimp only at h
      split_ifs at h with hmax
      cases h
      refine ⟨rfl, ?_, inserted_of_some hrep⟩
      have hlen := replaceInplace_length hrep
      unfold FenceList.sharedCount at hmax ⊢
      dsimp only
      omega

lemma addSharedReplace_isOk (ctx : F → BitVec 64) (fence : F) {old : Option (FenceList F)}
    {max : ℕ} (refs : Refs F) (hroom : (old.elim [] FenceList.shared).length < max) :
    ∃ r, addSharedReplace ctx old max fence refs = .ok r := by
  unfold addSharedReplace
  rcases old with _ | old
  · exact ⟨_, if_pos hroom⟩
  · replace hroom : old.sharedCount < max := hroom
    dsimp only
    rw [copyReplacing_none, if_pos (Nat.le_of_lt hroom)]
    cases replaceInplace ctx fence old.shared with
    | none => exact ⟨_, if_pos hroom⟩
    | some r => exact ⟨_, rfl⟩

lemma addSharedFence_spec {obj obj' : Obj F} {refs refs' : Refs F}
    (h : addSharedFence ctx obj fence refs = .ok (obj', refs')) :
    obj'.fenceExcl = obj.fenceExcl ∧ obj'.staged = none ∧
      ∃ l, obj'.fence = some l ∧ l.sharedMax = obj.capacity ∧ l.sharedCount ≤ l.sharedMax ∧
        Inserted ctx fence obj.shared l.shared refs refs' := by
  unfold addSharedFence at h
  rw [Obj.shared_eq]
  unfold Obj.capacity
  rcases hstaged : obj.staged with _ | max
  · rw [hstaged] at h
    rcases hfence : obj.fence with _ | old
    · simp [hfence] at h
    · rw [hfence] at h
      dsimp only at h
      split_ifs at h with hbug
      obtain ⟨l, refs1, hl, hmax, hcount, hins⟩ :=
        addSharedInplace_spec ctx fence (Nat.lt_of_not_le hbug) refs
      rw [hl] at h
      cases h
      exact ⟨rfl, rfl, l, rfl, hmax, hcount, hins⟩
  · rw [hstaged] at h
    dsimp only at h
    rcases hl : addSharedReplace ctx obj.fence max fence refs with _ | ⟨l, refs1⟩
    · rw [hl] at h
      cases h
    · rw [hl] at h
      cases h
      obtain ⟨hmax, hcount, hins⟩ := addSharedReplace_spec hl
      exact ⟨rfl, rfl, l, rfl, hmax, hcount, hins⟩

lemma addSharedFence_isOk (ctx : F → BitVec 64) (fence : F) {obj : Obj F} (hroom : obj.HasRoom)
    (refs : Refs F) :
    ∃ r, addSharedFence ctx obj fence refs = .ok r := by
  unfold Obj.HasRoom Obj.capacity at hroom
  rw [Obj.shared_eq] at hroom
  unfold addSharedFence
  rcases hstaged : obj.staged with _ | max
  · rcases hfence : obj.fence with _ | old
    · simp [hstaged, hfence] at hroom
    · rw [hstaged, hfence] at hroom
      have hlt : old.sharedCount < old.sharedMax := hroom
      obtain ⟨l, refs', hl, -⟩ := addSharedInplace_spec ctx fence hlt refs
      dsimp only
      rw [if_neg (Nat.not_le.2 hlt), hl]
      exact ⟨_, rfl⟩
  · rw [hstaged] at hroom
    obtain ⟨r, hr⟩ := addSharedReplace_isOk ctx fence refs hroom
    dsimp only
    rw [hr]
    exact ⟨_, rfl⟩

end Slot

/-! ## The other functions -/

section Others

variable {F : Type} [DecidableEq F]

/-- `reservation_object_add_excl_fence`. The list stays, without fences; the references are
released from the last slot on. -/
def addExclFence (obj : Obj F) (fence : Option F) (refs : Refs F) : Obj F × Refs F :=
  ({ obj with
      fenceExcl := fence
      fence := obj.fence.map fun l => { l with shared := [] } },
    dmaFencePut? obj.fenceExcl (obj.shared.foldr dmaFencePut (dmaFenceGet? fence refs)))

/-- `reservation_object_copy_fences`, where the new list cannot be allocated if `alloc` is not
set. The references of the old list of `dst` stay as they are. -/
def copyFences (alloc : Bool) (dst src : Obj F) (refs : Refs F) : Obj F × Refs F × Ret :=
  match src.fence with
  | some l =>
    if alloc then
      ({ fenceExcl := src.fenceExcl, fence := some ⟨l.sharedCount, l.shared⟩, staged := none },
        dmaFencePut? dst.fenceExcl
          (dmaFenceGet? src.fenceExcl (l.shared.foldl (fun r f => dmaFenceGet f r) refs)),
        .zero)
    else (dst, refs, .enomem)
  | none =>
    ({ fenceExcl := src.fenceExcl, fence := none, staged := none },
      dmaFencePut? dst.fenceExcl (dmaFenceGet? src.fenceExcl refs), .zero)

/-- `reservation_object_fini` -/
def fini (obj : Obj F) (refs : Refs F) : Refs F :=
  obj.shared.foldl (fun r f => dmaFencePut f r) (dmaFencePut? obj.fenceExcl refs)

lemma addExclFence_shared (obj : Obj F) (fence : Option F) (refs : Refs F) :
    (addExclFence obj fence refs).1.shared = [] := by
  unfold addExclFence Obj.shared
  cases obj.fence <;> rfl

end Others

end KmsDrm.Reservation
