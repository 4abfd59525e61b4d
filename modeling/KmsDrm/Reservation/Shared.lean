import KmsDrm.Lib.Machine
import KmsDrm.Reservation.Basic

/-!
# The shared fences of a reservation object

A shared fence is added after a slot was reserved for it. Over every run that keeps to this, with
exclusive fences added at any point, the list has a free slot for the next addition, its fences
have different contexts, and a fence leaves the list only if it is replaced by one of its context
or by an exclusive fence.

The capacity of a list is doubled in a `u32`. A list of `2 ^ 31` slots that is full gets a staged
list without slots, and the addition runs past it. Below that bound nothing else is needed.

## Main results

* `Reservation.shared_fences_kept` — the property of the runs that meet the condition.
* `Reservation.shared_overrun` — a run that ends behind the staged list.
-/

namespace KmsDrm.Reservation

open KmsDrm.Lib List

variable {F : Type}

/-- An object with the references, and whether a slot was reserved since the last addition. -/
structure Session (F : Type) where
  obj : Obj F := {}
  refs : Refs F := fun _ => 0
  reserved : Bool := false

/-- The calls of a session. -/
inductive SessionOp (F : Type) where
  | reserveShared (alloc : Bool)
  | addShared (fence : F)
  | addExcl (fence : F)

variable [DecidableEq F]
variable {max n : ℕ} {ctx : F → BitVec 64} {s s' : Session F} {obj : Obj F} {fence : F}
  {refs refs' : Refs F} {l l' : List F}

/-- The steps of a session. A shared fence is added only if a slot was reserved for it. -/
def sessionStep (ctx : F → BitVec 64) : SessionOp F → Session F → Option (Session F)
  | .reserveShared alloc, s =>
    some { s with
      obj := (reserveShared alloc s.obj).1
      reserved := s.reserved || (reserveShared alloc s.obj).2 == .zero }
  | .addShared fence, s =>
    if s.reserved then
      (addSharedFence ctx s.obj fence s.refs).toOption.map fun r => ⟨r.1, r.2, false⟩
    else none
  | .addExcl fence, s =>
    some { s with
      obj := (addExclFence s.obj (some fence) s.refs).1
      refs := (addExclFence s.obj (some fence) s.refs).2 }

lemma sessionStep_addShared (h : sessionStep ctx (.addShared fence) s = some s') :
    ∃ obj refs, addSharedFence ctx s.obj fence s.refs = .ok (obj, refs) ∧
      s' = ⟨obj, refs, false⟩ := by
  simp only [sessionStep] at h
  split_ifs at h
  obtain ⟨⟨obj, refs⟩, hok, rfl⟩ := Option.map_eq_some_iff.1 h
  cases hr : addSharedFence ctx s.obj fence s.refs with
  | error e => simp [hr, Except.toOption] at hok
  | ok r =>
    rw [hr] at hok
    cases hok
    exact ⟨obj, refs, rfl, rfl⟩

/-- The condition on a step: a list that is full has fewer than `2 ^ 31` slots when a slot is
reserved. -/
def DoublesBelow (s : Session F) : SessionOp F → Prop
  | .reserveShared _ =>
    ∀ l, s.obj.fence = some l → l.sharedMax ≤ l.sharedCount → l.sharedMax < 2 ^ 31
  | _ => True

/-! ## The invariant -/

/-- The invariant of an object: its list fits, its contexts are different, and a staged list has
a free slot. -/
structure SharedInv (ctx : F → BitVec 64) (obj : Obj F) : Prop where
  count : ∀ l, obj.fence = some l → l.sharedCount ≤ l.sharedMax
  contexts : (obj.shared.map ctx).Nodup
  staged : ∀ max, obj.staged = some max → obj.shared.length < max

omit [DecidableEq F] in
lemma SharedInv.reserveShared (hi : SharedInv ctx obj)
    (hmax : ∀ l, obj.fence = some l → l.sharedMax ≤ l.sharedCount → l.sharedMax < 2 ^ 31)
    (alloc : Bool) :
    SharedInv ctx (Reservation.reserveShared alloc obj).1 ∧
      ((Reservation.reserveShared alloc obj).2 = .zero ∨ obj.HasRoom →
        (Reservation.reserveShared alloc obj).1.HasRoom) := by
  rcases reserveShared_cases alloc obj with ⟨l, hl, hroom, hr⟩ | hr | ⟨max, hr, hcase⟩
  · rw [hr]
    refine ⟨⟨hi.count, hi.contexts, by simp⟩, fun _ => ?_⟩
    simp only [hl]
    exact hroom
  · rw [hr]
    exact ⟨hi, by simp⟩
  · -- the staged list is larger than the list
    have hlt : obj.shared.length < max := by
      rw [Obj.shared_eq]
      rcases hcase with ⟨rfl, hzero⟩ | ⟨l, hl, hne, hfull, rfl⟩
      · cases hfence : obj.fence with
        | none => simp
        | some l =>
          have hcount := hi.count l hfence
          have hl := hzero l hfence
          unfold FenceList.sharedCount at hcount
          simp only [Option.elim]
          omega
      · have hcount := hi.count l hl
        have hbound := hmax l hl hfull
        unfold FenceList.sharedCount at hcount
        simp only [hl, Option.elim]
        omega
    rw [hr]
    refine ⟨⟨hi.count, hi.contexts, ?_⟩, fun _ => hlt⟩
    intro m hm
    cases hm
    exact hlt

lemma Inserted.contexts (h : Inserted ctx fence l l' refs refs') (hl : (l.map ctx).Nodup) :
    (l'.map ctx).Nodup := by
  cases h with
  | slot xs ys oldFence hl1 hl' hctx _ =>
    subst hl1 hl'
    simpa [hctx] using hl
  | fresh hctx hl' _ =>
    subst hl'
    rw [map_append, nodup_append]
    refine ⟨hl, nodup_singleton _, ?_⟩
    simpa using hctx

lemma Inserted.mem {f : F} (h : Inserted ctx fence l l' refs refs') (hf : f ∈ l) :
    f ∈ l' ∨ ctx fence = ctx f ∧ fence ∈ l' := by
  cases h with
  | slot xs ys oldFence hl hl' hctx _ =>
    subst hl hl'
    simp only [mem_append, mem_cons] at hf ⊢
    rcases hf with hf | rfl | hf
    · exact .inl (.inl hf)
    · exact .inr ⟨hctx.symm, .inr (.inl trivial)⟩
    · exact .inl (.inr (.inr hf))
  | fresh _ hl' _ =>
    subst hl'
    exact .inl (mem_append_left _ hf)

lemma SharedInv.addShared {obj' : Obj F} (hi : SharedInv ctx obj)
    (h : addSharedFence ctx obj fence refs = .ok (obj', refs')) : SharedInv ctx obj' := by
  obtain ⟨-, hstaged, l, hl, -, hcount, hins⟩ := addSharedFence_spec h
  have hshared : obj'.shared = l.shared := by
    rw [Obj.shared_eq, hl]
    rfl
  refine ⟨?_, ?_, by simp [hstaged]⟩
  · intro l' hl'
    obtain rfl := Option.mem_unique hl hl'
    exact hcount
  · rw [hshared]
    exact hins.contexts hi.contexts

lemma addExclFence_capacity (obj : Obj F) (fence : Option F) (refs : Refs F) :
    (addExclFence obj fence refs).1.capacity = obj.capacity := by
  unfold addExclFence Obj.capacity
  cases obj.staged <;> cases obj.fence <;> rfl

lemma SharedInv.addExcl (hi : SharedInv ctx obj) (fence : Option F) (refs : Refs F) :
    SharedInv ctx (addExclFence obj fence refs).1 := by
  refine ⟨?_, by simp [addExclFence_shared], ?_⟩
  · intro l hl
    obtain ⟨l0, -, rfl⟩ := Option.map_eq_some_iff.1 hl
    simp [FenceList.sharedCount]
  · intro max hmax
    rw [addExclFence_shared]
    exact Nat.zero_lt_of_lt (hi.staged max hmax)

/-! ## The property of a run -/

/-- The invariant of a session: a slot that was reserved is there. -/
structure SessionInv (ctx : F → BitVec 64) (s : Session F) : Prop where
  shared : SharedInv ctx s.obj
  room : s.reserved = true → s.obj.HasRoom

lemma SessionInv.step {op : SessionOp F} (hi : SessionInv ctx s) (hcond : DoublesBelow s op)
    (h : sessionStep ctx op s = some s') : SessionInv ctx s' := by
  cases op with
  | reserveShared alloc =>
    cases h
    obtain ⟨hinv, hroom⟩ := hi.shared.reserveShared hcond alloc
    refine ⟨hinv, fun hres => hroom ?_⟩
    simp only [Bool.or_eq_true, beq_iff_eq] at hres
    exact hres.symm.imp_right hi.room
  | addShared fence =>
    obtain ⟨obj', refs', hok, rfl⟩ := sessionStep_addShared h
    exact ⟨hi.shared.addShared hok, by simp⟩
  | addExcl fence =>
    cases h
    refine ⟨hi.shared.addExcl (some fence) s.refs, fun hres => ?_⟩
    have hroom := hi.room hres
    unfold Obj.HasRoom at hroom ⊢
    rw [addExclFence_shared, addExclFence_capacity]
    exact Nat.zero_lt_of_lt hroom

lemma runs_sessionInv (h : Machine.Runs (sessionStep ctx) DoublesBelow {} s) :
    SessionInv ctx s := by
  refine h.invariant (P := SessionInv ctx) ?_ fun s op s' hi hcond hs => hi.step hcond hs
  exact ⟨⟨by simp, by simp [Obj.shared], by simp⟩, by simp⟩

/-- **The shared fences are kept.** In every session whose steps meet the condition: the list has
no more fences than slots, and their contexts are different; an addition for which a slot was
reserved neither runs past an array nor into the `BUG_ON`; and a fence that a step takes from the
list is replaced by a fence of its context, or an exclusive fence was added. -/
theorem shared_fences_kept {ctx : F → BitVec 64} {s : Session F}
    (h : Machine.Runs (sessionStep ctx) DoublesBelow {} s) :
    (∀ l, s.obj.fence = some l → l.sharedCount ≤ l.sharedMax) ∧
      (s.obj.shared.map ctx).Nodup ∧
      (s.reserved = true → ∀ fence, ∃ r, addSharedFence ctx s.obj fence s.refs = .ok r) ∧
      ∀ op s', sessionStep ctx op s = some s' → ∀ f ∈ s.obj.shared, f ∉ s'.obj.shared →
        (∃ g, op = .addShared g ∧ ctx g = ctx f ∧ g ∈ s'.obj.shared) ∨
          ∃ g, op = .addExcl g ∧ s'.obj.fenceExcl = some g := by
  have hi := runs_sessionInv h
  refine ⟨hi.shared.count, hi.shared.contexts,
    fun hres fence => addSharedFence_isOk ctx fence (hi.room hres) s.refs, ?_⟩
  intro op s' hstep f hf hf'
  cases op with
  | reserveShared alloc =>
    -- a reservation does not touch the list
    cases hstep
    refine absurd ?_ hf'
    rw [Obj.shared_eq] at hf ⊢
    rcases reserveShared_cases alloc s.obj with ⟨_, _, _, hr⟩ | hr | ⟨_, hr, _⟩ <;>
      simpa [hr] using hf
  | addShared g =>
    obtain ⟨obj', refs', hok, rfl⟩ := sessionStep_addShared hstep
    obtain ⟨-, -, l, hl, -, -, hins⟩ := addSharedFence_spec hok
    have hshared : obj'.shared = l.shared := by
      rw [Obj.shared_eq, hl]
      rfl
    rw [hshared] at hf' ⊢
    rcases hins.mem hf with hmem | ⟨hctx, hg⟩
    · exact absurd hmem hf'
    · exact .inl ⟨g, rfl, hctx, hg⟩
  | addExcl g =>
    cases hstep
    exact .inr ⟨g, rfl, rfl⟩

theorem shared_fences_kept_reserved :
    ∃ s, Machine.Runs (sessionStep (BitVec.ofNat 64)) DoublesBelow {} s ∧
      s.obj.shared = [8] ∧ s.reserved = true ∧
      ∃ r, addSharedFence (BitVec.ofNat 64) s.obj 9 s.refs = .ok r := by
  have hrun : ∃ s : Session ℕ, Machine.Runs (sessionStep (BitVec.ofNat 64)) DoublesBelow {} s ∧
      s.obj.shared = [8] ∧ s.reserved = true := by
    refine ⟨_, ((((Machine.Runs.start.step (.reserveShared true) ?_ rfl).step
      (.addExcl 7) trivial rfl).step (.addShared 8) trivial rfl).step
      (.reserveShared true) ?_ rfl), rfl, rfl⟩
    · intro l hl
      cases hl
    · intro l hl _
      cases hl
      decide
  obtain ⟨s, hs, hshared, hres⟩ := hrun
  exact ⟨s, hs, hshared, hres, (shared_fences_kept hs).2.2.1 hres 9⟩

/-! ## The list of `2 ^ 31` slots -/

/-- An object with the fences `0, …, n - 1` in a list of capacity `max`. -/
def filled (max n : ℕ) : Obj ℕ := ⟨none, some ⟨max, List.range n⟩, none⟩

lemma addSharedFence_filled (obj : Obj ℕ) (hn : n < 2 ^ 64) (hexcl : obj.fenceExcl = none)
    (hshared : obj.shared = List.range n) (hcap : obj.capacity = max) (hroom : n < max)
    (refs : Refs ℕ) :
    ∃ refs', addSharedFence (BitVec.ofNat 64) obj n refs = .ok (filled max (n + 1), refs') := by
  have hhas : obj.HasRoom := by
    unfold Obj.HasRoom
    rw [hshared, hcap, length_range]
    exact hroom
  obtain ⟨⟨⟨excl, fence, staged⟩, refs'⟩, hok⟩ := addSharedFence_isOk (BitVec.ofNat 64) n hhas refs
  obtain ⟨he, hstaged, l, hl, hmax, -, hins⟩ := addSharedFence_spec hok
  have hl' : l.shared = List.range (n + 1) := by
    rw [hshared] at hins
    cases hins with
    | slot xs ys g hxs _ hctx _ =>
      have hg : g < n := by
        rw [← mem_range, hxs]
        simp
      have heq := congrArg BitVec.toNat hctx
      rw [BitVec.toNat_ofNat, BitVec.toNat_ofNat] at heq
      omega
    | fresh _ hfresh _ => rw [hfresh, range_succ]
  obtain ⟨m, shared⟩ := l
  simp only at he hstaged hl hmax hl'
  refine ⟨refs', ?_⟩
  rw [hok, he, hexcl, hl, hstaged, hmax, hcap, hl', filled]

/-- The object after a reservation: a list that is full has a staged list. -/
def filledReserved (max n : ℕ) : Obj ℕ :=
  { filled max n with staged := if n < max then none else some (max * 2 % 2 ^ 32) }

lemma reserveShared_filled (hmax : max ≠ 0) (n : ℕ) :
    reserveShared true (filled max n) = (filledReserved max n, .zero) := by
  unfold reserveShared growStaged filledReserved filled FenceList.sharedCount
  simp only [length_range]
  split_ifs <;> rfl

lemma sessionStep_reserve {s : Session ℕ} (hobj : s.obj = filled max n) (hmax : max ≠ 0) :
    sessionStep (BitVec.ofNat 64) (.reserveShared true) s =
      some ⟨filledReserved max n, s.refs, true⟩ := by
  simp only [sessionStep, hobj, reserveShared_filled hmax, beq_self_eq_true, Bool.or_true]

lemma reachable_round {s : Session ℕ} (max' : ℕ)
    (h : Machine.Reachable (sessionStep (BitVec.ofNat 64)) {} s) (hobj : s.obj = filled max n)
    (hmax : max ≠ 0) (hn : n < 2 ^ 64) (hcap : max' = if n < max then max else max * 2 % 2 ^ 32)
    (hroom : n < max') :
    ∃ s', Machine.Reachable (sessionStep (BitVec.ofNat 64)) {} s' ∧
      s'.obj = filled max' (n + 1) := by
  have hreserve := h.step (.reserveShared true) trivial (sessionStep_reserve hobj hmax)
  have hcap' : (filledReserved max n).capacity = max' := by
    rw [hcap]
    unfold Obj.capacity filledReserved filled
    split_ifs <;> rfl
  obtain ⟨refs', hadd⟩ := addSharedFence_filled _ hn rfl rfl hcap' hroom s.refs
  refine ⟨⟨filled max' (n + 1), refs', false⟩, hreserve.step (.addShared n) trivial ?_, rfl⟩
  simp only [sessionStep, hadd]
  rfl

lemma reachable_filled (hn : n < 2 ^ 31) :
    ∃ s j, Machine.Reachable (sessionStep (BitVec.ofNat 64)) {} s ∧ s.obj = filled (2 ^ j) (n + 1) ∧
      j ≤ 31 ∧ n < 2 ^ j := by
  induction n with
  | zero =>
    exact ⟨_, 2, (Machine.Runs.start.step (.reserveShared true) trivial rfl).step
      (.addShared 0) trivial rfl, rfl, by decide, by decide⟩
  | succ n ih =>
    obtain ⟨s, j, hs, hobj, hj, hnj⟩ := ih (by omega)
    have hpos : 2 ^ j ≠ 0 := (Nat.two_pow_pos j).ne'
    by_cases hlt : n + 1 < 2 ^ j
    · obtain ⟨s', hs', hobj'⟩ := reachable_round (2 ^ j) hs hobj hpos (by omega)
        (by rw [if_pos hlt]) hlt
      exact ⟨s', j, hs', hobj', hj, hlt⟩
    · -- the list is full, and below the bound its capacity is doubled
      have hj' : j < 31 := by
        rw [← Nat.pow_lt_pow_iff_right (a := 2) (by decide)]
        omega
      obtain ⟨s', hs', hobj'⟩ := reachable_round (2 ^ (j + 1)) hs hobj hpos (by omega)
        (by rw [if_neg hlt]; omega) (by rw [Nat.pow_succ]; omega)
      exact ⟨s', j + 1, hs', hobj', hj', by rw [Nat.pow_succ]; omega⟩

lemma addSharedFence_overrun (hn : 0 < n) (max : ℕ) (ctx : ℕ → BitVec 64) (fence : ℕ)
    (refs : Refs ℕ) :
    addSharedFence ctx { filled max n with staged := some 0 } fence refs = .error .overrun := by
  have hcount : ¬ (List.range n).length ≤ 0 := by
    rw [length_range]
    omega
  unfold addSharedFence addSharedReplace filled FenceList.sharedCount
  dsimp only
  rw [if_neg hcount]
  rfl

/-- **An addition that runs past the staged list.** After `2 ^ 31` fences of different contexts
were added, each one after a reservation, the next reservation succeeds and stages a list without
slots, and the addition runs past it. -/
theorem shared_overrun :
    ∃ s : Session ℕ, Machine.Reachable (sessionStep (BitVec.ofNat 64)) {} s ∧ s.reserved = true ∧
      ∀ fence, addSharedFence (BitVec.ofNat 64) s.obj fence s.refs = .error .overrun := by
  obtain ⟨s, j, hs, hobj, hj, hlt⟩ := reachable_filled (n := 2 ^ 31 - 1) (by decide)
  have hj' : j = 31 := by
    have hpow : 2 ^ 30 < 2 ^ j := by omega
    have := (Nat.pow_lt_pow_iff_right (a := 2) (by decide)).1 hpow
    omega
  subst hj'
  have hreserve := hs.step (.reserveShared true) trivial (sessionStep_reserve hobj (by decide))
  exact ⟨_, hreserve, rfl, fun fence => addSharedFence_overrun (by decide) _ _ _ _⟩

end KmsDrm.Reservation
