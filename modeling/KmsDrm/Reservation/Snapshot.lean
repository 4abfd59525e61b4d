import KmsDrm.Reservation.References

/-!
# A snapshot of the fences of a reservation object

`reservation_object_get_fences_rcu` copies the fences of an object while others change it, and
starts again when a turn of its loop fails. A pointer to the exclusive fence that a failed turn
leaves behind is handed out if no memory is found in the next one.

## Main definitions

* `Reservation.getFencesRcu` — the loop.

## Main results

* `Reservation.snapshot_right_iff` — when what it hands out is right.
-/

namespace KmsDrm.Reservation

variable {F : Type}

/-- What a turn of the loop meets: the object as it reads it, whether the two allocations succeed,
whether the sequence count has changed, and the fences of which `dma_fence_get_rcu` gets a
reference. -/
structure Turn (F : Type) where
  obj : Obj F
  nowait : Bool
  kernel : Bool
  changed : Bool
  alive : F → Bool

/-- The local variables, and the references to the fences. -/
structure Locals (F : Type) where
  sharedCount : ℕ := 0
  shared : List F := []
  fenceExcl : Option F := none
  refs : Refs F

/-- The turn has memory for the list that it reads. -/
def Turn.reads (t : Turn F) : Bool := t.obj.fence.isNone || t.nowait

/-- The list and the exclusive fence are read; without a list the array stays as it is. -/
def Locals.read (v : Locals F) (obj : Obj F) : Locals F :=
  let v := { v with fenceExcl := obj.fenceExcl }
  match obj.fence with
  | some l => { v with sharedCount := l.sharedCount, shared := l.shared }
  | none => { v with sharedCount := 0 }

variable [DecidableEq F]

/-- The references to the fences that were read, or their release at the first fence that has
none. -/
def Locals.take (v : Locals F) (alive : F → Bool) : Locals F × Option Ret :=
  let shared := v.shared.take v.sharedCount
  let got := shared.takeWhile alive
  let refs := got.foldl (fun r f => dmaFenceGet f r) (dmaFenceGet? v.fenceExcl v.refs)
  if got.length = shared.length then ({ v with refs := refs }, some .zero)
  else
    let refs := dmaFencePut? v.fenceExcl (got.foldr dmaFencePut refs)
    ({ v with fenceExcl := none, refs := refs }, none)

/-- A turn of the loop, with the value to return if it is the last one. -/
def Turn.run (t : Turn F) (v : Locals F) : Locals F × Option Ret :=
  if t.reads then
    let v := v.read t.obj
    if t.changed || !v.fenceExcl.all t.alive then (v, none) else v.take t.alive
  else if t.kernel then (v, none)
  else ({ v with sharedCount := 0 }, some .enomem)

/-- What the function returns and hands out. -/
structure Snapshot (F : Type) extends Locals F where
  ret : Ret

/-- The end of the function; a null pointer is the empty array. -/
def Locals.handOut (v : Locals F) (ret : Ret) : Snapshot F :=
  { v with shared := if v.sharedCount ≠ 0 then v.shared else [], ret := ret }

/-- `reservation_object_get_fences_rcu` with these turns, of which `last` ends the loop -/
def getFencesRcu (last : Turn F) : List (Turn F) → Locals F → Option (Snapshot F)
  | [], v =>
    match last.run v with
    | (v, some ret) => some (v.handOut ret)
    | (_, none) => none
  | t :: turns, v =>
    match t.run v with
    | (v, none) => getFencesRcu last turns v
    | (_, some _) => none

/-- What a caller relies on, from the references before the call: an error leaves nothing behind,
and else each fence has one more reference for each time it is handed out. -/
def Snapshot.Right (r : Snapshot F) (refs : Refs F) : Prop :=
  match r.ret with
  | .enomem => r.refs = refs ∧ r.fenceExcl = none ∧ r.shared = []
  | .zero => r.shared.length = r.sharedCount ∧
      ∀ f, r.refs f = refs f + (r.fenceExcl.toList ++ r.shared).count f

/-- The exclusive fence is not left behind by a turn that fails. -/
def Turn.Clean (t : Turn F) : Prop :=
  t.obj.fenceExcl = none ∨ t.changed = false ∧ t.obj.fenceExcl.all t.alive = true

variable {t last : Turn F} {v v' : Locals F} {ret : Ret} {turns : List (Turn F)}
  {r : Snapshot F}

lemma Locals.take_none {alive : F → Bool} (h : v.take alive = (v', none)) :
    v'.fenceExcl = none ∧ v'.refs = v.refs := by
  dsimp only [Locals.take] at h
  split_ifs at h
  · cases h
  · cases h
    refine ⟨rfl, funext fun f => ?_⟩
    dsimp only
    rw [dmaFencePut?_apply, foldr_dmaFencePut_apply, foldl_dmaFenceGet_apply, dmaFenceGet?_apply]
    omega

lemma Locals.take_some {alive : F → Bool} (h : v.take alive = (v', some ret)) :
    ret = .zero ∧ v'.sharedCount = v.sharedCount ∧ v'.shared = v.shared ∧
      ∀ f, v'.refs f = v.refs f + (v'.fenceExcl.toList ++ v.shared.take v.sharedCount).count f := by
  dsimp only [Locals.take] at h
  split_ifs at h with hall
  · cases h
    refine ⟨rfl, rfl, rfl, fun f => ?_⟩
    dsimp only
    rw [foldl_dmaFenceGet_apply, dmaFenceGet?_apply,
      (List.takeWhile_prefix alive).eq_of_length hall, List.count_append]
    omega
  · cases h

/-- A turn after which the loop goes on leaves the references as they were. -/
lemma Turn.run_none (h : t.run v = (v', none)) :
    v'.refs = v.refs ∧ (v'.fenceExcl = none ↔ if t.reads then t.Clean else v.fenceExcl = none) := by
  have hexcl : (v.read t.obj).fenceExcl = t.obj.fenceExcl := by
    unfold Locals.read
    split <;> rfl
  have hrefs : (v.read t.obj).refs = v.refs := by
    unfold Locals.read
    split <;> rfl
  simp only [Turn.run] at h
  split_ifs at h ⊢ with hreads hretry
  · cases h
    simp only [Turn.Clean]
    grind
  · obtain ⟨hnone, hsame⟩ := Locals.take_none h
    refine ⟨hsame.trans hrefs, iff_of_true hnone (.inr ?_)⟩
    grind
  · cases h
    exact ⟨rfl, Iff.rfl⟩
  · cases h

lemma Turn.run_some (h : t.run v = (v', some ret)) :
    (v'.handOut ret).Right v.refs ↔ (t.reads = false → v.fenceExcl = none) := by
  simp only [Turn.run] at h
  split_ifs at h with hreads hretry
  · cases h
  · obtain ⟨rfl, hcount, hshared, hrefs⟩ := Locals.take_some h
    refine iff_of_true ?_ (by simp [hreads])
    simp only [Snapshot.Right, Locals.handOut, hrefs, hcount, hshared, Locals.read]
    cases t.obj.fence with
    | none => simp
    | some l => by_cases hl : l.shared = [] <;> simp [FenceList.sharedCount, hl]
  · cases h
  · cases h
    simp [Snapshot.Right, Locals.handOut, hreads]

lemma right_iff (h : getFencesRcu last turns v = some r) :
    r.Right v.refs ↔ (last.reads = false →
      (turns.filter Turn.reads).getLast?.elim (v.fenceExcl = none) Turn.Clean) := by
  induction turns generalizing v with
  | nil =>
    rw [getFencesRcu] at h
    split at h
    · rename_i v' ret hrun
      cases h
      exact Turn.run_some hrun
    · cases h
  | cons t turns ih =>
    rw [getFencesRcu] at h
    split at h
    · rename_i v' hrun
      obtain ⟨hrefs, hexcl⟩ := Turn.run_none hrun
      rw [← hrefs, ih h]
      by_cases hreads : t.reads = true
      · rw [if_pos hreads] at hexcl
        rw [List.filter_cons_of_pos hreads, List.getLast?_cons]
        cases (turns.filter Turn.reads).getLast? <;> simp [hexcl]
      · rw [if_neg hreads] at hexcl
        rw [List.filter_cons_of_neg hreads, hexcl]
    · cases h

/-- **Snapshots.** A call does what its callers rely on exactly if it has memory in its last turn,
or the last turn that has read the fences has not left the exclusive one behind. -/
theorem snapshot_right_iff (refs : Refs F) (turns : List (Turn F)) (last : Turn F)
    (h : getFencesRcu last turns { refs := refs } = some r) : r.Right refs ↔ (last.reads = false →
      ∀ t, (turns.filter Turn.reads).getLast? = some t → t.Clean) := by
  rw [right_iff h]
  cases (turns.filter Turn.reads).getLast? <;> simp

/-- A turn of an object with the fences `0` and `1`, of which `1` may be released. -/
def twoFences (memory alive : Bool) : Turn ℕ :=
  ⟨{ fenceExcl := some 0, fence := some ⟨4, [1]⟩ }, memory, memory, false, fun f => f = 0 || alive⟩

theorem snapshot_right_twoFences : ∃ r, getFencesRcu (twoFences false true) [twoFences true false]
    { refs := fun _ => 1 } = some r ∧ r.Right fun _ => 1 := by
  refine ⟨_, rfl, (snapshot_right_iff _ [twoFences true false] (twoFences false true) rfl).2 ?_⟩
  rintro - t ⟨⟩
  exact .inr ⟨rfl, rfl⟩

/-- The sequence count has changed in the first turn, and the second one has no memory: the
exclusive fence is handed out without a reference. -/
theorem snapshot_stale : ∃ r, getFencesRcu (twoFences false true)
    [{ twoFences true true with changed := true }] { refs := fun _ => 1 } = some r ∧
      r.ret = .enomem ∧ r.fenceExcl = some 0 ∧ ¬ r.Right fun _ => 1 :=
  ⟨_, rfl, rfl, rfl, fun h => by cases h.2.1⟩

end KmsDrm.Reservation
