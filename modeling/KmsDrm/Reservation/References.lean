import KmsDrm.Lib.Machine
import KmsDrm.Reservation.Basic

/-!
# References to the fences of reservation objects

A reservation object owns one reference for each of its slots that holds a fence. Every function
but one keeps this: the number of references of a fence changes by the number of slots it is put
in or taken from. `reservation_object_copy_fences` frees the old list of its destination and does
not release the references of the shared fences in it.

## Main definitions

* `Reservation.Conserves` — a step changes the references by the slots.

## Main results

* `Reservation.step_conserves_iff`, `Reservation.references_conserved` — which steps and runs do.
-/

namespace KmsDrm.Reservation

open KmsDrm.Lib List Option

variable {F : Type} [DecidableEq F]

/-! ## References of one object -/

/-- The slots of an object that hold a fence. -/
def Obj.slots (obj : Obj F) (f : F) : ℤ := obj.fenceExcl.toList.count f + obj.shared.count f

lemma dmaFenceGet_apply (g : F) (refs : Refs F) (f : F) :
    dmaFenceGet g refs f = refs f + [g].count f := by
  unfold dmaFenceGet
  by_cases h : f = g
  · subst h
    simp
  · simp [h, Ne.symm h]

lemma dmaFencePut_apply (g : F) (refs : Refs F) (f : F) :
    dmaFencePut g refs f = refs f - [g].count f := by
  unfold dmaFencePut
  by_cases h : f = g
  · subst h
    simp
  · simp [h, Ne.symm h]

lemma dmaFenceGet?_apply (g : Option F) (refs : Refs F) (f : F) :
    dmaFenceGet? g refs f = refs f + g.toList.count f := by
  cases g with
  | none => simp [dmaFenceGet?]
  | some g => exact dmaFenceGet_apply g refs f

lemma dmaFencePut?_apply (g : Option F) (refs : Refs F) (f : F) :
    dmaFencePut? g refs f = refs f - g.toList.count f := by
  cases g with
  | none => simp [dmaFencePut?]
  | some g => exact dmaFencePut_apply g refs f

lemma foldl_dmaFenceGet_apply (l : List F) (refs : Refs F) (f : F) :
    l.foldl (fun r g => dmaFenceGet g r) refs f = refs f + l.count f := by
  induction l generalizing refs with
  | nil => simp
  | cons g l ih =>
    rw [foldl_cons, ih, dmaFenceGet_apply, ← singleton_append (x := g) (l := l),
      count_append]
    omega

lemma foldl_dmaFencePut_apply (l : List F) (refs : Refs F) (f : F) :
    l.foldl (fun r g => dmaFencePut g r) refs f = refs f - l.count f := by
  induction l generalizing refs with
  | nil => simp
  | cons g l ih =>
    rw [foldl_cons, ih, dmaFencePut_apply, ← singleton_append (x := g) (l := l),
      count_append]
    omega

lemma foldr_dmaFencePut_apply (l : List F) (refs : Refs F) (f : F) :
    l.foldr dmaFencePut refs f = refs f - l.count f := by
  have h := foldl_dmaFencePut_apply l.reverse refs f
  rwa [foldl_reverse, count_reverse] at h

lemma Inserted.conserves {ctx : F → BitVec 64} {fence : F} {l l' : List F} {refs refs' : Refs F}
    (h : Inserted ctx fence l l' refs refs') (f : F) :
    refs' f - refs f = (l'.count f : ℤ) - l.count f := by
  cases h with
  | slot xs ys oldFence hl hl' _ hrefs =>
    subst hl hl' hrefs
    rw [dmaFencePut_apply, dmaFenceGet_apply]
    simp only [count_append, count_cons]
    omega
  | fresh _ hl' hrefs =>
    subst hl' hrefs
    rw [dmaFenceGet_apply, count_append]
    omega

lemma reserveShared_slots (alloc : Bool) (obj : Obj F) (f : F) :
    (reserveShared alloc obj).1.slots f = obj.slots f := by
  unfold reserveShared growStaged
  repeat' split
  all_goals rfl

lemma addSharedFence_conserves {ctx : F → BitVec 64} {fence : F} {obj obj' : Obj F}
    {refs refs' : Refs F} (h : addSharedFence ctx obj fence refs = .ok (obj', refs')) (f : F) :
    refs' f - refs f = obj'.slots f - obj.slots f := by
  obtain ⟨hexcl, -, l, hl, -, -, hins⟩ := addSharedFence_spec h
  rw [hins.conserves f, Obj.slots, Obj.slots, hexcl, obj'.shared_eq, hl]
  simp only [Option.elim]
  omega

lemma addExclFence_conserves (obj : Obj F) (fence : Option F) (refs : Refs F) (f : F) :
    (addExclFence obj fence refs).2 f - refs f =
      (addExclFence obj fence refs).1.slots f - obj.slots f := by
  rw [Obj.slots, Obj.slots, addExclFence_shared]
  unfold addExclFence
  dsimp only
  rw [dmaFencePut?_apply, foldr_dmaFencePut_apply, dmaFenceGet?_apply, count_nil]
  omega

lemma fini_conserves (obj : Obj F) (refs : Refs F) (f : F) :
    fini obj refs f - refs f = -obj.slots f := by
  unfold fini
  rw [foldl_dmaFencePut_apply, dmaFencePut?_apply, Obj.slots]
  omega

/-- A copy is made, unless the memory for the new list is missing. -/
def Copied (alloc : Bool) (src : Obj F) : Prop := src.fence ≠ none → alloc = true

/-- `reservation_object_copy_fences` keeps the references, but for those of the old list of the
destination. -/
lemma copyFences_conserves {alloc : Bool} {src : Obj F} (h : Copied alloc src) (dst : Obj F)
    (refs : Refs F) (f : F) :
    (copyFences alloc dst src refs).2.1 f - refs f =
      (copyFences alloc dst src refs).1.slots f - dst.slots f + dst.shared.count f := by
  unfold copyFences
  rcases hfence : src.fence with _ | l
  · dsimp only
    rw [dmaFencePut?_apply, dmaFenceGet?_apply, Obj.slots, Obj.slots]
    simp only [Obj.shared, count_nil]
    omega
  · rw [h (by simp [hfence])]
    simp only [if_true]
    rw [dmaFencePut?_apply, dmaFenceGet?_apply, foldl_dmaFenceGet_apply, Obj.slots, Obj.slots]
    simp only [Obj.shared]
    omega

lemma copyFences_of_not_copied {alloc : Bool} {src : Obj F} (h : ¬ Copied alloc src)
    (dst : Obj F) (refs : Refs F) : copyFences alloc dst src refs = (dst, refs, .enomem) := by
  unfold Copied at h
  push Not at h
  obtain ⟨hsome, halloc⟩ := h
  unfold copyFences
  cases hfence : src.fence with
  | none => exact absurd hfence hsome
  | some l => simp [halloc]

/-! ## A world of objects -/

section World

variable {ι : Type} [Fintype ι] [DecidableEq ι]

/-- The references of the fences and the objects that are alive. -/
structure World (ι F : Type) where
  refs : Refs F
  objs : ι → Option (Obj F)

/-- The calls. -/
inductive Op (ι F : Type) where
  | reserveShared (i : ι) (alloc : Bool)
  | addShared (i : ι) (fence : F)
  | addExcl (i : ι) (fence : Option F)
  | copyFences (dst src : ι) (alloc : Bool)
  | fini (i : ι)

/-- Change the references and one object. -/
def World.put (w : World ι F) (i : ι) (obj : Option (Obj F)) (refs : Refs F) : World ι F :=
  ⟨refs, Function.update w.objs i obj⟩

/-- A call on the objects that are alive. A call that ends the run of the kernel has no
successor. -/
def step (ctx : F → BitVec 64) : Op ι F → World ι F → Option (World ι F)
  | .reserveShared i alloc, w => do
    let obj ← w.objs i
    return w.put i (some (reserveShared alloc obj).1) w.refs
  | .addShared i fence, w => do
    let obj ← w.objs i
    let (obj', refs) ← (addSharedFence ctx obj fence w.refs).toOption
    return w.put i (some obj') refs
  | .addExcl i fence, w => do
    let obj ← w.objs i
    return w.put i (some (addExclFence obj fence w.refs).1) (addExclFence obj fence w.refs).2
  | .copyFences dst src alloc, w => do
    let d ← w.objs dst
    let s ← w.objs src
    return w.put dst (some (copyFences alloc d s w.refs).1) (copyFences alloc d s w.refs).2.1
  | .fini i, w => do
    let obj ← w.objs i
    return w.put i none (fini obj w.refs)

/-- The slots of all objects that hold a fence. -/
def World.slots (w : World ι F) (f : F) : ℤ := ∑ i, (w.objs i).elim 0 fun obj => obj.slots f

lemma World.slots_put (w : World ι F) (i : ι) (obj : Option (Obj F)) (refs : Refs F) (f : F) :
    (w.put i obj refs).slots f - w.slots f =
      (obj.elim 0 fun o => o.slots f) - (w.objs i).elim 0 fun o => o.slots f := by
  have hupd : (fun j => (Function.update w.objs i obj j).elim 0 fun o => o.slots f) =
      Function.update (fun j => (w.objs j).elim 0 fun o => o.slots f) i
        (obj.elim 0 fun o => o.slots f) := by
    funext j
    by_cases hj : j = i
    · subst hj
      simp
    · simp [hj]
  have hsum := Finset.sum_erase_eq_sub (f := fun j => (w.objs j).elim 0 fun o => o.slots f)
    (Finset.mem_univ i)
  unfold World.slots World.put
  rw [hupd, Finset.sum_update_of_mem (Finset.mem_univ i), ← Finset.erase_eq]
  omega

/-- The references change with the slots. -/
def Conserves (w w' : World ι F) : Prop := ∀ f, w'.refs f - w.refs f = w'.slots f - w.slots f

/-- The condition on a step: a copy that is made has a destination without shared fences. -/
def KeepsReferences (w : World ι F) : Op ι F → Prop
  | .copyFences dst src alloc =>
    ∀ d s, w.objs dst = some d → w.objs src = some s → Copied alloc s → d.shared = []
  | _ => True

lemma conserves_put {w : World ι F} {i : ι} {obj : Obj F} (hobj : w.objs i = some obj)
    (obj' : Option (Obj F)) (refs : Refs F) :
    Conserves w (w.put i obj' refs) ↔
      ∀ f, refs f - w.refs f = (obj'.elim 0 fun o => o.slots f) - obj.slots f := by
  refine forall_congr' fun f => ?_
  rw [World.slots_put, hobj]
  rfl

/-- **What a step does to the references.** The references change with the slots exactly if the
step is not a copy over shared fences. -/
theorem step_conserves_iff {ctx : F → BitVec 64} {op : Op ι F} {w w' : World ι F}
    (h : step ctx op w = some w') : Conserves w w' ↔ KeepsReferences w op := by
  cases op with
  | reserveShared i alloc =>
    obtain ⟨obj, hobj, hw⟩ := bind_eq_some_iff.1 h
    cases hw
    refine iff_of_true ((conserves_put hobj ..).2 fun f => ?_) trivial
    simp [reserveShared_slots]
  | addShared i fence =>
    obtain ⟨obj, hobj, hadd⟩ := bind_eq_some_iff.1 h
    obtain ⟨⟨obj', refs⟩, hok, hw⟩ := bind_eq_some_iff.1 hadd
    cases hw
    refine iff_of_true ((conserves_put hobj ..).2 fun f => ?_) trivial
    cases hr : addSharedFence ctx obj fence w.refs with
    | error e => simp [hr, Except.toOption] at hok
    | ok r =>
      rw [hr] at hok
      cases hok
      exact addSharedFence_conserves hr f
  | addExcl i fence =>
    obtain ⟨obj, hobj, hw⟩ := bind_eq_some_iff.1 h
    cases hw
    refine iff_of_true ((conserves_put hobj ..).2 fun f => ?_) trivial
    exact addExclFence_conserves obj fence w.refs f
  | fini i =>
    obtain ⟨obj, hobj, hw⟩ := bind_eq_some_iff.1 h
    cases hw
    refine iff_of_true ((conserves_put hobj ..).2 fun f => ?_) trivial
    simpa using fini_conserves obj w.refs f
  | copyFences dst src alloc =>
    obtain ⟨d, hd, hcopy⟩ := bind_eq_some_iff.1 h
    obtain ⟨s, hs, hw⟩ := bind_eq_some_iff.1 hcopy
    cases hw
    have hkeeps : KeepsReferences w (.copyFences dst src alloc) ↔
        (Copied alloc s → d.shared = []) := by
      constructor
      · intro hk
        exact hk d s hd hs
      · intro hk d' s' hd' hs'
        obtain rfl := mem_unique hd hd'
        obtain rfl := mem_unique hs hs'
        exact hk
    rw [conserves_put hd, hkeeps]
    by_cases hcopied : Copied alloc s
    · simp only [Option.elim, copyFences_conserves hcopied]
      constructor
      · intro hf _
        rw [eq_nil_iff_forall_not_mem]
        intro f
        rw [← count_eq_zero]
        have := hf f
        omega
      · intro hnil f
        simp [hnil hcopied]
    · simp [copyFences_of_not_copied hcopied, hcopied]

/-- **The references are conserved.** In every run in which no copy is made over shared fences,
the number of references of a fence changes by the number of slots that hold it. So if all
objects are new at the beginning and all of them are finalised at the end, every fence has the
references it had at the beginning. -/
theorem references_conserved {ctx : F → BitVec 64} {w₀ w : World ι F}
    (h : Machine.Runs (step ctx) KeepsReferences w₀ w) :
    (∀ f, w.refs f - w₀.refs f = w.slots f - w₀.slots f) ∧
      ((∀ i, w₀.objs i = some {}) → (∀ i, w.objs i = none) → w.refs = w₀.refs) := by
  have hcons : Conserves w₀ w := by
    refine h.invariant (P := Conserves w₀) (fun f => by omega) ?_
    intro w₁ op w₂ hw₁ hop hstep f
    have h₁ := hw₁ f
    have h₂ := (step_conserves_iff hstep).2 hop f
    omega
  refine ⟨hcons, fun hnew hend => ?_⟩
  funext f
  have hf := hcons f
  have hzero : w.slots f = 0 := Finset.sum_eq_zero fun i _ => by simp [hend i]
  have hzero₀ : w₀.slots f = 0 :=
    Finset.sum_eq_zero fun i _ => by simp [hnew i, Obj.slots, Obj.shared]
  omega

/-- Two new objects, and fences without references, each one of a context of its own. -/
def twoObjects : World (Fin 2) ℕ := ⟨fun _ => 0, fun _ => some {}⟩

theorem references_conserved_twoObjects :
    ∃ w, Machine.Runs (step (BitVec.ofNat 64)) KeepsReferences twoObjects w ∧
      (∀ i, w.objs i = none) ∧ w.refs = twoObjects.refs := by
  have hrun : ∃ w, Machine.Runs (step (BitVec.ofNat 64)) KeepsReferences twoObjects w ∧
      ∀ i, w.objs i = none := by
    refine ⟨_, ((((((Machine.Runs.start.step (.reserveShared 0 true) trivial rfl).step
      (.addShared 0 7) trivial rfl).step (.addExcl 1 (some 8)) trivial rfl).step
      (.copyFences 1 0 true) ?_ rfl).step (.addExcl 0 (some 9)) trivial rfl).step
      (.fini 0) trivial rfl).step (.fini 1) trivial rfl, ?_⟩
    · intro d s hd _ _
      cases hd
      rfl
    · intro i
      match i with
      | 0 => rfl
      | 1 => rfl
  obtain ⟨w, hw, hend⟩ := hrun
  exact ⟨w, hw, hend, (references_conserved hw).2 (fun _ => rfl) hend⟩

/-- **A copy leaks a reference.** A fence is added to an object, another object without fences is
copied over it, and both are finalised: the fence keeps a reference. -/
theorem copyFences_leaks :
    ∃ w, Machine.Reachable (step (BitVec.ofNat 64)) twoObjects w ∧ (∀ i, w.objs i = none) ∧
      w.slots 7 = 0 ∧ w.refs 7 = twoObjects.refs 7 + 1 := by
  have hrun : ∃ w, Machine.exec (step (BitVec.ofNat 64)) twoObjects
      [.reserveShared 0 true, .addShared 0 7, .copyFences 0 1 true, .fini 0, .fini 1] = some w ∧
      (∀ i, w.objs i = none) ∧ w.refs 7 = twoObjects.refs 7 + 1 := by
    refine ⟨_, rfl, fun i => ?_, rfl⟩
    match i with
    | 0 => rfl
    | 1 => rfl
  obtain ⟨w, hexec, hend, hrefs⟩ := hrun
  refine ⟨w, Machine.exec_runs hexec, hend, ?_, hrefs⟩
  exact Finset.sum_eq_zero fun i _ => by simp [hend i]

end World

end KmsDrm.Reservation
