import KmsDrm.Lib.Marking

/-!
# The search for a cycle of software fences

Before a fence is made to wait for another one, `i915_sw_fence_check_if_after` searches the fences
that wait for it. A first traversal sets the bit `CHECKED` of every fence that it comes to and ends
at the signaler, a second one follows the bits and clears them.

## Main definitions

* `I915.SwFence.checkIfAfter` — the search.

## Main results

* `I915.SwFence.check_if_after_iff` — it finds a fence exactly if it waits, and leaves no bit.
-/

namespace KmsDrm.I915.SwFence

open KmsDrm.Lib (Search)
open Relation (ReflTransGen)

variable {F : Type} [DecidableEq F] (wait : F → List (Option F))

/-- The fences that wait for a fence. An entry of its wait queue with another function than
`i915_sw_fence_wake` is `none`. -/
def waiters (fence : F) : List F := (wait fence).reduceOption

/-- `__i915_sw_fence_check_if_after` -/
def checkIfAfterLocked (signaler : F) : ℕ → F → (F → Bool) → Option (Bool × (F → Bool)) :=
  Search.visit ⟨waiters wait, (· = signaler), true⟩

/-- `__i915_sw_fence_clear_checked_bit` -/
def clearCheckedBit : ℕ → F → (F → Bool) → Option (Bool × (F → Bool)) :=
  Search.visit ⟨waiters wait, fun _ => false, false⟩

variable [Fintype F]

/-- `i915_sw_fence_check_if_after`, with the option `DRM_I915_SW_FENCE_CHECK_DAG` and the bits
`CHECKED` of the fences. -/
def checkIfAfter (checkDag : Bool) (fence signaler : F) (checked : F → Bool) :
    Option (Bool × (F → Bool)) :=
  if !checkDag then some (false, checked)
  else
    (checkIfAfterLocked wait signaler (Fintype.card F + 1) fence checked).bind fun (err, checked) =>
      (clearCheckedBit wait (Fintype.card F + 1) fence checked).map fun r => (err, r.2)

/-- **The search for a cycle.** If the option is set, the search finds a signaler that is reached
from the fence over the wait queues, and no other, in every graph of fences, and clears all the
bits that it has set. Without the option it finds nothing.

**Proof sketch.** The fences that the first search marks are reached over such fences, so that the
second one, which follows the marks, gets to all of them. -/
theorem check_if_after_iff (checkDag : Bool) (fence signaler : F) :
    ∃ err, checkIfAfter wait checkDag fence signaler (fun _ => false) =
        some (err, fun _ => false) ∧
      (err = true ↔ checkDag = true ∧
        ReflTransGen (fun f g => g ∈ waiters wait f) fence signaler) := by
  cases checkDag with
  | false => exact ⟨false, rfl, by simp⟩
  | true =>
    have hfuel : ∀ (S : Search F) flags, (S.unmarked flags).card < Fintype.card F + 1 :=
      fun _ _ => Nat.lt_succ_of_le (Finset.card_le_univ _)
    obtain ⟨err, checked, heq, h⟩ :=
      Search.visit_spec ⟨waiters wait, (· = signaler), true⟩ _ fence (fun _ => false) (hfuel ..)
    obtain ⟨found, cleared, heq', h'⟩ :=
      Search.visit_spec ⟨waiters wait, fun _ => false, false⟩ _ fence checked (hfuel ..)
    have hreach : ∀ f, checked f = true → checked fence = true ∧
        ReflTransGen (fun x y => y ∈ waiters wait x ∧ checked y = true) fence f := by
      intro f hf
      obtain ⟨g, hg, hreach⟩ := (h.reach f hf).resolve_left nofun
      exact List.mem_singleton.1 hg ▸ hreach
    obtain rfl : found = false := by
      rw [← Bool.not_eq_true]
      exact fun hfound => nomatch (h'.hit hfound).choose_spec.1
    obtain rfl : cleared = fun _ => false := by
      funext f
      cases hf : checked f with
      | false => exact h'.mono f hf
      | true =>
        obtain ⟨hfence, hpath⟩ := hreach f hf
        exact (h'.marked_of_path (by simp [hfence])
          (ReflTransGen.mono (fun _ _ hxy => ⟨hxy.1, by simp [hxy.2]⟩) _ _ hpath)).1
    refine ⟨err, ?_, ?_⟩
    · simp [checkIfAfter, checkIfAfterLocked, clearCheckedBit, heq, heq']
    · rw [eq_self, true_and]
      cases err with
      | true =>
        obtain ⟨f, hf, hmark⟩ := h.hit rfl
        obtain rfl := of_decide_eq_true hf
        exact iff_of_true rfl (ReflTransGen.mono (fun _ _ hxy => hxy.1) _ _ (hreach f hmark).2)
      | false =>
        refine iff_of_false nofun fun hpath => ?_
        have hstop := (h.marked_of_path nofun
          (ReflTransGen.mono (fun _ _ hxy => ⟨hxy, nofun⟩) _ _ hpath)).2
        simp at hstop

/-- **Without the option.** The search does not find that a fence would wait for itself. -/
theorem check_if_after_unset :
    checkIfAfter (fun _ : Unit => []) false () () (fun _ => false) = some (false, fun _ => false) ∧
      ReflTransGen (fun f g => g ∈ waiters (fun _ : Unit => []) f) () () :=
  ⟨rfl, .refl⟩

end KmsDrm.I915.SwFence
