import Mathlib

/-!
# Signed machine integers

Counters of type `int32_t` as integers that are wrapped when they are stored.

## Main results

* `Lib.toInt32_eq` — values in range are stored as they are.
-/

namespace KmsDrm.Lib

/-- A value stored to an `int32_t`. -/
def toInt32 (x : ℤ) : ℤ := x.bmod (2 ^ 32)

lemma toInt32_eq {x : ℤ} (hl : -2 ^ 31 ≤ x) (hu : x < 2 ^ 31) : toInt32 x = x := by
  refine Int.bmod_eq_of_le ?_ ?_
  · exact hl
  · exact hu

end KmsDrm.Lib
