import Mathlib

/-!
# Hash tables as buckets

A hash table is an array of bucket lists; an element is added at the head of its bucket and a
lookup walks one bucket. The hash decides which bucket is walked and never what is found, so
nothing is assumed about it.

## Main results

* `Lib.Buckets.addAll_empty` — a bucket holds the elements that hash to it, the latest first.
* `Lib.Buckets.find_addAll` — a lookup whose test implies the bucket is a lookup in the whole list.
-/

namespace KmsDrm.Lib

/-- The buckets of a hash table, by their index. -/
def Buckets (α : Type) : Type := ℕ → List α

namespace Buckets

variable {α : Type}

/-- The empty table. -/
def empty : Buckets α := fun _ => []

/-- Add `x` at the head of bucket `i`. -/
def add (b : Buckets α) (i : ℕ) (x : α) : Buckets α := fun j => if j = i then x :: b j else b j

/-- Add the elements of a list in order, each to the bucket `idx` gives it. -/
def addAll (idx : α → ℕ) (b : Buckets α) : List α → Buckets α
  | [] => b
  | x :: xs => addAll idx (b.add (idx x) x) xs

lemma addAll_apply (idx : α → ℕ) (b : Buckets α) (xs : List α) (i : ℕ) :
    addAll idx b xs i = (xs.filter fun x => idx x = i).reverse ++ b i := by
  induction xs generalizing b with
  | nil => rfl
  | cons x xs ih =>
    rw [addAll, ih, add]
    by_cases h : idx x = i
    · simp [h]
    · simp [h, Ne.symm h]

lemma addAll_empty (idx : α → ℕ) (xs : List α) (i : ℕ) :
    addAll idx empty xs i = xs.reverse.filter fun x => idx x = i := by
  rw [addAll_apply, empty, List.append_nil, List.filter_reverse]

lemma find_addAll (idx : α → ℕ) (xs : List α) (i : ℕ) (p : α → Bool)
    (hp : ∀ x ∈ xs, p x = true → idx x = i) :
    (addAll idx empty xs i).find? p = xs.reverse.find? p := by
  rw [addAll_empty, List.find?_filter]
  apply List.find?_congr
  intro x hx
  cases h : p x with
  | false => simp
  | true => simp [hp x (List.mem_reverse.1 hx) h]

end Buckets

end KmsDrm.Lib
