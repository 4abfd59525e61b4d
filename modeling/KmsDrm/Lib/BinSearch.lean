import Mathlib

/-!
# Binary search by a three-way comparison

A binary search over an array that is given by a comparison of its elements with the sought
one, as C code writes it: a half-open interval `[start, stop)` is halved until the comparison
answers `eq` or the interval is empty.

## Main results

* `Lib.BinSearch.search_sound` — what is found is an element that compares equal.
* `Lib.BinSearch.search_complete` — over an ordered array an element that compares equal is found.

## Implementation notes

The loop carries a number of rounds, so that it evaluates in the kernel; the length of the array
is always enough (`Lib.BinSearch.find`).
-/

namespace KmsDrm.Lib.BinSearch

variable {α : Type} (cmp : α → Ordering)

/-- The halving loop on `[start, stop)`: `lt` says that the sought element stands before the
middle one, `gt` that it stands after it. -/
def search (xs : Array α) : ℕ → ℕ → ℕ → Option α
  | 0, _, _ => none
  | rounds + 1, start, stop =>
    if start < stop then
      match xs[start + (stop - start) / 2]? with
      | none => none
      | some x =>
        match cmp x with
        | .lt => search xs rounds start (start + (stop - start) / 2)
        | .gt => search xs rounds (start + (stop - start) / 2 + 1) stop
        | .eq => some x
    else none

/-- The search over a whole array. -/
def find (xs : Array α) : Option α := search cmp xs (xs.size + 1) 0 xs.size

/-- The comparison is monotone along the array: behind an element that is too large all are too
large, and before one that is too small all are too small. -/
def Ordered (xs : Array α) : Prop :=
  xs.toList.Pairwise fun x y => (cmp x = .lt → cmp y = .lt) ∧ (cmp y = .gt → cmp x = .gt)

variable {cmp}

lemma search_sound {xs : Array α} {rounds start stop : ℕ} {x : α}
    (h : search cmp xs rounds start stop = some x) : x ∈ xs ∧ cmp x = .eq := by
  induction rounds generalizing start stop with
  | zero => simp [search] at h
  | succ rounds ih =>
    rw [search] at h
    split_ifs at h with hlt
    split at h
    · simp at h
    · rename_i y hy
      split at h
      · exact ih h
      · exact ih h
      · rename_i heq
        obtain rfl : y = x := by simpa using h
        exact ⟨Array.mem_of_getElem? hy, heq⟩

lemma Ordered.get {xs : Array α} (ho : Ordered cmp xs) {i j : ℕ} {x y : α}
    (hij : i < j) (hi : xs[i]? = some x) (hj : xs[j]? = some y) :
    (cmp x = .lt → cmp y = .lt) ∧ (cmp y = .gt → cmp x = .gt) := by
  obtain ⟨hi', rfl⟩ := Array.getElem?_eq_some_iff.1 hi
  obtain ⟨hj', rfl⟩ := Array.getElem?_eq_some_iff.1 hj
  have h := List.pairwise_iff_getElem.1 ho i j (by simpa using hi') (by simpa using hj') hij
  simpa using h

/-- If a position inside the interval compares equal, the loop finds an element.

**Proof sketch.** By induction on the rounds: a middle element that compares `lt` cannot stand
at or before the position, one that compares `gt` cannot stand at or behind it, so the position
stays inside the half that is kept. -/
lemma search_complete {xs : Array α} (ho : Ordered cmp xs) {rounds start stop i : ℕ} {x : α}
    (hr : stop - start < rounds) (hs : stop ≤ xs.size) (hlo : start ≤ i) (hhi : i < stop)
    (hi : xs[i]? = some x) (hx : cmp x = .eq) : (search cmp xs rounds start stop).isSome := by
  induction rounds generalizing start stop with
  | zero => omega
  | succ rounds ih =>
    have hmid : start + (stop - start) / 2 < xs.size := by omega
    rw [search, if_pos (by omega), Array.getElem?_eq_getElem hmid]
    have hm := Array.getElem?_eq_getElem hmid
    rcases Nat.lt_trichotomy i (start + (stop - start) / 2) with hlt | heq | hgt
    · have hord := ho.get hlt hi hm
      cases hc : cmp xs[start + (stop - start) / 2] with
      | lt => simpa [hc] using ih (by omega) (by omega) hlo hlt
      | eq => simp [hc]
      | gt => simp [hord.2 hc] at hx
    · subst heq
      rw [hm] at hi
      cases hi
      simp [hx]
    · have hord := ho.get hgt hm hi
      cases hc : cmp xs[start + (stop - start) / 2] with
      | lt => simp [hord.1 hc] at hx
      | eq => simp [hc]
      | gt => simpa [hc] using ih (by omega) hs (by omega) hhi

lemma find_isSome_iff {xs : Array α} (ho : Ordered cmp xs) :
    (find cmp xs).isSome ↔ ∃ x ∈ xs, cmp x = .eq := by
  constructor
  · intro h
    obtain ⟨x, hx⟩ := Option.isSome_iff_exists.1 h
    exact ⟨x, search_sound hx⟩
  · rintro ⟨x, hx, hc⟩
    obtain ⟨i, hi, rfl⟩ := Array.mem_iff_getElem.1 hx
    exact search_complete ho (by omega) (Nat.le_refl _) (Nat.zero_le i) hi
      (Array.getElem?_eq_getElem hi) hc

end KmsDrm.Lib.BinSearch
