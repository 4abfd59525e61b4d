import KmsDrm.Lib.Threads

/-!
# How many threads are where

The number of the threads whose program points meet a predicate. A step of one thread changes it by
at most one.

## Main definitions

* `Lib.Threads.Number` — that many threads meet the predicate.
-/

namespace KmsDrm.Lib.Threads

variable {σ π : Type} {Q : π → Prop} {c : Config σ π} {n : ℕ} {t u : ℕ} {s : σ} {p : π}

/-- There are `n` threads whose program points meet `Q`. -/
def Number (Q : π → Prop) (c : Config σ π) (n : ℕ) : Prop :=
  ∃ members : Finset ℕ, members.card = n ∧ ∀ t, t ∈ members ↔ Q (c.pc t)

lemma number_zero (h : ∀ t, ¬ Q (c.pc t)) : Number Q c 0 :=
  ⟨∅, rfl, fun t => iff_of_false (Finset.notMem_empty t) (h t)⟩

lemma Number.pos (h : Number Q c n) (ht : Q (c.pc t)) : 0 < n := by
  obtain ⟨members, rfl, hmem⟩ := h
  exact Finset.card_pos.2 ⟨t, (hmem t).2 ht⟩

lemma Number.unique (h : Number Q c n) (hn : n ≤ 1) (ht : Q (c.pc t)) (hu : Q (c.pc u)) :
    t = u := by
  obtain ⟨members, rfl, hmem⟩ := h
  exact Finset.card_le_one.1 hn t ((hmem t).2 ht) u ((hmem u).2 hu)

lemma Number.stay (h : Number Q c n) (hp : Q p ↔ Q (c.pc t)) : Number Q (c.move t s p) n := by
  obtain ⟨members, hcard, hmem⟩ := h
  refine ⟨members, hcard, fun u => ?_⟩
  by_cases hu : u = t
  · rw [hu, Config.move_pc_self, hmem, hp]
  · rw [Config.move_pc_of_ne c s p hu, hmem]

lemma Number.join (h : Number Q c n) (ht : ¬ Q (c.pc t)) (hp : Q p) :
    Number Q (c.move t s p) (n + 1) := by
  obtain ⟨members, rfl, hmem⟩ := h
  refine ⟨insert t members, Finset.card_insert_of_notMem fun hin => ht ((hmem t).1 hin),
    fun u => ?_⟩
  by_cases hu : u = t
  · simp [hu, hp]
  · rw [Config.move_pc_of_ne c s p hu, Finset.mem_insert, or_iff_right hu, hmem]

lemma Number.leave (h : Number Q c n) (ht : Q (c.pc t)) (hp : ¬ Q p) :
    Number Q (c.move t s p) (n - 1) := by
  obtain ⟨members, rfl, hmem⟩ := h
  refine ⟨members.erase t, Finset.card_erase_of_mem ((hmem t).2 ht), fun u => ?_⟩
  by_cases hu : u = t
  · simp [hu, hp]
  · rw [Config.move_pc_of_ne c s p hu, Finset.mem_erase, and_iff_right hu, hmem]

end KmsDrm.Lib.Threads
