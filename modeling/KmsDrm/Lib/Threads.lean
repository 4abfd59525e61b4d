import Mathlib

/-!
# Interleavings of threads

Threads numbered by natural numbers share a state, and each has a program point. A step is one
step of one thread, with the choices its environment makes in it; the steps of the threads are
interleaved in any order.

## Main results

* `Lib.Threads.Runs.invariant` — what every step keeps holds in every state reached.
* `Lib.Threads.exec_runs` — a schedule that can be executed is a run.
-/

namespace KmsDrm.Lib.Threads

open Option

variable {σ π χ : Type}

/-- The shared state and the program point of each thread. -/
structure Config (σ π : Type) where
  shared : σ
  pc : ℕ → π

/-- Change the shared state and move one thread. -/
def Config.move (c : Config σ π) (t : ℕ) (s : σ) (p : π) : Config σ π :=
  ⟨s, Function.update c.pc t p⟩

@[simp]
lemma Config.move_shared (c : Config σ π) (t : ℕ) (s : σ) (p : π) :
    (c.move t s p).shared = s := rfl

@[simp]
lemma Config.move_pc_self (c : Config σ π) (t : ℕ) (s : σ) (p : π) :
    (c.move t s p).pc t = p := Function.update_self ..

lemma Config.move_pc_of_ne (c : Config σ π) {t u : ℕ} (s : σ) (p : π) (h : u ≠ t) :
    (c.move t s p).pc u = c.pc u := Function.update_of_ne h ..

variable (next : ℕ → χ → σ → π → Option (σ × π))

/-- The step of thread `t` with the choice `x`; it is not possible in every state. -/
def fire (c : Config σ π) (t : ℕ) (x : χ) : Option (Config σ π) :=
  (next t x c.shared (c.pc t)).map fun r => c.move t r.1 r.2

/-- The states a run from `init` reaches, all of whose steps meet `cond`. -/
inductive Runs (cond : Config σ π → ℕ → χ → Prop) (init : Config σ π) : Config σ π → Prop
  | start : Runs cond init init
  | step {c c' : Config σ π} (t : ℕ) (x : χ) (h : Runs cond init c) (hcond : cond c t x)
      (hfire : fire next c t x = some c') : Runs cond init c'

/-- The states any interleaving reaches. -/
def Reachable (init : Config σ π) : Config σ π → Prop := Runs next (fun _ _ _ => True) init

/-- Execute a schedule. -/
def exec (c : Config σ π) : List (ℕ × χ) → Option (Config σ π)
  | [] => some c
  | (t, x) :: rest => (fire next c t x).bind fun c' => exec c' rest

variable {next}
variable {c c' init : Config σ π} {t : ℕ} {schedule : List (ℕ × χ)}
  {cond : Config σ π → ℕ → χ → Prop}

lemma fire_eq_some {x : χ} (h : fire next c t x = some c') :
    ∃ s p, next t x c.shared (c.pc t) = some (s, p) ∧ c' = c.move t s p := by
  obtain ⟨⟨s, p⟩, hnext, rfl⟩ := map_eq_some_iff.1 h
  exact ⟨s, p, hnext, rfl⟩

lemma Runs.invariant {P : Config σ π → Prop} (hinit : P init)
    (hstep : ∀ c t x s p, P c → cond c t x → next t x c.shared (c.pc t) = some (s, p) →
      P (c.move t s p))
    (h : Runs next cond init c) : P c := by
  induction h with
  | start => exact hinit
  | step t x _ hcond hfire ih =>
    obtain ⟨s, p, hnext, rfl⟩ := fire_eq_some hfire
    exact hstep _ t x s p ih hcond hnext

lemma exec_runs (hc : Reachable next init c) (h : exec next c schedule = some c') :
    Reachable next init c' := by
  induction schedule generalizing c with
  | nil =>
    cases h
    exact hc
  | cons tx rest ih =>
    obtain ⟨t, x⟩ := tx
    obtain ⟨c1, hfire, hrest⟩ := bind_eq_some_iff.1 h
    exact ih (.step t x hc trivial hfire) hrest

/-- Execute a schedule whose steps all meet a condition. -/
def execIf (next : ℕ → χ → σ → π → Option (σ × π)) (cond : Config σ π → ℕ → χ → Prop)
    [∀ c t x, Decidable (cond c t x)] (c : Config σ π) : List (ℕ × χ) → Option (Config σ π)
  | [] => some c
  | (t, x) :: rest =>
    if cond c t x then (fire next c t x).bind fun c' => execIf next cond c' rest else none

lemma execIf_runs [∀ c t x, Decidable (cond c t x)] (hc : Runs next cond init c)
    (h : execIf next cond c schedule = some c') : Runs next cond init c' := by
  induction schedule generalizing c with
  | nil =>
    cases h
    exact hc
  | cons tx rest ih =>
    obtain ⟨t, x⟩ := tx
    rw [execIf, ite_none_right_eq_some] at h
    obtain ⟨hcond, h⟩ := h
    obtain ⟨c1, hfire, hrest⟩ := bind_eq_some_iff.1 h
    exact ih (.step t x hc hcond hfire) hrest

lemma exec_pc_of_notMem (h : exec next c schedule = some c') {u : ℕ}
    (hu : u ∉ schedule.map Prod.fst) : c'.pc u = c.pc u := by
  induction schedule generalizing c with
  | nil =>
    cases h
    rfl
  | cons tx rest ih =>
    rw [List.map_cons, List.mem_cons, not_or] at hu
    obtain ⟨c1, hfire, hrest⟩ := bind_eq_some_iff.1 h
    obtain ⟨s, p, -, rfl⟩ := fire_eq_some hfire
    rw [ih hrest hu.2, Config.move_pc_of_ne c s p hu.1]

/-! ## What a thread owns -/

section Linked

variable {ι : Type} {P : π → ι → Prop} {R : σ → ℕ → ι → Prop}

/-- The shared state records of each thread what its program point says: `P p x` says that a
thread at `p` owns `x`, and `R s t x` that `t` owns `x`. -/
def Linked (P : π → ι → Prop) (R : σ → ℕ → ι → Prop) (c : Config σ π) : Prop :=
  ∀ t x, P (c.pc t) x ↔ R c.shared t x

lemma Linked.move (h : Linked P R c) {s : σ} {p : π} (hself : ∀ x, P p x ↔ R s t x)
    (hother : ∀ u, u ≠ t → ∀ x, R s u x ↔ R c.shared u x) : Linked P R (c.move t s p) := by
  intro u x
  by_cases hu : u = t
  · subst hu
    rw [Config.move_pc_self]
    exact hself x
  · rw [Config.move_pc_of_ne c s p hu, Config.move_shared, hother u hu x]
    exact h u x

end Linked

end KmsDrm.Lib.Threads
