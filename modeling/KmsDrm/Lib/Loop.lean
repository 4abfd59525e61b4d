import Mathlib

/-!
# Loops as repeated steps

A loop body either goes on with a new state or leaves the loop with a result. The loop repeats
it; the states at which the body starts are the ones the loop reaches.

## Main results

* `Lib.Loop.run_eq_some` — a loop that ends has reached a state at which the body leaves it.
* `Lib.Loop.Reaches.run_eq` — a loop that reaches such a state ends, given enough turns.
* `Lib.Loop.Reaches.invariant` — what every turn keeps holds at every state reached.
* `Lib.Loop.run_isSome` — a loop with a decreasing measure ends within that many turns.
* `Lib.Loop.foldl_induction` — what holds after a fold, from what one element adds to what
  holds for the elements before it.
* `Lib.Loop.forEach_eq_foldl` — if the cursor goes through the elements of a list that
  satisfy `p`, and the body does not disturb it, the loop is a fold over these elements.
-/

namespace KmsDrm.Lib.Loop

open List

variable {σ ρ : Type}

/-- One turn of the body: go on with a state, or leave the loop with a result. -/
inductive Turn (σ ρ : Type) where
  | next (s : σ)
  | leave (r : ρ)

variable (body : σ → Turn σ ρ)

/-- Repeat the body, at most the given number of times. -/
def run : ℕ → σ → Option ρ
  | 0, _ => none
  | turns + 1, s =>
    match body s with
    | .next s' => run turns s'
    | .leave r => some r

/-- The body, started at `s`, is started again at `t` after some turns. -/
def Reaches : σ → σ → Prop := Relation.ReflTransGen fun s t => body s = .next t

variable {body}

lemma run_eq_some {turns : ℕ} {s : σ} {r : ρ} (h : run body turns s = some r) :
    ∃ t, Reaches body s t ∧ body t = .leave r := by
  induction turns generalizing s with
  | zero => simp [run] at h
  | succ turns ih =>
    rw [run] at h
    split at h
    · rename_i s' hs
      obtain ⟨t, ht, hr⟩ := ih h
      exact ⟨t, .head hs ht, hr⟩
    · rename_i r' hr
      cases h
      exact ⟨s, .refl, hr⟩

lemma Reaches.run_eq {s t : σ} {r : ρ} (h : Reaches body s t) (hleave : body t = .leave r) :
    ∃ n, ∀ turns, n ≤ turns → run body turns s = some r := by
  induction h using Relation.ReflTransGen.head_induction_on with
  | refl =>
    refine ⟨1, fun turns hturns => ?_⟩
    obtain ⟨k, rfl⟩ := Nat.exists_eq_add_of_le' hturns
    rw [run, hleave]
  | head hbody _ ih =>
    obtain ⟨n, hn⟩ := ih
    refine ⟨n + 1, fun turns hturns => ?_⟩
    obtain ⟨k, rfl⟩ := Nat.exists_eq_add_of_le' (Nat.le_of_add_left_le hturns)
    rw [run, hbody]
    exact hn k (Nat.le_of_add_le_add_right hturns)

lemma run_unique {turns turns' : ℕ} {s : σ} {r r' : ρ} (h : run body turns s = some r)
    (h' : run body turns' s = some r') : r = r' := by
  obtain ⟨t, ht, hleave⟩ := run_eq_some h
  obtain ⟨t', ht', hleave'⟩ := run_eq_some h'
  obtain ⟨n, hn⟩ := ht.run_eq hleave
  obtain ⟨n', hn'⟩ := ht'.run_eq hleave'
  exact Option.some.inj ((hn _ (Nat.le_max_left n n')).symm.trans (hn' _ (Nat.le_max_right n n')))

lemma Reaches.invariant {P : σ → Prop} (hstep : ∀ s t, P s → body s = .next t → P t)
    {s t : σ} (hs : P s) (h : Reaches body s t) : P t := by
  induction h with
  | refl => exact hs
  | tail _ hbody ih => exact hstep _ _ ih hbody

lemma Reaches.total {s t u : σ} (ht : Reaches body s t) (hu : Reaches body s u) :
    Reaches body t u ∨ Reaches body u t := by
  apply Relation.ReflTransGen.total_of_right_unique _ ht hu
  intro a b c hb hc
  rw [hb] at hc
  exact Turn.next.inj hc

lemma run_isSome {P : σ → Prop} (μ : σ → ℕ)
    (hstep : ∀ s t, P s → body s = .next t → P t ∧ μ t < μ s) {turns : ℕ} {s : σ} (hs : P s)
    (hμ : μ s < turns) : (run body turns s).isSome := by
  induction turns generalizing s with
  | zero => omega
  | succ turns ih =>
    rw [run]
    split
    · rename_i s' hb
      obtain ⟨hP, hlt⟩ := hstep s s' hs hb
      exact ih hP (by omega)
    · rfl

section Rel

variable {σ' ρ' : Type} (R : σ → σ' → Prop) (Q : ρ → ρ' → Prop)

/-- Two turns both go on, with related states, or both leave the loop, with related results. -/
inductive Turn.Rel : Turn σ ρ → Turn σ' ρ' → Prop
  | next {s : σ} {s' : σ'} : R s s' → Turn.Rel (.next s) (.next s')
  | leave {r : ρ} {r' : ρ'} : Q r r' → Turn.Rel (.leave r) (.leave r')

variable {R Q}

lemma run_rel {body' : σ' → Turn σ' ρ'} {P : σ → Prop} (hP : ∀ s t, P s → body s = .next t → P t)
    (hstep : ∀ s s', P s → R s s' → Turn.Rel R Q (body s) (body' s')) (turns : ℕ) {s : σ}
    {s' : σ'} (hs : P s) (hR : R s s') :
    Option.Rel Q (run body turns s) (run body' turns s') := by
  induction turns generalizing s s' with
  | zero => exact .none
  | succ turns ih =>
    have hrel := hstep s s' hs hR
    rw [run, run]
    generalize hb : body s = b, body' s' = b' at hrel
    cases hrel with
    | next h => exact ih (hP s _ hs hb) h
    | leave h => exact .some h

end Rel

/-! ## Folds -/

lemma foldl_induction {α : Type} {P : List α → σ → Prop} {f : σ → α → σ} {l : List α} {s : σ}
    (hinit : P [] s) (hstep : ∀ xs x ys s, l = xs ++ x :: ys → P xs s → P (xs ++ [x]) (f s x)) :
    P l (l.foldl f s) := by
  suffices h : ∀ xs ys s, l = xs ++ ys → P xs s → P l (ys.foldl f s) from
    h [] l s rfl hinit
  intro xs ys
  induction ys generalizing xs with
  | nil =>
    intro s hl hs
    rwa [hl, append_nil]
  | cons x ys ih =>
    intro s hl hs
    exact ih (xs ++ [x]) (f s x) (by simp [hl]) (hstep xs x ys s hl hs)

/-! ## Loops with a cursor -/

section ForEach

variable {α : Type} (body : σ → α → σ) (next : σ → α → Option α)

/-- Run the body on the element under the cursor, then ask for the next element, at most the
given number of times. -/
def forEach : ℕ → Option α → σ → σ
  | turns + 1, some x, s => forEach turns (next (body s x) x) (body s x)
  | _, _, s => s

variable {body next}

/-- **A loop with a cursor is a fold.** Let `next` lead from an element of the list to the next one
that satisfies `p`, in all states that satisfy `I`, and let the body keep `I`. Started at the
first element that satisfies `p`, the loop runs the body on all of them in order. -/
theorem forEach_eq_foldl {I : σ → Prop} {p : α → Bool} {l : List α}
    (hnext : ∀ s x xs ys, I s → l = xs ++ x :: ys → next s x = ys.find? p)
    (hbody : ∀ s x, I s → x ∈ l → I (body s x)) {turns : ℕ} {xs ys : List α}
    (hl : l = xs ++ ys) (hturns : ys.length ≤ turns) {s : σ} (hs : I s) :
    forEach body next turns (ys.find? p) s = (ys.filter p).foldl body s := by
  induction turns generalizing xs ys s with
  | zero =>
    obtain rfl : ys = [] := eq_nil_of_length_eq_zero (Nat.le_zero.1 hturns)
    rfl
  | succ turns ih =>
    cases hf : ys.find? p with
    | none =>
      have : ys.filter p = [] := by
        rw [filter_eq_nil_iff]
        exact List.find?_eq_none.1 hf
      rw [this]
      rfl
    | some x =>
      obtain ⟨hpx, as, bs, rfl, has⟩ := List.find?_eq_some_iff_append.1 hf
      have hfilter : as.filter p = [] := by
        simpa using has
      have hs' := hbody s x hs (by simp [hl])
      rw [forEach, hnext _ x (xs ++ as) bs hs' (by simp [hl]), filter_append, hfilter,
        filter_cons_of_pos hpx]
      have hl' : l = (xs ++ as ++ [x]) ++ bs := by simp [hl]
      refine ih hl' ?_ hs'
      simp only [length_append, length_cons] at hturns
      omega

end ForEach

end KmsDrm.Lib.Loop
