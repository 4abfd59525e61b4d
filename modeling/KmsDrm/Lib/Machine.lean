import Mathlib

/-!
# Machines with partial steps

A machine takes steps that are labelled by actions. A step need not be possible in every state.
Properties of a whole run follow from what one step keeps.

## Main results

* `Lib.Machine.Runs.invariant` — what every step keeps holds in every state reached.
* `Lib.Machine.exec_runs` — an execution is a run.
-/

namespace KmsDrm.Lib.Machine

variable {σ α : Type} (step : α → σ → Option σ)

/-- The states a run from `init` reaches, all of whose steps meet `cond`. -/
inductive Runs (cond : σ → α → Prop) (init : σ) : σ → Prop
  | start : Runs cond init init
  | step {s s' : σ} (a : α) (h : Runs cond init s) (hcond : cond s a) (hstep : step a s = some s') :
      Runs cond init s'

def Reachable (init : σ) : σ → Prop := Runs step (fun _ _ => True) init

def exec (s : σ) : List α → Option σ
  | [] => some s
  | a :: rest => (step a s).bind fun s' => exec s' rest

/-- Execute a list of actions that all meet a condition. -/
def execIf (cond : σ → α → Prop) [∀ s a, Decidable (cond s a)] (s : σ) : List α → Option σ
  | [] => some s
  | a :: rest => if cond s a then (step a s).bind fun s' => execIf cond s' rest else none

variable {step}

lemma Runs.invariant {cond : σ → α → Prop} {init s : σ} {P : σ → Prop} (hinit : P init)
    (hstep : ∀ s a s', P s → cond s a → step a s = some s' → P s') (h : Runs step cond init s) :
    P s := by
  induction h with
  | start => exact hinit
  | step a _ hcond hs ih => exact hstep _ a _ ih hcond hs

lemma Runs.trans {cond : σ → α → Prop} {s t u : σ} (h : Runs step cond s t)
    (h' : Runs step cond t u) : Runs step cond s u := by
  induction h' with
  | start => exact h
  | step a _ hcond hs ih => exact .step a ih hcond hs

lemma exec_runs {s s' : σ} {actions : List α} (h : exec step s actions = some s') :
    Reachable step s s' := by
  induction actions generalizing s with
  | nil =>
    cases h
    exact .start
  | cons a rest ih =>
    obtain ⟨t, hs, hrest⟩ := Option.bind_eq_some_iff.1 h
    exact Runs.trans (.step a .start trivial hs) (ih hrest)

lemma execIf_runs {cond : σ → α → Prop} [∀ s a, Decidable (cond s a)] {s s' : σ}
    {actions : List α} (h : execIf step cond s actions = some s') : Runs step cond s s' := by
  induction actions generalizing s with
  | nil =>
    cases h
    exact .start
  | cons a rest ih =>
    rw [execIf, Option.ite_none_right_eq_some] at h
    obtain ⟨t, hs, hrest⟩ := Option.bind_eq_some_iff.1 h.2
    exact Runs.trans (.step a .start h.1 hs) (ih hrest)

end KmsDrm.Lib.Machine
