import Mathlib

/-!
# Traces of computations that may fail

A computation on a state that also keeps a trace of what it has done, and that keeps the state
when it fails, so that the trace of a failed computation is known as well. The rules here say
under which condition all the entries that a computation adds to the trace are good ones.

## Main results

* `Trace.Adds.trans`, `Trace.Logs.bind` — the rules for a sequence.
-/

namespace KmsDrm.Trace

variable {σ ε α : Type*}

/-- Between the states `s` and `s'` entries were added to the trace `log`, which all have the
property `I` exactly if the condition `P` holds. -/
def Adds (log : σ → List α) (I : α → Prop) (P : Prop) (s s' : σ) : Prop :=
  ∃ new, log s' = log s ++ new ∧ ((∀ a ∈ new, I a) ↔ P)

namespace Adds

variable {log : σ → List α} {I : α → Prop} {P Q : Prop} {s s' s'' : σ}

lemma none (h : log s' = log s) : Adds log I True s s' := ⟨[], by simp [h], by simp⟩

lemma entries {l : List α} (h : log s' = log s ++ l) : Adds log I (∀ a ∈ l, I a) s s' :=
  ⟨l, h, Iff.rfl⟩

lemma entry {a : α} (h : log s' = log s ++ [a]) : Adds log I (I a) s s' := ⟨[a], h, by simp⟩

lemma good {a : α} (ha : I a) (h : log s' = log s ++ [a]) : Adds log I True s s' :=
  ⟨[a], h, by simpa using ha⟩

lemma congr (h : Adds log I P s s') (hPQ : P ↔ Q) : Adds log I Q s s' := by
  obtain ⟨new, hlog, hgood⟩ := h
  exact ⟨new, hlog, hgood.trans hPQ⟩

lemma of_eq {s1 s1' : σ} (h : Adds log I P s1 s1') (hs : log s1 = log s) (hs' : log s' = log s1') :
    Adds log I P s s' := by
  obtain ⟨new, hlog, hgood⟩ := h
  exact ⟨new, by rw [hs', hlog, hs], hgood⟩

lemma trans (h : Adds log I P s s') (h' : Adds log I Q s' s'') : Adds log I (P ∧ Q) s s'' := by
  obtain ⟨new, hlog, hgood⟩ := h
  obtain ⟨new', hlog', hgood'⟩ := h'
  refine ⟨new ++ new', by rw [hlog', hlog, List.append_assoc], ?_⟩
  rw [List.forall_mem_append, hgood, hgood']

lemma forall_iff (h : Adds log I P s s') (hs : log s = []) : (∀ a ∈ log s', I a) ↔ P := by
  obtain ⟨new, hlog, hgood⟩ := h
  rw [hlog, hs, List.nil_append, hgood]

end Adds

/-- The state that a computation has left. -/
def final : Except (ε × σ) σ → σ
  | .ok s => s
  | .error (_, s) => s

/-- From the state `s` to the result `r`, entries were added to the trace `log`. They all have the
property `I` exactly if a condition holds. It is `P` if the result is a success; if not, then `S`
relates it to the state in which the computation stopped. -/
def Logs (log : σ → List α) (I : α → Prop) (P : Prop) (S : σ → Prop → Prop) (s : σ) :
    Except (ε × σ) σ → Prop
  | .ok s' => Adds log I P s s'
  | .error (_, s') => ∃ Q, S s' Q ∧ Adds log I Q s s'

namespace Logs

variable {log : σ → List α} {I : α → Prop} {P Q : Prop} {S T : σ → Prop → Prop} {s s' : σ}
  {r : Except (ε × σ) σ}

lemma fail {e : ε} (h : log s' = log s) (hS : S s' True) : Logs log I P S s (.error (e, s')) :=
  ⟨True, hS, .none h⟩

lemma none (h : log (final r) = log s) (hS : S (final r) True) : Logs log I True S s r := by
  rcases r with ⟨e, s'⟩ | s'
  · exact fail h hS
  · exact Adds.none h

lemma forall_final (h : Logs log I P S s r) (hs : log s = []) (hS : ∀ s' Q, S s' Q → Q)
    (hP : P) : ∀ a ∈ log (final r), I a := by
  rcases r with ⟨e, s'⟩ | s'
  · obtain ⟨Q, hQ, hadds⟩ := h
    exact (hadds.forall_iff hs).2 (hS s' Q hQ)
  · exact (Adds.forall_iff h hs).2 hP

lemma mono (h : Logs log I P S s r) (hPQ : P ↔ Q) (hST : ∀ s' R, S s' R → T s' R) :
    Logs log I Q T s r := by
  rcases r with ⟨e, s'⟩ | s'
  · obtain ⟨R, hR, hadds⟩ := h
    exact ⟨R, hST s' R hR, hadds⟩
  · exact Adds.congr h hPQ

/-- The rule for a computation that begins after entries have been added. -/
lemma after {s1 : σ} (h1 : Adds log I P s s1) (h : Logs log I Q S s1 r)
    (hT : ∀ s' R, S s' R → T s' (P ∧ R)) : Logs log I (P ∧ Q) T s r := by
  rcases r with ⟨e, s'⟩ | s'
  · obtain ⟨R, hR, hadds⟩ := h
    exact ⟨P ∧ R, hT s' R hR, h1.trans hadds⟩
  · exact h1.trans h

lemma after_good {s1 : σ} (h1 : Adds log I True s s1) (h : Logs log I Q S s1 r) :
    Logs log I Q S s r :=
  (after (T := S) h1 h fun s' R hR => by rwa [true_and]).mono (iff_of_eq (true_and Q))
    fun _ _ hR => hR

/-- The rule for a sequence: it stops where its first part stops, or behind it. -/
lemma bind {f : σ → Except (ε × σ) σ} (h : Logs log I P S s r)
    (hf : ∀ s', r = .ok s' → Logs log I Q T s' (f s')) (hT : ∀ s' R, T s' R → S s' (P ∧ R)) :
    Logs log I (P ∧ Q) S s (r.bind f) := by
  rcases r with ⟨e, s'⟩ | s'
  · exact h
  · exact after h (hf s' rfl) hT

end Logs

lemma bind_eq_ok {β : Type*} {r : Except ε σ} {f : σ → Except ε β} {b : β}
    (h : r.bind f = .ok b) : ∃ s, r = .ok s ∧ f s = .ok b := by
  cases r with
  | error e => cases h
  | ok s => exact ⟨s, rfl, h⟩

end KmsDrm.Trace
