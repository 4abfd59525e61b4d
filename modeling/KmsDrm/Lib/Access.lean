import Mathlib

/-!
# Programs that read and write a buffer, and where they do so

A program that reads and writes bytes around a point of a memory and calls code outside, whose
answers it does not control. Addresses are relative to that point. Running a program on given
answers yields a log of its accesses. The question of this module is whether all of them lie
between the point and a limit, whatever the answers are.

## Main results

* `Lib.Prog.safe_iff_exec` — `Safe` is what it says about the logs.
* `Lib.Prog.safe_bind` — the accesses of a sequence of two programs.
* `Lib.Prog.safe_loop` — the accesses of a loop whose body writes nothing.

## Implementation notes

Programs are trees: `read` and `ask` branch over what may come back. `Safe` and `Returns` are
recursions over the tree, so that a program built with `do` unfolds into the conditions on its
accesses.
-/

namespace KmsDrm.Lib

/-! ## Memory -/

/-- A memory, addressed relative to a point in it: negative addresses lie before that point. -/
def Mem (β : Type) : Type := ℤ → β

namespace Mem

variable {β : Type}

/-- The bytes from an address on. -/
def read (m : Mem β) (off : ℤ) (len : ℕ) : List β := (List.range len).map fun i : ℕ => m (off + i)

/-- Store bytes from an address on. -/
def write (m : Mem β) (off : ℤ) (bytes : List β) : Mem β := fun x =>
  if off ≤ x then (bytes[(x - off).toNat]?).getD (m x) else m x

/-- The memory seen from a later point. -/
def drop (m : Mem β) (n : ℕ) : Mem β := fun x => m (n + x)

end Mem

/-! ## Programs -/

/-- Programs over bytes `β`, with answers `ι` from outside, failures `ε` and results `α`. -/
inductive Prog (β ι ε α : Type) : Type where
  /-- Return. -/
  | ret (a : α)
  /-- Stop with a failure. -/
  | fail (e : ε)
  /-- Read bytes. -/
  | read (off : ℤ) (len : ℕ) (k : List β → Prog β ι ε α)
  | write (off : ℤ) (bytes : List β) (k : Prog β ι ε α)
  /-- Call code outside. -/
  | ask (k : ι → Prog β ι ε α)

/-- An access: the bytes `off` up to `off + len`. -/
structure Access where
  /-- The first byte. -/
  off : ℤ
  /-- How many bytes. -/
  len : ℕ
  /-- Whether they are written. -/
  write : Bool
  deriving DecidableEq, Repr

/-- The access lies between the point and a limit. -/
def Access.Inside (lim : ℤ) (a : Access) : Prop := 0 ≤ a.off ∧ a.off + a.len ≤ lim

instance Access.instDecidableInside (lim : ℤ) (a : Access) : Decidable (a.Inside lim) :=
  inferInstanceAs (Decidable (_ ∧ _))

namespace Prog

variable {β ι ε α γ : Type}
variable {lim : ℤ} {body : ℕ → Prog β ι ε Unit} {m : Mem β} {p : Prog β ι ε α} {a : α}

/-- One program after another. -/
protected def bind : Prog β ι ε α → (α → Prog β ι ε γ) → Prog β ι ε γ
  | .ret a, f => f a
  | .fail e, _ => .fail e
  | .read off len k, f => .read off len fun bytes => (k bytes).bind f
  | .write off bytes k, f => .write off bytes (k.bind f)
  | .ask k, f => .ask fun i => (k i).bind f

instance instMonad : Monad (Prog β ι ε) where
  pure := .ret
  bind := .bind

lemma bind_bind {δ : Type} (p : Prog β ι ε α) (f : α → Prog β ι ε γ) (g : γ → Prog β ι ε δ) :
    p >>= f >>= g = p >>= fun a => f a >>= g := by
  change (p.bind f).bind g = p.bind fun a => (f a).bind g
  induction p with
  | ret a => rfl
  | fail e => rfl
  | read off len k ih => exact congrArg (Prog.read off len) (funext ih)
  | write off bytes k ih => exact congrArg (Prog.write off bytes) ih
  | ask k ih => exact congrArg Prog.ask (funext ih)

def mapFail (f : ε → ε) : Prog β ι ε α → Prog β ι ε α
  | .ret a => .ret a
  | .fail e => .fail (f e)
  | .read off len k => .read off len fun bytes => (k bytes).mapFail f
  | .write off bytes k => .write off bytes (k.mapFail f)
  | .ask k => .ask fun i => (k i).mapFail f

/-- `for (j = i; j < i + n; j++) body(j)`: the first failure ends the loop. -/
def loop (body : ℕ → Prog β ι ε Unit) : ℕ → ℕ → Prog β ι ε Unit
  | 0, _ => .ret ()
  | n + 1, i => (body i).bind fun _ => loop body n (i + 1)

/-! ## Running -/

/-- What is left of a run: its accesses, its result, the memory and the answers not used. -/
structure Outcome (β ι ε α : Type) where
  /-- The accesses, in order. -/
  log : List Access
  result : Except ε α
  /-- The memory at the end. -/
  mem : Mem β
  /-- The answers not used. -/
  rest : List ι

/-- One access more, at the beginning. -/
def Outcome.after (a : Access) (o : Outcome β ι ε α) : Outcome β ι ε α :=
  { o with log := a :: o.log }

/-- Run a program on answers given in advance; a default stands for every one that is missing. -/
def exec [Inhabited ι] : Prog β ι ε α → List ι → Mem β → Outcome β ι ε α
  | .ret a, env, m => ⟨[], .ok a, m, env⟩
  | .fail e, env, m => ⟨[], .error e, m, env⟩
  | .read off len k, env, m => ((k (m.read off len)).exec env m).after ⟨off, len, false⟩
  | .write off bytes k, env, m => (k.exec env (m.write off bytes)).after ⟨off, bytes.length, true⟩
  | .ask k, env, m => (k env.headI).exec env.tail m

/-- All accesses lie between the point and the limit, whatever the answers are. -/
def Safe (lim : ℤ) : Prog β ι ε α → Mem β → Prop
  | .ret _, _ => True
  | .fail _, _ => True
  | .read off len k, m => (0 ≤ off ∧ off + len ≤ lim) ∧ (k (m.read off len)).Safe lim m
  | .write off bytes k, m => (0 ≤ off ∧ off + bytes.length ≤ lim) ∧ k.Safe lim (m.write off bytes)
  | .ask k, m => ∀ i, (k i).Safe lim m

/-- The program can return with this value and this memory. -/
def Returns : Prog β ι ε α → Mem β → α → Mem β → Prop
  | .ret a, m, b, m' => b = a ∧ m' = m
  | .fail _, _, _, _ => False
  | .read off len k, m, b, m' => (k (m.read off len)).Returns m b m'
  | .write off bytes k, m, b, m' => k.Returns (m.write off bytes) b m'
  | .ask k, m, b, m' => ∃ i, (k i).Returns m b m'

/-- **Safety is about the logs.**  A program is safe if and only if on all answers every access in
the log of its run lies inside. -/
theorem safe_iff_exec [Inhabited ι] (p : Prog β ι ε α) (m : Mem β) :
    p.Safe lim m ↔ ∀ env, ∀ a ∈ (p.exec env m).log, a.Inside lim := by
  induction p generalizing m with
  | ret a => simp [Safe, exec]
  | fail e => simp [Safe, exec]
  | read off len k ih | write off bytes k ih =>
    simp only [Safe, exec, Outcome.after, List.forall_mem_cons, ih]
    exact ⟨fun h env => ⟨h.1, h.2 env⟩, fun h => ⟨(h []).1, fun env => (h env).2⟩⟩
  | ask k ih =>
    simp only [Safe, ih]
    exact ⟨fun h env => h env.headI env.tail, fun h i env => h (i :: env)⟩

lemma returns_of_exec [Inhabited ι] {env : List ι} (h : (p.exec env m).result = .ok a) :
    p.Returns m a (p.exec env m).mem := by
  induction p generalizing env m with
  | ret b =>
    cases h
    exact ⟨rfl, rfl⟩
  | fail e => cases h
  | read off len k ih => exact ih _ h
  | write off bytes k ih => exact ih h
  | ask k ih => exact ⟨env.headI, ih _ h⟩

lemma exec_of_returns [Inhabited ι] {m' : Mem β} (h : p.Returns m a m') :
    ∃ env, ∀ env', (p.exec (env ++ env') m).result = .ok a ∧
      (p.exec (env ++ env') m).mem = m' ∧ (p.exec (env ++ env') m).rest = env' := by
  induction p generalizing m with
  | ret b =>
    obtain ⟨rfl, rfl⟩ := h
    exact ⟨[], fun env' => ⟨rfl, rfl, rfl⟩⟩
  | fail e => exact h.elim
  | read off len k ih => exact ih _ h
  | write off bytes k ih => exact ih h
  | ask k ih =>
    obtain ⟨i, h⟩ := h
    obtain ⟨env, henv⟩ := ih i h
    exact ⟨i :: env, henv⟩

/-! ## Sequences and loops -/

/-- **The accesses of a sequence.**  The first program's, and the second's after every way the
first can return. -/
theorem safe_bind (p : Prog β ι ε α) (f : α → Prog β ι ε γ) (m : Mem β) :
    (p >>= f).Safe lim m ↔ p.Safe lim m ∧ ∀ a m', p.Returns m a m' → (f a).Safe lim m' := by
  change (p.bind f).Safe lim m ↔ _
  induction p generalizing m with
  | ret b => simp [Prog.bind, Safe, Returns]
  | fail e => simp [Prog.bind, Safe, Returns]
  | read off len k ih | write off bytes k ih => simp only [Prog.bind, Safe, Returns, ih, and_assoc]
  | ask k ih =>
    simp only [Prog.bind, Safe, ih]
    exact ⟨fun h => ⟨fun i => (h i).1, fun a m' ⟨i, hi⟩ => (h i).2 a m' hi⟩,
      fun h i => ⟨h.1 i, fun a m' hi => h.2 a m' ⟨i, hi⟩⟩⟩

lemma returns_bind (p : Prog β ι ε α) (f : α → Prog β ι ε γ) (m m' : Mem β) (b : γ) :
    (p >>= f).Returns m b m' ↔ ∃ a m1, p.Returns m a m1 ∧ (f a).Returns m1 b m' := by
  change (p.bind f).Returns m b m' ↔ _
  induction p generalizing m with
  | ret a => simp [Prog.bind, Returns]
  | fail e => simp [Prog.bind, Returns]
  | read off len k ih => simp only [Prog.bind, Returns, ih]
  | write off bytes k ih => simp only [Prog.bind, Returns, ih]
  | ask k ih =>
    simp only [Prog.bind, Returns, ih]
    exact ⟨fun ⟨i, a, m1, h1, h2⟩ => ⟨a, m1, ⟨i, h1⟩, h2⟩,
      fun ⟨a, m1, ⟨i, h1⟩, h2⟩ => ⟨i, a, m1, h1, h2⟩⟩

@[simp] lemma safe_mapFail (f : ε → ε) (p : Prog β ι ε α) (m : Mem β) :
    (p.mapFail f).Safe lim m ↔ p.Safe lim m := by
  induction p generalizing m with
  | ret a => rfl
  | fail e => rfl
  | read off len k ih | write off bytes k ih | ask k ih => simp only [mapFail, Safe, ih]

/-- The program can return on this memory, and returning leaves the memory as it is. -/
def Passes (p : Prog β ι ε α) (m : Mem β) : Prop := ∃ a, p.Returns m a m

/-- The program writes nothing. -/
def ReadOnly (p : Prog β ι ε α) : Prop := ∀ m a m', p.Returns m a m' → m' = m

section

variable (hbody : ∀ j, (body j).ReadOnly)

include hbody

/-- **The accesses of a loop** whose body writes nothing: those of every round that can be reached,
that is, before which every round can pass. -/
theorem safe_loop (n i : ℕ) (m : Mem β) :
    (loop body n i).Safe lim m ↔
      ∀ j < n, (∀ j' < j, (body (i + j')).Passes m) → (body (i + j)).Safe lim m := by
  induction n generalizing i with
  | zero => simp [loop, Safe]
  | succ n ih =>
    refine (safe_bind (body i) (fun _ => loop body n (i + 1)) m).trans ?_
    constructor
    · rintro ⟨hfirst, hrest⟩ j hj hpass
      rcases j with _ | j
      · exact hfirst
      · -- The first round can pass, and the others are the loop that follows.
        obtain ⟨a, ha⟩ := hpass 0 (Nat.succ_pos j)
        have hsafe := (ih (i + 1)).1 (hrest a m ha) j (Nat.lt_of_succ_lt_succ hj)
        rw [show i + (j + 1) = i + 1 + j by omega]
        refine hsafe fun j' hj' => ?_
        rw [show i + 1 + j' = i + (j' + 1) by omega]
        exact hpass (j' + 1) (Nat.succ_lt_succ hj')
    · intro h
      refine ⟨h 0 (Nat.succ_pos n) fun j' hj' => absurd hj' (Nat.not_lt_zero j'), ?_⟩
      intro a m' ha
      obtain rfl := hbody i m a m' ha
      refine (ih (i + 1)).2 fun j hj hpass => ?_
      rw [show i + 1 + j = i + (j + 1) by omega]
      refine h (j + 1) (Nat.succ_lt_succ hj) fun j' hj' => ?_
      rcases j' with _ | j'
      · exact ⟨a, ha⟩
      · rw [show i + (j' + 1) = i + 1 + j' by omega]
        exact hpass j' (Nat.lt_of_succ_lt_succ hj')

lemma safe_loop_of_passes (hpass : ∀ j, (body j).Passes m)
    (n : ℕ) : (loop body n 0).Safe lim m ↔ ∀ j < n, (body j).Safe lim m := by
  simp only [safe_loop hbody, Nat.zero_add]
  exact ⟨fun h j hj => h j hj fun j' _ => hpass j', fun h j hj _ => h j hj⟩

lemma returns_loop (hpass : ∀ j, (body j).Passes m) (n i : ℕ)
    (a : Unit) (m' : Mem β) : (loop body n i).Returns m a m' ↔ m' = m := by
  induction n generalizing i with
  | zero => exact ⟨fun h => h.2, fun h => ⟨rfl, h⟩⟩
  | succ n ih =>
    refine (returns_bind (body i) (fun _ => loop body n (i + 1)) m m' a).trans ⟨?_, ?_⟩
    · rintro ⟨_, m1, h1, h2⟩
      obtain rfl := hbody i m _ m1 h1
      exact (ih (i + 1)).1 h2
    · intro h
      obtain ⟨_, h1⟩ := hpass i
      exact ⟨_, m, h1, (ih (i + 1)).2 h⟩

lemma safe_loop_bind (hpass : ∀ j, (body j).Passes m) (n : ℕ) (k : Unit → Prog β ι ε γ) :
    (loop body n 0 >>= k).Safe lim m ↔ (∀ j < n, (body j).Safe lim m) ∧ (k ()).Safe lim m := by
  rw [safe_bind, safe_loop_of_passes hbody hpass]
  refine and_congr_right fun _ => ⟨fun h => h () m ((returns_loop hbody hpass n 0 () m).2 rfl), ?_⟩
  intro h a m' hret
  obtain rfl := (returns_loop hbody hpass n 0 a m').1 hret
  exact h

end

end Prog

end KmsDrm.Lib
