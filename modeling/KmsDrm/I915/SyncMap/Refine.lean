import KmsDrm.I915.SyncMap.Free
import KmsDrm.Lib.Machine

/-!
# A sync map is a finite map

Any sequence of calls of `i915_syncmap_set`, `i915_syncmap_is_later` and `i915_syncmap_free` acts
on the tree of layers as it acts on a finite map. The map is read off the log of the calls: the
value of an identifier is the last one that was set with success since the last
`i915_syncmap_free`.

## Main results

* `I915.SyncMap.step_spec` — one call never fails and keeps the refinement.
* `I915.SyncMap.syncmap_refines` — the refinement, after any sequence of calls.
-/

namespace KmsDrm.I915.SyncMap

open KmsDrm.Lib

/-! ## Sequences of calls -/

/-- The calls. The allocations of a call succeed as `alloc` says. -/
inductive Op where
  | set (alloc : ℕ → Bool) (id : BitVec 64) (seqno : BitVec 32)
  | isLater (id : BitVec 64) (seqno : BitVec 32)
  | free

/-- What is recorded of a call. -/
inductive Event where
  | set (id : BitVec 64) (seqno : BitVec 32) (ret : Ret)
  | isLater (id : BitVec 64) (seqno : BitVec 32) (later : Bool)
  | free

/-- A sync map and the log of the calls on it, the last one first. -/
structure Session where
  state : State := {}
  log : List Event := []

/-- One call. -/
def step : Op → Session → Option Session
  | .set alloc id seqno, x => do
    let (s, ret) ← set alloc x.state id.toNat seqno
    return ⟨s, .set id seqno ret :: x.log⟩
  | .isLater id seqno, x => do
    let (s, later) ← isLater x.state id.toNat seqno
    return ⟨s, .isLater id seqno later :: x.log⟩
  | .free, x => do
    let s ← free x.state
    return ⟨s, .free :: x.log⟩

/-- The finite map: the value that was set last, with success and since the last free. -/
def lastValue (id : BitVec 64) : List Event → Option (BitVec 32)
  | [] => none
  | .free :: _ => none
  | .isLater _ _ _ :: log => lastValue id log
  | .set _ _ .enomem :: log => lastValue id log
  | .set id' seqno .zero :: log => if id' = id then some seqno else lastValue id log

/-- The map has a value for the identifier that is the sequence number or a later one. -/
def PassedIn (log : List Event) (id : BitVec 64) (seqno : BitVec 32) : Prop :=
  ∃ v, lastValue id log = some v ∧ 0 ≤ (v - seqno).toInt

/-! ## The refinement -/

/-- The heap of a session represents the map of its log. -/
structure Refines (x : Session) : Prop where
  inv : Inv x.state
  value : ∀ (id : BitVec 64) v, Value x.state.nodes id.toNat v ↔ lastValue id x.log = some v

lemma refines_init : Refines {} := by
  refine ⟨⟨?_, fun _ _ => rfl, fun _ _ => rfl, by simp⟩, fun id v => ?_⟩
  · constructor <;> simp
  · simp [lastValue, Value, leafAt]

section Calls

variable {x : Session} (h : Refines x)

include h

lemma isLater_passedIn (id : BitVec 64) (seqno : BitVec 32) :
    ∃ s later, isLater x.state id.toNat seqno = some (s, later) ∧
      (later = true ↔ PassedIn x.log id seqno) ∧ Inv s ∧ s.nodes = x.state.nodes := by
  obtain ⟨s, later, hstep, hinv, hnodes, hlater⟩ := isLater_spec h.inv id.toNat seqno
  refine ⟨s, later, hstep, hlater.trans ?_, hinv, hnodes⟩
  simp only [PassedIn, h.value, seqnoLater, decide_eq_true_eq]

lemma set_lastValue (alloc : ℕ → Bool) (id : BitVec 64) (seqno : BitVec 32) :
    ∃ s ret, set alloc x.state id.toNat seqno = some (s, ret) ∧
      Refines ⟨s, .set id seqno ret :: x.log⟩ := by
  obtain ⟨s, ret, hstep, hinv, hzero, henomem⟩ := set_spec alloc h.inv id.isLt seqno
  refine ⟨s, ret, hstep, hinv, fun id' v => ?_⟩
  cases ret with
  | zero =>
    rw [hzero rfl id'.toNat v, lastValue]
    by_cases hid : id = id'
    · subst hid
      simp [eq_comm]
    · have hne : id'.toNat ≠ id.toNat := fun heq => hid (BitVec.eq_of_toNat_eq heq.symm)
      rw [if_neg hne, if_neg hid, h.value]
  | enomem => rw [henomem rfl id'.toNat v, h.value, lastValue]

/-- **One call.** It never faults, and the heap still represents the map. -/
theorem step_spec (op : Op) : ∃ x', step op x = some x' ∧ Refines x' := by
  cases op with
  | set alloc id seqno =>
    obtain ⟨s, ret, hstep, href⟩ := set_lastValue h alloc id seqno
    exact ⟨_, by simp [step, hstep], href⟩
  | isLater id seqno =>
    obtain ⟨s, later, hstep, -, hinv, hnodes⟩ := isLater_passedIn h id seqno
    refine ⟨⟨s, .isLater id seqno later :: x.log⟩, by simp [step, hstep], hinv, fun id' v => ?_⟩
    rw [hnodes, h.value, lastValue]
  | free =>
    obtain ⟨s, hstep, hinv, -, hnone⟩ := free_spec h.inv
    refine ⟨⟨s, .free :: x.log⟩, by simp [step, hstep], hinv, fun id' v => ?_⟩
    simp [lastValue, Value, leafAt, hnone]

end Calls

lemma refines_of_reachable {x : Session} (h : Machine.Reachable step {} x) : Refines x := by
  refine Machine.Runs.invariant refines_init (fun x op x' href _ hstep => ?_) h
  obtain ⟨x1, hx1, href'⟩ := step_spec href op
  obtain rfl := Option.mem_unique hx1 hstep
  exact href'

/-- A leaf of the one tree that the heap holds. -/
def IsLeafOfTree (nodes : ℕ → Option Layer) (p : ℕ) : Prop :=
  (∃ n, nodes p = some n ∧ n.height = 0) ∧
    ∃ t n, nodes t = some n ∧ n.parent = none ∧ Anc nodes t p ∧
      ∀ a, nodes a ≠ none → Anc nodes t a

lemma Inv.root_cases {s : State} (h : Inv s) :
    s.root = none ∨ ∃ p, s.root = some p ∧ IsLeafOfTree s.nodes p := by
  rcases hr : s.root with _ | p
  · exact .inl rfl
  · obtain ⟨n, hp, hh⟩ := h.leaf p hr
    obtain ⟨t, m, hanc, ht, htop⟩ := h.tree.exists_top hp
    refine .inr ⟨p, rfl, ⟨n, hp, hh⟩, t, m, ht, htop, hanc, fun a ha => ?_⟩
    obtain ⟨na, hna⟩ := Option.ne_none_iff_exists'.1 ha
    obtain ⟨t', m', hanc', ht', htop'⟩ := h.tree.exists_top hna
    obtain rfl := h.tree.top t' t m' m ht' ht htop' htop
    exact hanc'

/-- **A sync map refines a finite map.** After any sequence of calls: every further call returns;
the heap represents the map of the log; `i915_syncmap_is_later` is true if and only if the
identifier has a value in the map and this is not before the sequence number; a set that returns
`-ENOMEM` leaves the map as it is; and the pointer is null or points to a leaf of the tree. -/
theorem syncmap_refines {x : Session} (h : Machine.Reachable step {} x) :
    (∀ op, ∃ x', step op x = some x') ∧
    (∀ (id : BitVec 64) v, Value x.state.nodes id.toNat v ↔ lastValue id x.log = some v) ∧
    (∀ id seqno, ∃ s later, isLater x.state id.toNat seqno = some (s, later) ∧
      (later = true ↔ PassedIn x.log id seqno)) ∧
    (∀ alloc (id : BitVec 64) seqno s, set alloc x.state id.toNat seqno = some (s, .enomem) →
      ∀ (id' : BitVec 64) v, Value s.nodes id'.toNat v ↔ Value x.state.nodes id'.toNat v) ∧
    (x.state.root = none ∨ ∃ p, x.state.root = some p ∧ IsLeafOfTree x.state.nodes p) := by
  have href := refines_of_reachable h
  refine ⟨fun op => ?_, href.value, fun id seqno => ?_, ?_, href.inv.root_cases⟩
  · obtain ⟨x', hx', -⟩ := step_spec href op
    exact ⟨x', hx'⟩
  · obtain ⟨s, later, hstep, hlater, -⟩ := isLater_passedIn href id seqno
    exact ⟨s, later, hstep, hlater⟩
  · intro alloc id seqno s hset id' v
    obtain ⟨s', ret, hstep, -, -, henomem⟩ := set_spec alloc href.inv id.isLt seqno
    rw [hset] at hstep
    cases hstep
    exact henomem rfl id'.toNat v

/-- The refinement after two values were set in distant leaves: the first one has passed. -/
theorem syncmap_refines_twoLeaves :
    ∃ x, Machine.exec step {} [.set (fun _ => true) 5 7, .set (fun _ => true) (2 ^ 40) 9] = some x ∧
      ∃ s, isLater x.state 5 3 = some (s, true) := by
  let ops : List Op := [.set (fun _ => true) 5 7, .set (fun _ => true) (2 ^ 40) 9]
  obtain ⟨x, hx, hlast⟩ := Option.map_eq_some_iff.1
    (show (Machine.exec step {} ops).map (fun x => lastValue 5 x.log) = some (some 7) by decide)
  obtain ⟨-, -, hlater, -⟩ := syncmap_refines (Machine.exec_runs hx)
  obtain ⟨s, later, hstep, hiff⟩ := hlater 5 3
  obtain rfl := hiff.2 ⟨7, hlast, by decide⟩
  exact ⟨x, hx, s, hstep⟩

end KmsDrm.I915.SyncMap
