import KmsDrm.Lib.Threads
import KmsDrm.Reservation.Basic

/-!
# Waiting for the fences of a reservation object

`reservation_object_test_signaled_rcu` and `reservation_object_wait_timeout_rcu` look at the
shared fences of an object one after the other, while fences become signaled. They look at the
exclusive fence only if the object has no shared fences. So a positive result says that the
shared fences are signaled, and it says so of the exclusive fence only under a condition on the
object.

## Main definitions

* `Reservation.readNext` — one step of a reader.

## Main results

* `Reservation.reader_positive` — what a positive result says.
* `Reservation.all_signaled_iff` — when it says that all fences are signaled.

## Implementation notes

The object does not change during the call. Still `read_seqcount_retry` and `dma_fence_get_rcu`
may send the reader back at any time. What the operation `wait` of a fence returns is arbitrary,
as long as a positive value is returned for a signaled fence only;
`DmaFence.defaultWait_signaled` shows this of `dma_fence_default_wait`.
-/

namespace KmsDrm.Reservation

open KmsDrm.Lib List Threads

/-! ## The steps -/

/-- The calls: a test, a wait, and an environment that signals fences. -/
inductive ReadCall where
  | testSignaled (testAll : Bool)
  | waitTimeout (waitAll intr : Bool) (timeout : BitVec 64)
  | signaler
  deriving DecidableEq, Repr

/-- The argument `test_all` or `wait_all`. -/
def ReadCall.all : ReadCall → Bool
  | .testSignaled testAll => testAll
  | .waitTimeout waitAll _ _ => waitAll
  | .signaler => false

/-- The conversion of an `unsigned long` to an `int`. -/
def intOfUlong (x : BitVec 64) : ℤ := (x.setWidth 32).toInt

/-- The conversion of a `long` to an `int`. -/
def intOfLong (x : ℤ) : ℤ := x.bmod (2 ^ 32)

/-- The function that runs, with its local variable `ret`. -/
inductive Mode where
  | test (ret : ℤ)
  | wait (ret : ℤ)
  deriving DecidableEq, Repr

namespace Mode

/-- The value that is returned; a test returns a `bool`. -/
def value : Mode → ℤ
  | test ret => if ret ≠ 0 then 1 else 0
  | wait ret => ret

/-- A fence was found signaled. -/
def pass : Mode → Mode
  | test _ => test 1
  | wait ret => wait ret

/-- There was no reference to a fence. -/
def fail : Mode → Mode
  | test _ => test (-1)
  | wait ret => wait ret

end Mode

/-- The slot that is looked at. -/
inductive Slot where
  | shared (i : ℕ)
  | excl
  deriving DecidableEq, Repr

/-- Program points. A fence is the local variable `lfence`, `fence_excl` or `fence`. -/
inductive ReadPc (F : Type) where
  | start
  | retry (m : Mode)
  | scan (i : ℕ) (m : Mode)
  | exclRead (m : Mode)
  | exclBit (f : F) (m : Mode)
  | getRcu (slot : Slot) (f : F) (m : Mode)
  | isSignaled (slot : Slot) (f : F) (m : Mode)
  | opsSignaled (slot : Slot) (f : F) (m : Mode)
  | waitFence (slot : Slot) (f : F) (ret : ℤ)
  | pollBit (slot : Slot) (f : F)
  | pollOps (slot : Slot) (f : F)
  | done

/-- The bits `SIGNALED` and the values that were returned. -/
structure ReadState (F : Type) where
  signaled : F → Bool
  returned : ℕ → Option ℤ := fun _ => none

/-- The choices of the environment: whether the sequence count has changed, whether there is a
reference, what the operation `signaled` says; what the operation `wait` returns; and the fence
that is signaled. -/
structure ReadChoice (F : Type) where
  answer : Bool
  ret : ℤ
  fence : F

variable {F : Type}

/-- Return from a call. -/
def ReadState.finish (s : ReadState F) (t : ℕ) (r : ℤ) : ReadState F × ReadPc F :=
  ({ s with returned := Function.update s.returned t (some r) }, .done)

/-- The fence in the slot is signaled: go on to the next slot. -/
def ReadState.passed (s : ReadState F) (t : ℕ) (m : Mode) : Slot → ReadState F × ReadPc F
  | .shared i => (s, .scan (i + 1) m.pass)
  | .excl => s.finish t m.pass.value

/-- The fence in the slot is not signaled: a test returns zero, a wait waits for it. -/
def ReadState.notSignaled (s : ReadState F) (t : ℕ) (slot : Slot) (f : F) :
    Mode → ReadState F × ReadPc F
  | .test _ => s.finish t 0
  | .wait ret => (s, .waitFence slot f ret)

/-- `dma_fence_wait_timeout` has returned: look again, if there are more fences. -/
def ReadState.waited (s : ReadState F) (t : ℕ) (all : Bool) (sharedCount : ℕ) (ret : ℤ) :
    Slot → ReadState F × ReadPc F
  | .shared i =>
    if 0 < ret ∧ all = true ∧ i + 1 < sharedCount then (s, .retry (.wait ret))
    else s.finish t ret
  | .excl => s.finish t ret

variable [DecidableEq F]
variable {obj : Obj F} {signaled : F → Bool} {call : ReadCall} {s s' : ReadState F}
  {p pc : ReadPc F} {intr : Bool} {timeout : BitVec 64}
  {c : Threads.Config (ReadState F) (ReadPc F)} {r : ℤ} {x : ReadChoice F} {f : F} {i t : ℕ}
  {q : ReadState F × ReadPc F} {calls : ℕ → ReadCall} {slot : Slot}

/-- Set the bit `SIGNALED` of a fence. -/
def ReadState.signal (s : ReadState F) (f : F) : ReadState F :=
  { s with signaled := Function.update s.signaled f true }

/-- The first step of a call. -/
def readBegin (call : ReadCall) (x : ReadChoice F) (s : ReadState F) : ReadState F × ReadPc F :=
  match call with
  | .testSignaled _ => (s, .retry (.test 1))
  | .waitTimeout _ _ timeout =>
    if intOfUlong timeout = 0 then (s, .retry (.test 1))
    else (s, .retry (.wait (intOfUlong timeout)))
  | .signaler => (s.signal x.fence, .start)

/-- The step of thread `t` on the object `obj`. -/
def readNext (obj : Obj F) (calls : ℕ → ReadCall) (t : ℕ) (x : ReadChoice F) (s : ReadState F) :
    ReadPc F → Option (ReadState F × ReadPc F)
  | .start => some (readBegin (calls t) x s)
  | .retry m =>
    -- without `wait_all` the number of shared fences is not read and stays zero
    if (calls t).all then if x.answer then some (s, .retry m) else some (s, .scan 0 m)
    else some (s, .exclRead m)
  | .scan i m =>
    match obj.shared[i]? with
    | some f => if s.signaled f then some (s, .scan (i + 1) m.pass)
      else some (s, .getRcu (.shared i) f m)
    | none => if obj.shared = [] then some (s, .exclRead m) else some (s.finish t m.value)
  | .exclRead m =>
    if x.answer then some (s, .retry m)
    else match obj.fenceExcl with
      | some f => some (s, .exclBit f m)
      | none => some (s.finish t m.value)
  | .exclBit f m =>
    if s.signaled f then some (s.finish t m.pass.value) else some (s, .getRcu .excl f m)
  | .getRcu slot f m =>
    if x.answer then some (s, .isSignaled slot f m) else some (s, .retry m.fail)
  | .isSignaled slot f m =>
    if s.signaled f then some (s.passed t m slot) else some (s, .opsSignaled slot f m)
  | .opsSignaled slot f m =>
    if x.answer then some ((s.signal f).passed t m slot) else some (s.notSignaled t slot f m)
  | .waitFence slot f ret =>
    if intOfLong ret < 0 then some (s.waited t (calls t).all obj.shared.length (-22) slot)
    else if intOfLong ret = 0 then some (s, .pollBit slot f)
    -- the operation `wait` returns a positive value for a signaled fence only
    else if 0 < x.ret → s.signaled f = true then
      some (s.waited t (calls t).all obj.shared.length x.ret slot)
    else none
  | .pollBit slot f =>
    if s.signaled f then some (s.waited t (calls t).all obj.shared.length 1 slot)
    else some (s, .pollOps slot f)
  | .pollOps slot f =>
    if x.answer then some ((s.signal f).waited t (calls t).all obj.shared.length 1 slot)
    else some (s.waited t (calls t).all obj.shared.length 0 slot)
  | .done => none

/-- One thread makes the call, and the others signal fences. -/
def readCalls (call : ReadCall) : ℕ → ReadCall
  | 0 => call
  | _ => .signaler

/-- The beginning, with some fences signaled. -/
def readInitial (signaled : F → Bool) : Threads.Config (ReadState F) (ReadPc F) :=
  ⟨{ signaled := signaled }, fun _ => .start⟩

/-! ## What a reader has seen -/

section Seen

variable (obj : Obj F) (signaled : F → Bool)

/-- What a positive result says: the shared fences are signaled, and without shared fences the
exclusive fence is. -/
structure Looked : Prop where
  shared : ∀ f ∈ obj.shared, signaled f = true
  excl : obj.shared = [] → ∀ f, obj.fenceExcl = some f → signaled f = true

/-- The reader looks at the fence `f` in this slot. The shared fences before it are signaled. -/
def LooksAt (f : F) : Slot → Prop
  | .shared i => obj.shared[i]? = some f ∧ ∀ g ∈ obj.shared.take i, signaled g = true
  | .excl => obj.shared = [] ∧ obj.fenceExcl = some f

/-- The invariant of a reader that looks at all fences. -/
def Seen (t : ℕ) (s : ReadState F) : ReadPc F → Prop
  | .start | .retry _ => True
  | .scan i _ => ∀ f ∈ obj.shared.take i, s.signaled f = true
  | .exclRead _ => obj.shared = []
  | .exclBit f _ => LooksAt obj s.signaled f .excl
  | .getRcu slot f _ | .isSignaled slot f _ | .opsSignaled slot f _ | .waitFence slot f _
  | .pollBit slot f | .pollOps slot f => LooksAt obj s.signaled f slot
  | .done => ∀ r, s.returned t = some r → 0 < r → Looked obj s.signaled

end Seen

omit [DecidableEq F] in
lemma LooksAt.take_succ (h : LooksAt obj signaled f (.shared i)) (hf : signaled f = true) :
    ∀ g ∈ obj.shared.take (i + 1), signaled g = true := by
  intro g hg
  rw [take_add_one, h.1, mem_append] at hg
  rcases hg with hg | hg
  · exact h.2 g hg
  · obtain rfl := mem_singleton.1 hg
    exact hf

omit [DecidableEq F] in
lemma LooksAt.looked_excl (h : LooksAt obj signaled f .excl) (hf : signaled f = true) :
    Looked obj signaled where
  shared := by simp [h.1]
  excl := by
    intro _ g hg
    obtain rfl := Option.mem_unique h.2 hg
    exact hf

omit [DecidableEq F] in
lemma looked_of_take (h : ∀ g ∈ obj.shared.take i, signaled g = true)
    (hi : obj.shared.length ≤ i) (hne : obj.shared ≠ []) : Looked obj signaled where
  shared := by rwa [take_of_length_le hi] at h
  excl := fun hnil => absurd hnil hne

omit [DecidableEq F] in
lemma seen_finish (h : 0 < r → Looked obj s.signaled) :
    Seen obj t (s.finish t r).1 (s.finish t r).2 := by
  intro r' hr' hpos
  simp only [ReadState.finish, Function.update_self, Option.some.injEq] at hr'
  subst hr'
  exact h hpos

omit [DecidableEq F] in
lemma seen_passed (m : Mode) (h : LooksAt obj s.signaled f slot) (hf : s.signaled f = true) :
    Seen obj t (s.passed t m slot).1 (s.passed t m slot).2 := by
  cases slot with
  | shared i => exact h.take_succ hf
  | excl => exact seen_finish fun _ => h.looked_excl hf

omit [DecidableEq F] in
lemma seen_notSignaled (m : Mode) (h : LooksAt obj s.signaled f slot) :
    Seen obj t (s.notSignaled t slot f m).1 (s.notSignaled t slot f m).2 := by
  cases m with
  | test ret => exact seen_finish (by simp)
  | wait ret => exact h

omit [DecidableEq F] in
/-- The reader has waited for a fence. If it does not look again there are no more fences. -/
lemma seen_waited {ret : ℤ} (h : LooksAt obj s.signaled f slot)
    (hf : 0 < ret → s.signaled f = true) :
    Seen obj t (s.waited t true obj.shared.length ret slot).1
      (s.waited t true obj.shared.length ret slot).2 := by
  cases slot with
  | excl => exact seen_finish fun hpos => h.looked_excl (hf hpos)
  | shared i =>
    simp only [ReadState.waited]
    split_ifs with hmore
    · trivial
    · refine seen_finish fun hpos => looked_of_take (h.take_succ (hf hpos)) ?_ ?_
      · by_contra hlt
        exact hmore ⟨hpos, trivial, Nat.lt_of_not_le hlt⟩
      · intro hnil
        have hsome := h.1
        simp [hnil] at hsome

lemma signal_mono (s : ReadState F) (f : F) {g : F} (h : s.signaled g = true) :
    (s.signal f).signaled g = true := by
  unfold ReadState.signal
  by_cases hg : g = f
  · simp [hg]
  · simpa [hg] using h

lemma signal_self (s : ReadState F) (f : F) : (s.signal f).signaled f = true := by
  simp [ReadState.signal]

lemma LooksAt.signal (h : LooksAt obj s.signaled f slot) (g : F) :
    LooksAt obj (s.signal g).signaled f slot := by
  cases slot with
  | shared i => exact ⟨h.1, fun g' hg' => signal_mono s g (h.2 g' hg')⟩
  | excl => exact h

lemma Seen.signal (h : Seen obj t s pc) (g : F) : Seen obj t (s.signal g) pc := by
  cases pc with
  | start | retry m | exclRead m | exclBit f m => exact h
  | scan i m => exact fun f hf => signal_mono s g (h f hf)
  | getRcu slot f m | isSignaled slot f m | opsSignaled slot f m
  | waitFence slot f ret | pollBit slot f | pollOps slot f => exact LooksAt.signal h g
  | done =>
    intro r hr hpos
    have hl := h r hr hpos
    exact ⟨fun f hf => signal_mono s g (hl.shared f hf),
      fun hnil f hf => signal_mono s g (hl.excl hnil f hf)⟩

lemma Seen.step (hall : (calls t).all = true) (h : Seen obj t s pc)
    (hn : readNext obj calls t x s pc = some q) : Seen obj t q.1 q.2 := by
  cases pc with
  | start =>
    cases hn
    unfold readBegin
    split
    · trivial
    · split_ifs <;> trivial
    · trivial
  | retry m =>
    simp only [readNext] at hn
    split_ifs at hn <;> cases hn
    · trivial
    · simp [Seen]
  | scan i m =>
    simp only [readNext] at hn
    rcases hget : obj.shared[i]? with _ | f
    · rw [hget] at hn
      split_ifs at hn with hnil <;> cases hn
      · exact hnil
      · exact seen_finish fun _ => looked_of_take h (List.getElem?_eq_none_iff.1 hget) hnil
    · rw [hget] at hn
      dsimp only at hn
      split_ifs at hn with hf <;> cases hn
      · exact LooksAt.take_succ ⟨hget, h⟩ hf
      · exact ⟨hget, h⟩
  | exclRead m =>
    simp only [readNext] at hn
    split_ifs at hn
    · cases hn
      trivial
    · rcases hexcl : obj.fenceExcl with _ | f
      · rw [hexcl] at hn
        cases hn
        refine seen_finish fun _ => ⟨?_, by simp [hexcl]⟩
        have hnil : obj.shared = [] := h
        simp [hnil]
      · rw [hexcl] at hn
        cases hn
        exact ⟨h, hexcl⟩
  | exclBit f m =>
    simp only [readNext] at hn
    split_ifs at hn with hf <;> cases hn
    · exact seen_finish fun _ => LooksAt.looked_excl h hf
    · exact h
  | getRcu slot f m =>
    simp only [readNext] at hn
    split_ifs at hn <;> cases hn
    · exact h
    · trivial
  | isSignaled slot f m =>
    simp only [readNext] at hn
    split_ifs at hn with hf <;> cases hn
    · exact seen_passed m h hf
    · exact h
  | opsSignaled slot f m =>
    simp only [readNext] at hn
    split_ifs at hn <;> cases hn
    · exact seen_passed m (LooksAt.signal h f) (signal_self s f)
    · exact seen_notSignaled m h
  | waitFence slot f ret =>
    simp only [readNext, hall] at hn
    split_ifs at hn with _ _ hret <;> cases hn
    · exact seen_waited h (by simp)
    · exact h
    · exact seen_waited h hret
  | pollBit slot f =>
    simp only [readNext, hall] at hn
    split_ifs at hn with hf <;> cases hn
    · exact seen_waited h fun _ => hf
    · exact h
  | pollOps slot f =>
    simp only [readNext, hall] at hn
    split_ifs at hn <;> cases hn
    · exact seen_waited (LooksAt.signal h f) fun _ => signal_self s f
    · exact seen_waited h (by simp)
  | done => cases hn

/-! ## A run of a reader -/

/-- A step leaves the state as it is, or it returns. -/
def StaysOrReturns (s : ReadState F) (t : ℕ) (q : ReadState F × ReadPc F) : Prop :=
  q.1 = s ∨ ∃ r, q = s.finish t r

omit [DecidableEq F] in
lemma staysOrReturns_passed (s : ReadState F) (t : ℕ) (m : Mode) (slot : Slot) :
    StaysOrReturns s t (s.passed t m slot) := by
  cases slot with
  | shared i => exact .inl rfl
  | excl => exact .inr ⟨_, rfl⟩

omit [DecidableEq F] in
lemma staysOrReturns_notSignaled (s : ReadState F) (t : ℕ) (slot : Slot) (f : F) (m : Mode) :
    StaysOrReturns s t (s.notSignaled t slot f m) := by
  cases m with
  | test ret => exact .inr ⟨_, rfl⟩
  | wait ret => exact .inl rfl

omit [DecidableEq F] in
lemma staysOrReturns_waited (s : ReadState F) (t : ℕ) (all : Bool) (n : ℕ) (ret : ℤ)
    (slot : Slot) : StaysOrReturns s t (s.waited t all n ret slot) := by
  cases slot with
  | shared i =>
    simp only [ReadState.waited]
    split_ifs
    · exact .inl rfl
    · exact .inr ⟨_, rfl⟩
  | excl => exact .inr ⟨_, rfl⟩

lemma readNext_effect (h : readNext obj calls t x s pc = some q) :
    StaysOrReturns s t q ∨ ∃ f, StaysOrReturns (s.signal f) t q := by
  cases pc with
  | start =>
    cases h
    unfold readBegin
    split
    · exact .inl (.inl rfl)
    · split_ifs <;> exact .inl (.inl rfl)
    · exact .inr ⟨x.fence, .inl rfl⟩
  | opsSignaled slot f m =>
    simp only [readNext] at h
    split_ifs at h <;> cases h
    · exact .inr ⟨f, staysOrReturns_passed ..⟩
    · exact .inl (staysOrReturns_notSignaled ..)
  | pollOps slot f =>
    simp only [readNext] at h
    split_ifs at h <;> cases h
    · exact .inr ⟨f, staysOrReturns_waited ..⟩
    · exact .inl (staysOrReturns_waited ..)
  | done => cases h
  | _ =>
    simp only [readNext] at h
    left
    repeat' split at h
    all_goals try cases h
    all_goals first
      | exact .inl rfl
      | exact .inr ⟨_, rfl⟩
      | exact staysOrReturns_passed ..
      | exact staysOrReturns_waited ..

omit [DecidableEq F] in
lemma StaysOrReturns.signaled_eq (h : StaysOrReturns s t q) : q.1.signaled = s.signaled := by
  rcases h with h | ⟨r, rfl⟩
  · rw [h]
  · rfl

omit [DecidableEq F] in
lemma StaysOrReturns.returned_eq (h : StaysOrReturns s t q) :
    q.1.returned = s.returned ∨ q.2 = .done := by
  rcases h with h | ⟨r, rfl⟩
  · exact .inl (by rw [h])
  · exact .inr rfl

/-- The states of the runs of a call while fences are signaled. -/
abbrev ReadRun (obj : Obj F) (signaled : F → Bool) (call : ReadCall) :=
  Threads.Reachable (readNext obj (readCalls call)) (readInitial signaled)

/-- The rule for a run of one reader: what its own steps keep, and what signaling a fence keeps,
holds in every state. -/
lemma reader_invariant {Q : ReadState F → ReadPc F → Prop}
    (hinit : Q { signaled := signaled } .start) (hsignal : ∀ s pc g, Q s pc → Q (s.signal g) pc)
    (hstep : ∀ x s pc s' p, Q s pc → readNext obj (readCalls call) 0 x s pc = some (s', p) → Q s' p)
    (h : ReadRun obj signaled call c) :
    Q c.shared (c.pc 0) := by
  have hinv : Q c.shared (c.pc 0) ∧ ∀ t, t ≠ 0 → c.pc t = .start := by
    refine Threads.Runs.invariant (P := fun c => Q c.shared (c.pc 0) ∧ ∀ t, t ≠ 0 → c.pc t = .start)
      ⟨hinit, fun _ _ => rfl⟩ ?_ h
    rintro c t x s p ⟨hQ, hothers⟩ _ hn
    by_cases ht : t = 0
    · subst ht
      refine ⟨?_, fun u hu => ?_⟩
      · exact hstep x c.shared (c.pc 0) s p hQ hn
      · rw [c.move_pc_of_ne s p hu]
        exact hothers u hu
    · -- the other threads signal fences
      have hcall : readCalls call t = .signaler := by
        cases t with
        | zero => exact absurd rfl ht
        | succ n => rfl
      rw [hothers t ht] at hn
      simp only [readNext, hcall] at hn
      obtain ⟨rfl, rfl⟩ := hn
      refine ⟨?_, fun u hu => ?_⟩
      · rw [c.move_pc_of_ne _ _ (Ne.symm ht)]
        exact hsignal _ _ x.fence hQ
      · by_cases hut : u = t
        · subst hut
          exact c.move_pc_self u _ _
        · rw [c.move_pc_of_ne _ _ hut]
          exact hothers u hu
  exact hinv.1

section

variable (h : ReadRun obj signaled call c)

include h

lemma reachable_signaled (hf : signaled f = true) : c.shared.signaled f = true := by
  refine reader_invariant (Q := fun s _ => s.signaled f = true) hf
    (fun s _ g hs => signal_mono s g hs) ?_ h
  intro x s pc s' p hs hn
  rcases readNext_effect hn with heff | ⟨g, heff⟩
  · have hs' : s'.signaled = s.signaled := heff.signaled_eq
    rw [hs', hs]
  · have hs' : s'.signaled = (s.signal g).signaled := heff.signaled_eq
    rw [hs']
    exact signal_mono s g hs

lemma reachable_done (hr : c.shared.returned 0 ≠ none) : c.pc 0 = .done := by
  refine reader_invariant (Q := fun s pc => s.returned 0 ≠ none → pc = .done) (by simp)
    (fun s pc g hs => hs) ?_ h hr
  intro x s pc s' p hs hn hret
  have hnone : s.returned 0 = none := by
    by_contra hne
    rw [hs hne] at hn
    cases hn
  have hcases : s'.returned = s.returned ∨ p = .done := by
    rcases readNext_effect hn with heff | ⟨g, heff⟩ <;> exact heff.returned_eq
  rcases hcases with heq | hdone
  · rw [heq] at hret
    exact absurd hnone hret
  · exact hdone

end

/-- **What a positive result says.** The shared fences are signaled, and without shared fences
the exclusive fence is. -/
theorem reader_positive (hall : call.all = true) (h : ReadRun obj signaled call c)
    (hr : c.shared.returned 0 = some r) (hpos : 0 < r) : Looked obj c.shared.signaled := by
  have hseen : Seen obj 0 c.shared (c.pc 0) :=
    reader_invariant (Q := Seen obj 0) trivial (fun _ _ g hs => hs.signal g)
      (fun _ _ _ _ _ hs hn => hs.step hall hn) h
  rw [reachable_done h (by simp [hr])] at hseen
  exact hseen r hr hpos

/-! ### A timeout that is negative as an `int` -/

/-- The wait has the negative time `ret` left at every program point. -/
def Negative (ret : ℤ) (s : ReadState F) : ReadPc F → Prop
  | .start => True
  | .retry m | .scan _ m | .exclRead m | .exclBit _ m | .getRcu _ _ m | .isSignaled _ _ m
  | .opsSignaled _ _ m => m = .wait ret
  | .waitFence _ _ r => r = ret
  | .pollBit _ _ | .pollOps _ _ => False
  | .done => ∀ r, s.returned 0 = some r → r < 0

omit [DecidableEq F] in
lemma negative_finish (ret : ℤ) (s : ReadState F) (hr : r < 0) :
    Negative ret (s.finish 0 r).1 (s.finish 0 r).2 := by
  intro r' hr'
  simp only [ReadState.finish, Function.update_self, Option.some.injEq] at hr'
  omega

lemma Negative.step (hneg : intOfUlong timeout < 0) (h : Negative (intOfUlong timeout) s pc)
    (hn : readNext obj (readCalls (.waitTimeout true intr timeout)) 0 x s pc = some q) :
    Negative (intOfUlong timeout) q.1 q.2 := by
  have hint : intOfLong (intOfUlong timeout) = intOfUlong timeout := by
    unfold intOfLong intOfUlong
    rw [BitVec.toInt_eq_toNat_bmod, Int.bmod_bmod]
  cases pc with
  | start =>
    simp only [readNext, readCalls, readBegin] at hn
    rw [if_neg (Int.ne_of_lt hneg)] at hn
    cases hn
    rfl
  | waitFence slot f ret =>
    obtain rfl : ret = intOfUlong timeout := h
    simp only [readNext, hint] at hn
    rw [if_pos hneg] at hn
    cases hn
    cases slot with
    | shared i => exact negative_finish _ s (by decide)
    | excl => exact negative_finish _ s (by decide)
  | pollBit slot f | pollOps slot f => exact absurd h id
  | done => cases hn
  | retry m | scan i m | exclRead m | exclBit f m =>
    obtain rfl : m = .wait (intOfUlong timeout) := h
    simp only [readNext] at hn
    repeat' split at hn
    all_goals cases hn
    all_goals first
      | rfl
      | exact negative_finish _ s hneg
  | getRcu slot f m | isSignaled slot f m | opsSignaled slot f m =>
    obtain rfl : m = .wait (intOfUlong timeout) := h
    simp only [readNext] at hn
    split_ifs at hn <;> cases hn
    all_goals cases slot
    all_goals first
      | rfl
      | exact negative_finish _ _ hneg

lemma reachable_negative (hneg : intOfUlong timeout < 0)
    (h : ReadRun obj signaled (.waitTimeout true intr timeout) c)
    (hr : c.shared.returned 0 = some r) : r < 0 := by
  have hinv : Negative (intOfUlong timeout) c.shared (c.pc 0) :=
    reader_invariant (Q := Negative (intOfUlong timeout)) trivial
      (fun s pc g hs => by cases pc <;> exact hs) (fun _ _ _ _ _ hs hn => hs.step hneg hn) h
  rw [reachable_done h (by simp [hr])] at hinv
  exact hinv r hr

/-! ### A run with a positive result -/

variable (obj call signaled) in
lemma reachable_signal_all (l : List F) :
    ∃ c, ReadRun obj signaled call c ∧
      (∀ t, c.pc t = .start) ∧ (∀ f ∈ l, c.shared.signaled f = true) ∧
      ∀ f, c.shared.signaled f = true → signaled f = true ∨ f ∈ l := by
  induction l with
  | nil => exact ⟨readInitial signaled, .start, fun _ => rfl, by simp, fun f hf => .inl hf⟩
  | cons g l ih =>
    obtain ⟨c, hc, hpc, hl, hsub⟩ := ih
    have hfire : fire (readNext obj (readCalls call)) c 1 ⟨false, 0, g⟩ =
        some (c.move 1 (c.shared.signal g) .start) := by
      unfold fire
      rw [hpc 1]
      rfl
    refine ⟨_, .step 1 ⟨false, 0, g⟩ hc trivial hfire, fun t => ?_, fun f hf => ?_, fun f hf => ?_⟩
    · by_cases ht : t = 1
      · subst ht
        exact c.move_pc_self 1 _ _
      · rw [c.move_pc_of_ne _ _ ht]
        exact hpc t
    · rcases mem_cons.1 hf with rfl | hf
      · exact signal_self _ _
      · exact signal_mono _ g (hl f hf)
    · rw [mem_cons]
      by_cases hfg : f = g
      · exact .inr (.inl hfg)
      · have hold : c.shared.signaled f = true := by
          simpa [ReadState.signal, hfg] using hf
        exact (hsub f hold).imp_right .inr

lemma reachable_step (x : ReadChoice F) (hc : ReadRun obj signaled call c)
    (hn : readNext obj (readCalls call) 0 x c.shared (c.pc 0) = some (s, p)) :
    ReadRun obj signaled call (c.move 0 s p) := by
  refine .step 0 x hc trivial ?_
  unfold fire
  rw [hn]
  rfl

lemma reachable_scan (g : F) {m : Mode} (hm : m.pass = m) (hne : obj.shared ≠ []) (i : ℕ)
    (hc : ReadRun obj signaled call c)
    (hpc : c.pc 0 = .scan i m) (hall : ∀ f ∈ obj.shared, c.shared.signaled f = true) :
    ∃ c', ReadRun obj signaled call c' ∧
      c'.shared.signaled = c.shared.signaled ∧ c'.shared.returned 0 = some m.value := by
  -- induction on the slots that are left
  induction hk : obj.shared.length - i generalizing c i with
  | zero =>
    have hget : obj.shared[i]? = none := by
      rw [List.getElem?_eq_none_iff]
      omega
    refine ⟨_, reachable_step ⟨false, 0, g⟩ hc (s := (c.shared.finish 0 m.value).1)
      (p := (c.shared.finish 0 m.value).2) ?_, rfl, ?_⟩
    · rw [hpc]
      simp only [readNext, hget]
      rw [if_neg hne]
    · simp [ReadState.finish]
  | succ k ih =>
    have hlt : i < obj.shared.length := by omega
    have hget : obj.shared[i]? = some obj.shared[i] := List.getElem?_eq_getElem hlt
    have hsig : c.shared.signaled obj.shared[i] = true := hall _ (getElem_mem hlt)
    have hnext : readNext obj (readCalls call) 0 ⟨false, 0, g⟩ c.shared (c.pc 0) =
        some (c.shared, .scan (i + 1) m) := by
      rw [hpc]
      simp only [readNext, hget]
      rw [if_pos hsig, hm]
    obtain ⟨c', hc', hsame, hret⟩ := ih (i + 1) (reachable_step _ hc hnext)
      (c.move_pc_self 0 _ _) hall (by omega)
    exact ⟨c', hc', hsame, hret⟩

lemma readBegin_positive (hall : call.all = true)
    (hcall : ∀ intr timeout, call = .waitTimeout true intr timeout → 0 ≤ intOfUlong timeout)
    (x : ReadChoice F) (s : ReadState F) :
    ∃ m : Mode, readBegin call x s = (s, .retry m) ∧ m.pass = m ∧ 0 < m.value := by
  cases call with
  | testSignaled testAll => exact ⟨.test 1, rfl, rfl, by decide⟩
  | signaler => cases hall
  | waitTimeout waitAll intr timeout =>
    obtain rfl : waitAll = true := hall
    have hnonneg := hcall intr timeout rfl
    unfold readBegin
    dsimp only
    split_ifs with hzero
    · exact ⟨.test 1, rfl, rfl, by decide⟩
    · refine ⟨.wait (intOfUlong timeout), rfl, rfl, ?_⟩
      unfold Mode.value
      dsimp only
      omega

variable (signaled) in
lemma exists_positive (hall : call.all = true) (hne : obj.shared ≠ [])
    (hcall : ∀ intr timeout, call = .waitTimeout true intr timeout → 0 ≤ intOfUlong timeout) :
    ∃ c r, ReadRun obj signaled call c ∧
      c.shared.returned 0 = some r ∧ 0 < r ∧
      ∀ f, c.shared.signaled f = true → signaled f = true ∨ f ∈ obj.shared := by
  obtain ⟨g, -⟩ := exists_mem_of_ne_nil _ hne
  obtain ⟨c, hc, hpc, hl, hsub⟩ := reachable_signal_all obj signaled call obj.shared
  obtain ⟨m, hbegin, hm, hpos⟩ := readBegin_positive hall hcall ⟨false, 0, g⟩ c.shared
  have hstart : readNext obj (readCalls call) 0 ⟨false, 0, g⟩ c.shared (c.pc 0) =
      some (c.shared, .retry m) := by
    rw [hpc 0]
    exact congrArg some hbegin
  have hretry := reachable_step _ hc hstart
  have hscan : readNext obj (readCalls call) 0 ⟨false, 0, g⟩ (c.move 0 c.shared (.retry m)).shared
      ((c.move 0 c.shared (.retry m)).pc 0) = some (c.shared, .scan 0 m) := by
    simp [readNext, readCalls, hall]
  obtain ⟨c', hc', hsame, hret⟩ := reachable_scan g hm hne 0 (reachable_step _ hretry hscan)
    (Threads.Config.move_pc_self ..) hl
  refine ⟨c', m.value, hc', hret, hpos, fun f hf => hsub f ?_⟩
  rwa [hsame] at hf

/-! ## The fences of the object -/

/-- The call says what it has to: in every state of every run with a positive result, the shared
fences and the exclusive fence are signaled. -/
def PositiveSaysAll (obj : Obj F) (signaled : F → Bool) (call : ReadCall) : Prop :=
  ∀ c, Threads.Reachable (readNext obj (readCalls call)) (readInitial signaled) c →
    ∀ r, c.shared.returned 0 = some r → 0 < r →
      (∀ f ∈ obj.shared, c.shared.signaled f = true) ∧
        ∀ f, obj.fenceExcl = some f → c.shared.signaled f = true

/-- The condition on an object: it has no shared fences, or its exclusive fence is signaled at
the beginning or is a shared fence as well. -/
def ExclCovered (obj : Obj F) (signaled : F → Bool) : Prop :=
  obj.shared = [] ∨ ∀ f, obj.fenceExcl = some f → signaled f = true ∨ f ∈ obj.shared

lemma positiveSaysAll_of_covered (hall : call.all = true) (h : ExclCovered obj signaled) :
    PositiveSaysAll obj signaled call := by
  intro c hc r hr hpos
  have hlooked := reader_positive hall hc hr hpos
  refine ⟨hlooked.shared, fun f hf => ?_⟩
  rcases h with hnil | hexcl
  · exact hlooked.excl hnil f hf
  · rcases hexcl f hf with hsig | hmem
    · exact reachable_signaled hc hsig
    · exact hlooked.shared f hmem

lemma covered_of_positiveSaysAll (hall : call.all = true)
    (hcall : ∀ intr timeout, call = .waitTimeout true intr timeout → 0 ≤ intOfUlong timeout)
    (h : PositiveSaysAll obj signaled call) : ExclCovered obj signaled := by
  by_cases hne : obj.shared = []
  · exact .inl hne
  · right
    intro f hf
    obtain ⟨c, r, hc, hr, hpos, hsub⟩ := exists_positive signaled hall hne hcall
    exact hsub f ((h c hc r hr hpos).2 f hf)

/-- **When a positive result says that all fences are signaled.** For every object, every set of
fences that are signaled at the beginning and every schedule of fences becoming signaled: this is
so for `reservation_object_test_signaled_rcu` exactly if the exclusive fence is covered, and for
`reservation_object_wait_timeout_rcu` exactly if it is covered or the timeout is negative as an
`int`, where there are no positive results. -/
theorem all_signaled_iff (obj : Obj F) (signaled : F → Bool) (intr : Bool) (timeout : BitVec 64) :
    (PositiveSaysAll obj signaled (.testSignaled true) ↔ ExclCovered obj signaled) ∧
      (PositiveSaysAll obj signaled (.waitTimeout true intr timeout) ↔
        ExclCovered obj signaled ∨ intOfUlong timeout < 0) := by
  refine ⟨⟨covered_of_positiveSaysAll rfl (by simp), positiveSaysAll_of_covered rfl⟩, ?_, ?_⟩
  · intro h
    by_cases hneg : intOfUlong timeout < 0
    · exact .inr hneg
    · refine .inl (covered_of_positiveSaysAll rfl ?_ h)
      intro intr' timeout' heq
      cases heq
      omega
  · rintro (hcov | hneg)
    · exact positiveSaysAll_of_covered rfl hcov
    · intro c hc r hr hpos
      have := reachable_negative hneg hc hr
      omega

/-- An object with the shared fence 1 and the exclusive fence 2. -/
def sharedAndExcl : Obj ℕ := ⟨some 2, some ⟨4, [1]⟩, none⟩

/-- **The exclusive fence is not looked at.** The shared fence of the object is signaled and the
exclusive fence is not; the test returns true, and the wait returns its timeout at once. -/
theorem excl_not_signaled :
    (∃ c, Threads.Reachable (readNext sharedAndExcl (readCalls (.testSignaled true)))
        (readInitial fun f => f == 1) c ∧
      c.shared.returned 0 = some 1 ∧ sharedAndExcl.fenceExcl = some 2 ∧
      c.shared.signaled 2 = false) ∧
    ∃ c, Threads.Reachable (readNext sharedAndExcl (readCalls (.waitTimeout true false 100)))
        (readInitial fun f => f == 1) c ∧
      c.shared.returned 0 = some 100 ∧ sharedAndExcl.fenceExcl = some 2 ∧
      c.shared.signaled 2 = false := by
  have htest : ∃ c, exec (readNext sharedAndExcl (readCalls (.testSignaled true)))
        (readInitial fun f => f == 1) (List.replicate 4 (0, ⟨false, 0, 0⟩)) = some c ∧
      c.shared.returned 0 = some 1 ∧ c.shared.signaled 2 = false := ⟨_, rfl, rfl, rfl⟩
  have hwait : ∃ c, exec
        (readNext sharedAndExcl (readCalls (.waitTimeout true false 100)))
        (readInitial fun f => f == 1) (List.replicate 4 (0, ⟨false, 0, 0⟩)) = some c ∧
      c.shared.returned 0 = some 100 ∧ c.shared.signaled 2 = false := ⟨_, rfl, rfl, rfl⟩
  obtain ⟨c, hexec, hret, hsig⟩ := htest
  obtain ⟨d, hexec', hret', hsig'⟩ := hwait
  exact ⟨⟨c, exec_runs .start hexec, hret, rfl, hsig⟩,
    ⟨d, exec_runs .start hexec', hret', rfl, hsig'⟩⟩

end KmsDrm.Reservation
