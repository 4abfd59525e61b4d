import KmsDrm.Lib.Threads

/-!
# Software fences under concurrent calls

The functions of `i915_sw_fence.c` on a set of fences as programs of threads, step by step. A
fence counts what it waits for in `pending`, from 1 on; its own wait queue holds the fences that
wait for it. A fence whose count reaches zero notifies its owner and wakes its waiters. The
waiters of a fence that is woken on the way are not woken by a recursion: they are moved to a list
of the fence at which the wake-up started.

## Main definitions

* `I915.SwFence.State` — the fences.
* `I915.SwFence.next` — one step of a thread.

## Implementation notes

A thread is one call. Every access to a `pending` is a step of its own; what is done to a wait
queue under its lock belongs to the step before or after it, as no other thread can see it. A
fence is initialised once, before it is used, and committed once; before that, its wait queue is
empty and its lock is free. A wait entry is the fence that waits; the memory of the entries is not
modelled, apart from an allocation that fails. `i915_sw_fence_wait`, which is used then, is a step
that is possible once the fence is done; the tasks that sleep in it are not kept in the wait
queue. The list `extra` of the function `__i915_sw_fence_wake_up_all` is named by the fence at
which the function started. The search for cycles is not configured. The fields under "history"
record what happened; no step looks at them, apart from the conditions on the use of the fences.
-/

namespace KmsDrm.I915.SwFence

open KmsDrm.Lib Option
open Function (update update_self)

/-- `enum i915_sw_fence_notify` -/
inductive Notify where
  | complete
  | free
  deriving DecidableEq, Repr

/-- The wait entry of an await: the caller's, or one that is to be allocated, with flags that
allow blocking or not. -/
inductive WaitEntry where
  | caller
  | allocate (blocking : Bool)
  deriving DecidableEq, Repr

/-- The calls: `i915_sw_fence_init`, `__i915_sw_fence_await_sw_fence`, `i915_sw_fence_commit`. -/
inductive Call (F : Type) where
  | init (f : F)
  | await (f signaler : F) (wq : WaitEntry)
  | commit (f : F)
  deriving DecidableEq

/-- What a call returns. -/
inductive Ret where
  | void
  | zero
  | one
  | enomem
  deriving DecidableEq, Repr

/-- What is chosen in a step: the call of a thread that starts, whether there is memory, and
whether a notify function answers `NOTIFY_DONE`. -/
inductive Choice (F : Type) where
  | call (c : Call F)
  | memory (ok : Bool)
  | answer (done : Bool)
  | go
  deriving DecidableEq

/-- How far the completion of a fence is: the count is zero, the notification was made, the count
was set to `-1`, the waiters are being woken. -/
inductive Point where
  | zero
  | notified
  | marked
  | waking
  deriving DecidableEq, Repr

/-- The life of a fence. A fence is completed by the thread that brought its count to zero. -/
inductive Stage where
  | raw
  | counting
  | completing (t : ℕ) (p : Point)
  | finished
  deriving DecidableEq, Repr

/-- The fences, and what happened to them. -/
structure State (F : Type) where
  /-- `pending`, an `atomic_t`. -/
  pending : F → ℤ := fun _ => 0
  /-- The list of `wait`. -/
  queue : F → List F := fun _ => []
  /-- The list `extra`, while the waiters of the fence are woken. -/
  extra : F → List F := fun _ => []
  /-- The thread that holds the lock of `wait`. -/
  lock : F → Option ℕ := fun _ => none
  /-- History: the life of each fence. -/
  stage : F → Stage := fun _ => .raw
  /-- History: the fences for which `i915_sw_fence_commit` was called. -/
  committed : F → Bool := fun _ => false
  /-- History: 1 from the initialisation of a fence to its commit. -/
  initial : F → ℕ := fun _ => 0
  /-- History: the threads that hold a count of the fence which no wait entry stands for. -/
  flying : F → Finset ℕ := fun _ => ∅
  /-- History: the awaits that took effect, each with its signaler. -/
  awaits : List (F × F) := []
  log : List (F × Notify) := []
  /-- History: the threads that were started. -/
  started : Finset ℕ := ∅

/-- The value of an `atomic_t`. -/
def wrap (x : ℤ) : ℤ := x.bmod (2 ^ 32)

/-! ## Changes of the state -/

namespace State

variable {F : Type} [DecidableEq F] (s : State F) (t : ℕ)

/-- Start a thread. -/
@[simps]
def start : State F := { s with started := insert t s.started }

/-- `__i915_sw_fence_init` -/
@[simps]
def init (f : F) : State F :=
  { s with
    pending := update s.pending f 1
    stage := update s.stage f .counting
    initial := update s.initial f 1 }

/-- The first count of a fence goes over to the thread that commits it. -/
@[simps]
def commit (f : F) : State F :=
  { s with
    committed := update s.committed f true
    initial := update s.initial f 0
    flying := update s.flying f (insert t (s.flying f)) }

/-- The await of a fence for a signaler that is done. -/
@[simps]
def settle (f g : F) : State F := { s with awaits := (f, g) :: s.awaits }

/-- `i915_sw_fence_await` -/
@[simps]
def await (f g : F) : State F :=
  { s with
    pending := update s.pending f (wrap (s.pending f + 1))
    flying := update s.flying f (insert t (s.flying f))
    awaits := (f, g) :: s.awaits }

/-- `__add_wait_queue_entry_tail` -/
@[simps]
def enqueue (f g : F) : State F :=
  { s with
    queue := update s.queue g (s.queue g ++ [f])
    flying := update s.flying f ((s.flying f).erase t) }

/-- Take the lock of a wait queue. -/
@[simps]
def take (f : F) : State F := { s with lock := update s.lock f (some t) }

/-- Release the lock of a wait queue. -/
@[simps]
def release (f : F) : State F := { s with lock := update s.lock f none }

/-- Take back a count of the thread. -/
@[simps]
def drop (f : F) : State F :=
  { s with
    pending := update s.pending f (wrap (s.pending f - 1))
    flying := update s.flying f ((s.flying f).erase t) }

/-- Take the first entry, which waits for `f`, out of the wait queue and take back its count. -/
@[simps]
def pop (f g : F) (rest : List F) : State F :=
  { s with
    queue := update s.queue f rest
    pending := update s.pending g (wrap (s.pending g - 1)) }

/-- Record how far the completion of a fence is. -/
@[simps]
def mark (f : F) (st : Stage) : State F := { s with stage := update s.stage f st }

/-- `__i915_sw_fence_notify` -/
@[simps]
def notify (f : F) (n : Notify) : State F := { s with log := (f, n) :: s.log }

/-- The count of a fence that is done. -/
@[simps]
def setDone (f : F) : State F := { s with pending := update s.pending f (-1) }

/-- Move the waiters of `g` to the list of the fence at which the wake-up started. -/
@[simps]
def moveTail (g f : F) : State F :=
  { s with
    extra := update s.extra f (s.extra f ++ s.queue g)
    queue := update s.queue g [] }

/-- `list_splice_tail_init` -/
@[simps]
def splice (f : F) : State F :=
  { s with
    queue := update s.queue f (s.queue f ++ s.extra f)
    extra := update s.extra f [] }

end State

/-! ## The programs -/

/-- The program points. The last argument of those in the completion of a fence `f` is the
signaler whose lock is held, if the count was taken back in an await. In the points `nested…`, the
completion of `g` happens while the waiters of `f` are woken. -/
inductive Pc (F : Type) where
  | idle
  /-- `__i915_sw_fence_await_sw_fence`: the first look at the signaler. -/
  | check (f g : F) (wq : WaitEntry)
  | alloc (f g : F) (blocking : Bool)
  | sleep (f g : F)
  | await (f g : F)
  | enqueue (f g : F)
  /-- `i915_sw_fence_complete`: the check in it. -/
  | commit (f : F)
  /-- `__i915_sw_fence_complete` without a continuation. -/
  | dec (f : F) (ctx : Option F)
  | notify (f : F) (ctx : Option F)
  | setDone (f : F) (ctx : Option F)
  | lock (f : F) (ctx : Option F)
  | loop (f : F) (ctx : Option F)
  | free (f : F) (ctx : Option F)
  /-- `__i915_sw_fence_complete` with a continuation, after the count has become zero. -/
  | nestedNotify (g f : F) (ctx : Option F)
  | nestedSetDone (g f : F) (ctx : Option F)
  | nestedMove (g f : F) (ctx : Option F)
  | nestedFree (g f : F) (ctx : Option F)
  /-- The end of an await that holds the lock of the signaler. -/
  | leave (g : F)
  | returned (ret : Ret)

/-- Where a completion without a continuation returns to. -/
def Pc.after {F : Type} : Option F → Pc F
  | none => .returned .void
  | some g => .leave g

variable {F : Type} [DecidableEq F]

/-- The first step of a call. -/
def begin (t : ℕ) (s : State F) : Call F → Option (State F × Pc F)
  | .init f =>
    if s.stage f = .raw then some ((s.init f).start t, .returned .void) else none
  | .await f g wq =>
    if s.stage f ≠ .raw ∧ s.stage g ≠ .raw then some (s.start t, .check f g wq) else none
  | .commit f =>
    if s.stage f ≠ .raw ∧ s.committed f = false then some ((s.commit t f).start t, .commit f)
    else none

/-- A turn of the loop of `__i915_sw_fence_wake_up_all` without a continuation. -/
def wakeTurn (t : ℕ) (s : State F) (f : F) (ctx : Option F) : State F × Pc F :=
  match s.queue f with
  | g :: rest =>
    -- `i915_sw_fence_wake`
    let s' := s.pop f g rest
    if s'.pending g = 0 then (s'.mark g (.completing t .zero), .nestedNotify g f ctx)
    else (s', .loop f ctx)
  | [] =>
    if s.extra f = [] then ((s.release f).mark f .finished, .free f ctx)
    else (s.splice f, .loop f ctx)

/-- The steps of the calls. -/
def next (t : ℕ) (x : Choice F) (s : State F) : Pc F → Option (State F × Pc F)
  | .idle =>
    match x with
    | .call c => begin t s c
    | _ => none
  | .check f g wq =>
    if s.pending g < 0 then some (s.settle f g, .returned .zero)
    else match wq with
      | .caller => some (s, .await f g)
      | .allocate blocking => some (s, .alloc f g blocking)
  | .alloc f g blocking =>
    match x with
    | .memory true => some (s, .await f g)
    | .memory false => some (s, if blocking then .sleep f g else .returned .enomem)
    | _ => none
  | .sleep f g => if s.pending g < 0 then some (s.settle f g, .returned .zero) else none
  | .await f g => some (s.await t f g, .enqueue f g)
  | .enqueue f g =>
    if s.lock g = none then
      if 0 ≤ s.pending g then some (s.enqueue t f g, .returned .one)
      else some (s.take t g, .dec f (some g))
    else none
  | .commit f => if s.pending f < 0 then some (s, .returned .void) else some (s, .dec f none)
  | .dec f ctx =>
    let s' := s.drop t f
    if s'.pending f = 0 then some (s'.mark f (.completing t .zero), .notify f ctx)
    else some (s', .after ctx)
  | .notify f ctx =>
    match x with
    | .answer done => some ((s.notify f .complete).mark f (.completing t .notified),
        if done then .setDone f ctx else .after ctx)
    | _ => none
  | .setDone f ctx => some ((s.setDone f).mark f (.completing t .marked), .lock f ctx)
  | .lock f ctx =>
    if s.lock f = none then some ((s.take t f).mark f (.completing t .waking), .loop f ctx)
    else none
  | .loop f ctx => some (wakeTurn t s f ctx)
  | .free f ctx => some (s.notify f .free, .after ctx)
  | .nestedNotify g f ctx =>
    match x with
    | .answer done => some ((s.notify g .complete).mark g (.completing t .notified),
        if done then .nestedSetDone g f ctx else .loop f ctx)
    | _ => none
  | .nestedSetDone g f ctx =>
    some ((s.setDone g).mark g (.completing t .marked), .nestedMove g f ctx)
  | .nestedMove g f ctx =>
    if s.lock g = none then some ((s.moveTail g f).mark g .finished, .nestedFree g f ctx)
    else none
  | .nestedFree g f ctx => some (s.notify g .free, .loop f ctx)
  | .leave g => some (s.release g, .returned .zero)
  | .returned _ => none

/-- The fences and the threads. -/
abbrev Config (F : Type) := Threads.Config (State F) (Pc F)

/-- No fence is initialised and no call is made. -/
def initConfig (F : Type) : Config F := ⟨{}, fun _ => .idle⟩

/-- The steps from a program point that are no misuse: an await takes effect only while the count
of the waiting fence is positive, as the `WARN_ON` of `i915_sw_fence_await` says, and does not
overflow it; the notify functions answer `NOTIFY_DONE`. -/
def LegalAt (s : State F) (x : Choice F) : Pc F → Prop
  | .check f g _ => s.pending g < 0 → 0 < s.pending f
  | .sleep f _ => 0 < s.pending f
  | .await f _ => 0 < s.pending f ∧ s.pending f < 2 ^ 31 - 1
  | .notify _ _ => x = .answer true
  | .nestedNotify _ _ _ => x = .answer true
  | _ => True

instance (s : State F) (x : Choice F) (p : Pc F) : Decidable (LegalAt s x p) := by
  cases p <;> dsimp only [LegalAt] <;> infer_instance

/-- The steps that are no misuse. -/
def Legal (c : Config F) (t : ℕ) (x : Choice F) : Prop := LegalAt c.shared x (c.pc t)

instance (c : Config F) (t : ℕ) (x : Choice F) : Decidable (Legal c t x) :=
  inferInstanceAs (Decidable (LegalAt _ _ _))

/-! ## What a step does -/

/-- The steps that are no misuse, one by one. -/
inductive Step (t : ℕ) (s : State F) : Pc F → State F → Pc F → Prop
  | init (f : F) (h : s.stage f = .raw) :
      Step t s .idle ((s.init f).start t) (.returned .void)
  | awaitCall (f g : F) (wq : WaitEntry) (hf : s.stage f ≠ .raw) (hg : s.stage g ≠ .raw) :
      Step t s .idle (s.start t) (.check f g wq)
  | commitCall (f : F) (hf : s.stage f ≠ .raw) (hc : s.committed f = false) :
      Step t s .idle ((s.commit t f).start t) (.commit f)
  | checkDone (f g : F) (wq : WaitEntry) (h : s.pending g < 0) (hf : 0 < s.pending f) :
      Step t s (.check f g wq) (s.settle f g) (.returned .zero)
  | checkCaller (f g : F) : Step t s (.check f g .caller) s (.await f g)
  | checkAlloc (f g : F) (b : Bool) : Step t s (.check f g (.allocate b)) s (.alloc f g b)
  | allocOk (f g : F) (b : Bool) : Step t s (.alloc f g b) s (.await f g)
  | allocSleep (f g : F) : Step t s (.alloc f g true) s (.sleep f g)
  | allocFail (f g : F) : Step t s (.alloc f g false) s (.returned .enomem)
  | sleepDone (f g : F) (h : s.pending g < 0) (hf : 0 < s.pending f) :
      Step t s (.sleep f g) (s.settle f g) (.returned .zero)
  | await (f g : F) (h : 0 < s.pending f) (hmax : s.pending f < 2 ^ 31 - 1) :
      Step t s (.await f g) (s.await t f g) (.enqueue f g)
  | enqueue (f g : F) (hl : s.lock g = none) (h : 0 ≤ s.pending g) :
      Step t s (.enqueue f g) (s.enqueue t f g) (.returned .one)
  | enqueueDone (f g : F) (hl : s.lock g = none) (h : s.pending g < 0) :
      Step t s (.enqueue f g) (s.take t g) (.dec f (some g))
  | commitWarn (f : F) (h : s.pending f < 0) : Step t s (.commit f) s (.returned .void)
  | commitGo (f : F) : Step t s (.commit f) s (.dec f none)
  | decZero (f : F) (ctx : Option F) (h : wrap (s.pending f - 1) = 0) :
      Step t s (.dec f ctx) ((s.drop t f).mark f (.completing t .zero)) (.notify f ctx)
  | dec (f : F) (ctx : Option F) (h : wrap (s.pending f - 1) ≠ 0) :
      Step t s (.dec f ctx) (s.drop t f) (.after ctx)
  | notify (f : F) (ctx : Option F) :
      Step t s (.notify f ctx) ((s.notify f .complete).mark f (.completing t .notified))
        (.setDone f ctx)
  | setDone (f : F) (ctx : Option F) :
      Step t s (.setDone f ctx) ((s.setDone f).mark f (.completing t .marked)) (.lock f ctx)
  | lock (f : F) (ctx : Option F) (hl : s.lock f = none) :
      Step t s (.lock f ctx) ((s.take t f).mark f (.completing t .waking)) (.loop f ctx)
  | popZero (f : F) (ctx : Option F) (g : F) (rest : List F) (hq : s.queue f = g :: rest)
      (h : wrap (s.pending g - 1) = 0) :
      Step t s (.loop f ctx) ((s.pop f g rest).mark g (.completing t .zero))
        (.nestedNotify g f ctx)
  | pop (f : F) (ctx : Option F) (g : F) (rest : List F) (hq : s.queue f = g :: rest)
      (h : wrap (s.pending g - 1) ≠ 0) : Step t s (.loop f ctx) (s.pop f g rest) (.loop f ctx)
  | unlock (f : F) (ctx : Option F) (hq : s.queue f = []) (he : s.extra f = []) :
      Step t s (.loop f ctx) ((s.release f).mark f .finished) (.free f ctx)
  | splice (f : F) (ctx : Option F) (hq : s.queue f = []) (he : s.extra f ≠ []) :
      Step t s (.loop f ctx) (s.splice f) (.loop f ctx)
  | free (f : F) (ctx : Option F) : Step t s (.free f ctx) (s.notify f .free) (.after ctx)
  | nestedNotify (g f : F) (ctx : Option F) :
      Step t s (.nestedNotify g f ctx)
        ((s.notify g .complete).mark g (.completing t .notified)) (.nestedSetDone g f ctx)
  | nestedSetDone (g f : F) (ctx : Option F) :
      Step t s (.nestedSetDone g f ctx) ((s.setDone g).mark g (.completing t .marked))
        (.nestedMove g f ctx)
  | nestedMove (g f : F) (ctx : Option F) (hl : s.lock g = none) :
      Step t s (.nestedMove g f ctx) ((s.moveTail g f).mark g .finished) (.nestedFree g f ctx)
  | nestedFree (g f : F) (ctx : Option F) :
      Step t s (.nestedFree g f ctx) (s.notify g .free) (.loop f ctx)
  | leave (g : F) : Step t s (.leave g) (s.release g) (.returned .zero)

lemma step_of_begin {t : ℕ} {s s' : State F} {call : Call F} {p' : Pc F}
    (h : begin t s call = some (s', p')) : Step t s .idle s' p' := by
  cases call with
  | init f =>
    simp only [begin, ite_none_right_eq_some] at h
    obtain ⟨hraw, rfl, rfl⟩ := h
    exact .init f hraw
  | await f g wq =>
    simp only [begin, ite_none_right_eq_some] at h
    obtain ⟨⟨hf, hg⟩, rfl, rfl⟩ := h
    exact .awaitCall f g wq hf hg
  | commit f =>
    simp only [begin, ite_none_right_eq_some] at h
    obtain ⟨⟨hf, hc⟩, rfl, rfl⟩ := h
    exact .commitCall f hf hc

lemma step_wakeTurn (t : ℕ) (s : State F) (f : F) (ctx : Option F) :
    Step t s (.loop f ctx) (wakeTurn t s f ctx).1 (wakeTurn t s f ctx).2 := by
  unfold wakeTurn
  rcases hq : s.queue f with _ | ⟨g, rest⟩
  · split_ifs with he
    · exact .unlock f ctx hq he
    · exact .splice f ctx hq he
  · simp only [State.pop_pending, update_self]
    split_ifs with hz
    · exact .popZero f ctx g rest hq hz
    · exact .pop f ctx g rest hq hz

lemma step_of_next {c : Config F} {t : ℕ} {x : Choice F} {s' : State F} {p' : Pc F}
    (hlegal : Legal c t x) (h : next t x c.shared (c.pc t) = some (s', p')) :
    Step t c.shared (c.pc t) s' p' := by
  unfold Legal at hlegal
  generalize c.pc t = p at h hlegal
  generalize c.shared = s at h hlegal
  cases p with
  | idle =>
    cases x with
    | call call => exact step_of_begin h
    | _ => cases h
  | check f g wq =>
    simp only [next] at h
    split_ifs at h with hg
    · cases h
      exact .checkDone f g wq hg (hlegal hg)
    · cases wq with
      | caller =>
        cases h
        exact .checkCaller f g
      | allocate b =>
        cases h
        exact .checkAlloc f g b
  | alloc f g b =>
    rcases x with _ | ⟨_ | _⟩ | _ | _ <;> cases h
    · cases b with
      | true => exact .allocSleep f g
      | false => exact .allocFail f g
    · exact .allocOk f g b
  | sleep f g =>
    simp only [next, ite_none_right_eq_some] at h
    obtain ⟨hg, h⟩ := h
    cases h
    exact .sleepDone f g hg hlegal
  | await f g =>
    cases h
    exact .await f g hlegal.1 hlegal.2
  | enqueue f g =>
    simp only [next] at h
    split_ifs at h with hl hg
    · cases h
      exact .enqueue f g hl hg
    · cases h
      exact .enqueueDone f g hl (Int.not_le.1 hg)
  | commit f =>
    simp only [next] at h
    split_ifs at h with hf
    · cases h
      exact .commitWarn f hf
    · cases h
      exact .commitGo f
  | dec f ctx =>
    simp only [next, State.drop_pending, update_self] at h
    split_ifs at h with hz
    · cases h
      exact .decZero f ctx hz
    · cases h
      exact .dec f ctx hz
  | notify f ctx =>
    subst hlegal
    cases h
    exact .notify f ctx
  | setDone f ctx =>
    cases h
    exact .setDone f ctx
  | lock f ctx =>
    simp only [next, ite_none_right_eq_some] at h
    obtain ⟨hl, h⟩ := h
    cases h
    exact .lock f ctx hl
  | loop f ctx =>
    have hturn := step_wakeTurn t s f ctx
    rwa [Option.some.inj h] at hturn
  | free f ctx =>
    cases h
    exact .free f ctx
  | nestedNotify g f ctx =>
    subst hlegal
    cases h
    exact .nestedNotify g f ctx
  | nestedSetDone g f ctx =>
    cases h
    exact .nestedSetDone g f ctx
  | nestedMove g f ctx =>
    simp only [next, ite_none_right_eq_some] at h
    obtain ⟨hl, h⟩ := h
    cases h
    exact .nestedMove g f ctx hl
  | nestedFree g f ctx =>
    cases h
    exact .nestedFree g f ctx
  | leave g =>
    cases h
    exact .leave g
  | returned ret => cases h

end KmsDrm.I915.SwFence
