import KmsDrm.Lib.Threads

/-!
# DMA fences under concurrent calls

The functions of `dma-fence.h` on one fence as programs of threads, step by step: every bit
operation is a step of its own, also the ones under the lock, and a lock is taken, used and
released in steps of their own, so that bit operations without the lock can fall anywhere in a
section that holds it. Every order in which sections with the lock are single steps is among
these interleavings.

## Main definitions

* `DmaFence.State` — the fence, its lock and list, and the history.
* `DmaFence.next` — one step of a thread.

## Implementation notes

A thread is one call. `dma_fence_add_callback` registers a callback of its own, named by the
thread, and so does `dma_fence_default_wait`, whose callback lives on its stack. What
`enable_signaling` and `signal_pending` answer and what `schedule_timeout` returns is chosen in
each step. `dma_fence_signal_locked` is called with the lock held; its caller takes and releases
it here. `dma_fence_remove_callback` is called for a callback whose `dma_fence_add_callback` has
returned, so that its list node is initialised. The history records what happened to each
callback; no step looks at it apart from that condition.
-/

namespace KmsDrm.DmaFence

open KmsDrm.Lib

/-- What a call returns. -/
inductive Ret where
  | zero
  | enoent
  | einval
  /-- The answer of `dma_fence_remove_callback`. -/
  | found (ret : Bool)
  /-- No value. -/
  | void
  /-- The remaining time of `dma_fence_default_wait`. -/
  | time (ret : ℤ)
  /-- The answer `-ERESTARTSYS` of an interrupted wait. -/
  | restart
  deriving DecidableEq, Repr

/-- The calls. The timeout of a wait is the one after its conversion to an `int`. -/
inductive Call where
  | signal
  | signalLocked
  | addCallback
  | removeCallback (cb : ℕ)
  | enableSwSignaling
  | defaultWait (intr : Bool) (timeout : ℤ)
  deriving DecidableEq, Repr

/-- The fence and the history of its callbacks. -/
structure State where
  /-- The bit `DMA_FENCE_FLAG_SIGNALED_BIT`. -/
  signaled : Bool := false
  /-- The bit `DMA_FENCE_FLAG_TIMESTAMP_BIT`. -/
  timestamp : Bool := false
  /-- The bit `DMA_FENCE_FLAG_ENABLE_SIGNAL_BIT`. -/
  enableSignal : Bool := false
  /-- The thread that holds the lock. -/
  lock : Option ℕ := none
  cbList : List ℕ := []
  added : List ℕ := []
  /-- History: threads that have unlinked a callback and have not called it yet. -/
  flying : List (ℕ × ℕ) := []
  invoked : List ℕ := []
  /-- History: the callbacks that were taken out of the list without a call. -/
  removed : List ℕ := []
  /-- History: the calls that have returned, with their values. -/
  returned : ℕ → Option Ret := fun _ => none

/-! ## Changes of the state -/

namespace State

/-- Set the bit `SIGNALED`. -/
@[simps]
def setSignaled (s : State) : State := { s with signaled := true }

/-- Set the bit `TIMESTAMP`. -/
@[simps]
def setTimestamp (s : State) : State := { s with timestamp := true }

/-- Set the bit `ENABLE_SIGNAL`. -/
@[simps]
def setEnable (s : State) : State := { s with enableSignal := true }

@[simps]
def take (s : State) (t : ℕ) : State := { s with lock := some t }

@[simps]
def release (s : State) : State := { s with lock := none }

/-- Return from the call. -/
@[simps]
def finish (s : State) (t : ℕ) (r : Ret) : State :=
  { s with returned := Function.update s.returned t (some r) }

/-- Unlink the first callback of the list and release the lock. -/
@[simps]
def pop (s : State) (t cb : ℕ) (rest : List ℕ) : State :=
  { s with cbList := rest, flying := (t, cb) :: s.flying, lock := none }

/-- Call a callback that was unlinked. -/
@[simps]
def invoke (s : State) (t cb : ℕ) : State :=
  { s with flying := s.flying.erase (t, cb), invoked := cb :: s.invoked }

/-- Put a callback at the end of the list. -/
@[simps]
def addTail (s : State) (cb : ℕ) : State :=
  { s with cbList := s.cbList ++ [cb], added := cb :: s.added }

/-- Put a callback at the head of the list. -/
@[simps]
def addHead (s : State) (cb : ℕ) : State :=
  { s with cbList := cb :: s.cbList, added := cb :: s.added }

/-- Take a callback out of the list. -/
@[simps]
def delete (s : State) (cb : ℕ) : State :=
  { s with cbList := s.cbList.erase cb, removed := cb :: s.removed }

end State

/-! ## The steps -/

/-- Program points. A value `r` is what the call will return. -/
inductive Pc where
  | start
  /-- `dma_fence_signal`: set the time stamp, test the other bit, take the lock. -/
  | stamp
  | testEnable
  | lockDrain
  /-- `dma_fence_signal_locked`: set the bit, then the time stamp. Without a value the call is
  the one whose value depends on the bit. -/
  | lockedTas (r : Option Ret)
  | lockedStamp (r : Ret)
  /-- `dma_fence_signal_locked_sub`: look at the list, call a callback, take the lock again. -/
  | drain (r : Ret)
  | invoke (cb : ℕ) (r : Ret)
  | relock (r : Ret)
  /-- Release the lock and return. -/
  | unlock (r : Ret)
  /-- `dma_fence_add_callback` -/
  | addLock
  | addEnable
  | addCheck (wasSet : Bool)
  | addInsert
  /-- `dma_fence_remove_callback` -/
  | removeDel (cb : ℕ)
  /-- `dma_fence_enable_sw_signaling` -/
  | enableTest
  | enableLock
  | enableCall
  /-- `dma_fence_default_wait` -/
  | waitLock
  | waitEnter
  | waitEnable
  | waitCheck (wasSet : Bool)
  | waitInsert
  | waitLoop (r : Ret)
  | waitSleep
  | waitRelock (ret : ℤ)
  | waitWoken (ret : ℤ)
  | waitExit (r : Ret)
  | done
  deriving DecidableEq, Repr

/-- The choices of the environment in a step: the answer of the driver or of `signal_pending`,
and what `schedule_timeout` returns. -/
structure Choice where
  answer : Bool
  ret : ℤ

def acquire (t : ℕ) (s : State) (pc : Pc) : Option (State × Pc) :=
  if s.lock = none then some (s.take t, pc) else none

/-- Return from a call that does not hold the lock. -/
def leave (t : ℕ) (s : State) (r : Ret) : Option (State × Pc) := some (s.finish t r, .done)

/-- The first step of a call. -/
def begin (calls : ℕ → Call) (t : ℕ) (s : State) : Option (State × Pc) :=
  match calls t with
  | .signal =>
    if s.signaled then leave t s .einval else some (s.setSignaled, .stamp)
  | .signalLocked => acquire t s (.lockedTas none)
  | .addCallback =>
    if s.signaled then leave t s .enoent else some (s, .addLock)
  | .removeCallback cb =>
    if calls cb = .addCallback ∧ s.returned cb ≠ none then acquire t s (.removeDel cb) else none
  | .enableSwSignaling =>
    if s.enableSignal then leave t s .void else some (s.setEnable, .enableTest)
  | .defaultWait _ timeout =>
    if s.signaled then leave t s (.time timeout) else some (s, .waitLock)

/-- The arguments of a wait; other calls have none. -/
def Call.waitArgs : Call → Bool × ℤ
  | .defaultWait intr timeout => (intr, timeout)
  | _ => (false, 0)

/-- The time that is left, as the loop of a wait tests it. -/
def Ret.left : Ret → ℤ
  | .time ret => ret
  | _ => -1

/-- The step of thread `t`. -/
def next (calls : ℕ → Call) (t : ℕ) (x : Choice) (s : State) : Pc → Option (State × Pc)
  | .start => begin calls t s
  | .stamp => some (s.setTimestamp, .testEnable)
  | .testEnable => if s.enableSignal then some (s, .lockDrain) else leave t s .zero
  | .lockDrain => acquire t s (.drain .zero)
  | .lockedTas r =>
    if s.signaled then some (s, .drain (r.getD .einval))
    else some (s.setSignaled, .lockedStamp (r.getD .zero))
  | .lockedStamp r => some (s.setTimestamp, .drain r)
  | .drain r =>
    match s.cbList with
    | [] => some (s, .unlock r)
    | cb :: rest => some (s.pop t cb rest, .invoke cb r)
  | .invoke cb r => some (s.invoke t cb, .relock r)
  | .relock r => acquire t s (.drain r)
  | .unlock r => some (s.release.finish t r, .done)
  | .addLock => acquire t s .addEnable
  | .addEnable => some (s.setEnable, .addCheck s.enableSignal)
  | .addCheck wasSet =>
    if s.signaled then some (s, .unlock .enoent)
    else if !wasSet && !x.answer then some (s, .lockedTas (some .enoent))
    else some (s, .addInsert)
  | .addInsert => some (s.addTail t, .unlock .zero)
  | .removeDel cb =>
    if cb ∈ s.cbList then some (s.delete cb, .unlock (.found true))
    else some (s, .unlock (.found false))
  | .enableTest => if s.signaled then leave t s .void else some (s, .enableLock)
  | .enableLock => acquire t s .enableCall
  | .enableCall =>
    if x.answer then some (s, .unlock .void) else some (s, .lockedTas (some .void))
  | .waitLock => acquire t s .waitEnter
  | .waitEnter =>
    if (calls t).waitArgs.1 && x.answer then some (s, .unlock .restart) else some (s, .waitEnable)
  | .waitEnable => some (s.setEnable, .waitCheck s.enableSignal)
  | .waitCheck wasSet =>
    if s.signaled then some (s, .unlock (.time (calls t).waitArgs.2))
    else if !wasSet && !x.answer then some (s, .lockedTas (some (.time (calls t).waitArgs.2)))
    else some (s, .waitInsert)
  | .waitInsert => some (s.addHead t, .waitLoop (.time (calls t).waitArgs.2))
  | .waitLoop r =>
    if !s.signaled && 0 < r.left then some (s.release, .waitSleep) else some (s, .waitExit r)
  | .waitSleep => some (s, .waitRelock x.ret)
  | .waitRelock ret => acquire t s (.waitWoken ret)
  | .waitWoken ret =>
    if 0 < ret && (calls t).waitArgs.1 && x.answer then some (s, .waitLoop .restart)
    else some (s, .waitLoop (.time ret))
  | .waitExit r =>
    if t ∈ s.cbList then some (s.delete t, .unlock r) else some (s, .unlock r)
  | .done => none

/-- All threads before their calls, and a fence that is not signaled. -/
def initial : Threads.Config State Pc := ⟨{}, fun _ => .start⟩

end KmsDrm.DmaFence
