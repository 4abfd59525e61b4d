import KmsDrm.Lib.Int32
import KmsDrm.Lib.Threads

/-!
# The TTM lock

A lock with a read, a write, a VT and a suspend mode. Its state is a counter, which is `-1` while
there is a writer, and a word of flags for the other two modes and for those who wait.

## Main definitions

* `Ttm.Lock` — the lock.
* `Ttm.next` — one step of a client.

## Implementation notes

Each section under the spinlock is one step. A call makes its first attempt at once, since nothing
shared happens before it; while it waits, further attempts and, if it is interruptible, its
interruption are steps of their own. The base object of the lock only serves to release the VT mode
when the file of its holder is closed: the release of the reference is the unlock of that client.
A failed `BUG_ON` leads to a program point that the client does not leave.
-/

namespace KmsDrm.Ttm

open KmsDrm.Lib

/-- `TTM_WRITE_LOCK_PENDING`. -/
def writeLockPending : BitVec 32 := 1#32 <<< 0

/-- `TTM_VT_LOCK_PENDING`. -/
def vtLockPending : BitVec 32 := 1#32 <<< 1

/-- `TTM_SUSPEND_LOCK_PENDING`. -/
def suspendLockPending : BitVec 32 := 1#32 <<< 2

/-- `TTM_VT_LOCK`. -/
def vtLockFlag : BitVec 32 := 1#32 <<< 3

/-- `TTM_SUSPEND_LOCK`. -/
def suspendLockFlag : BitVec 32 := 1#32 <<< 4

/-- `struct ttm_lock`. -/
structure Lock where
  rw : ℤ
  flags : BitVec 32
  killTakers : Bool
  deriving DecidableEq, Repr

/-- `ttm_lock_init`. -/
def lockInit : Lock := ⟨0, 0#32, false⟩

/-- `EINVAL`. -/
def einval : ℤ := 22

/-! ## The sections under the spinlock -/

/-- `ttm_read_unlock`. -/
def readUnlock (l : Lock) : Lock := { l with rw := toInt32 (l.rw - 1) }

/-- `__ttm_read_lock`. -/
def readLock (l : Lock) : Lock × Bool :=
  if l.killTakers then (l, false)
  else if 0 ≤ l.rw ∧ l.flags = 0#32 then ({ l with rw := toInt32 (l.rw + 1) }, true)
  else (l, false)

/-- What `__ttm_read_trylock` returns, and what it stores to `locked`. -/
structure TryResult where
  lock : Lock
  ret : Bool
  locked : Bool

/-- `__ttm_read_trylock`. -/
def readTrylock (l : Lock) : TryResult :=
  if l.killTakers then ⟨l, false, false⟩
  else if 0 ≤ l.rw ∧ l.flags = 0#32 then ⟨{ l with rw := toInt32 (l.rw + 1) }, true, true⟩
  else if l.flags = 0#32 then ⟨l, true, false⟩
  else ⟨l, false, false⟩

/-- `ttm_write_unlock`. -/
def writeUnlock (l : Lock) : Lock := { l with rw := 0 }

/-- `__ttm_write_lock`. -/
def writeLock (l : Lock) : Lock × Bool :=
  if l.killTakers then (l, false)
  else if l.rw = 0 ∧ l.flags &&& ~~~writeLockPending = 0#32 then
    ({ l with rw := -1, flags := l.flags &&& ~~~writeLockPending }, true)
  else ({ l with flags := l.flags ||| writeLockPending }, false)

/-- The section of `__ttm_vt_lock` and of `__ttm_suspend_lock`, which differ in the flags. -/
def flagLock (pending flag : BitVec 32) (l : Lock) : Lock × Bool :=
  if l.rw = 0 then ({ l with flags := l.flags &&& ~~~pending ||| flag }, true)
  else ({ l with flags := l.flags ||| pending }, false)

/-- What the unlocks of the two modes do with the flag. -/
def flagUnlock (flag : BitVec 32) (l : Lock) : Lock := { l with flags := l.flags &&& ~~~flag }

/-- `__ttm_vt_unlock`, which also tells whether the flag was set. -/
def vtUnlock (l : Lock) : Lock × ℤ :=
  (flagUnlock vtLockFlag l, if l.flags &&& vtLockFlag = 0#32 then -einval else 0)

/-- `__ttm_vt_lock`. -/
def vtLock (l : Lock) : Lock × Bool := flagLock vtLockPending vtLockFlag l

/-- `ttm_suspend_unlock`. -/
def suspendUnlock (l : Lock) : Lock := flagUnlock suspendLockFlag l

/-- `__ttm_suspend_lock`. -/
def suspendLock (l : Lock) : Lock × Bool := flagLock suspendLockPending suspendLockFlag l

/-! ## The clients -/

inductive Call where
  | readLock (interruptible : Bool)
  | readTrylock (interruptible : Bool)
  | writeLock (interruptible : Bool)
  | vtLock (interruptible : Bool)
  | suspendLock
  deriving DecidableEq, Repr

/-- The program point of a client. -/
inductive Pc where
  | idle
  /-- The call waits; `locked` is the variable of `ttm_read_trylock`. -/
  | wait (k : Call) (locked : Bool)
  | read
  | write
  /-- In `ttm_vt_lock`, before `ttm_base_object_init`. -/
  | vtTaken
  | vt
  | suspend
  /-- A `BUG_ON` has failed. -/
  | bug
  deriving DecidableEq, Repr

/-- One evaluation of the condition that a call waits for. -/
def attempt (k : Call) (l : Lock) : Lock × Pc :=
  match k with
  | .readLock _ =>
    let r := readLock l
    (r.1, if r.2 then .read else .wait k false)
  | .readTrylock _ =>
    let r := readTrylock l
    (r.lock, if r.ret then (if r.locked then .read else .idle) else .wait k r.locked)
  | .writeLock _ =>
    let r := writeLock l
    (r.1, if r.2 then .write else .wait k false)
  | .vtLock _ =>
    let r := vtLock l
    (r.1, if r.2 then .vtTaken else .wait k false)
  | .suspendLock =>
    let r := suspendLock l
    (r.1, if r.2 then .suspend else .wait k false)

/-- What a call does when its wait is interrupted. -/
def interrupted (k : Call) (locked : Bool) (l : Lock) : Option (Lock × Pc) :=
  match k with
  | .readLock true => some (l, .idle)
  | .readTrylock true => some (l, if locked then .bug else .idle)
  | .writeLock true => some ({ l with flags := l.flags &&& ~~~writeLockPending }, .idle)
  | .vtLock true => some ({ l with flags := l.flags &&& ~~~vtLockPending }, .idle)
  | _ => none

/-- The steps of a client. -/
inductive Act where
  | call (k : Call)
  | retry
  | interrupt
  /-- `ttm_base_object_init` returns. -/
  | baseObjectInit (ok : Bool)
  | unlock
  /-- `ttm_lock_set_kill`. -/
  | setKill (val : Bool)
  deriving DecidableEq, Repr

/-- One step of a client. -/
def next (_ : ℕ) (x : Act) (l : Lock) (p : Pc) : Option (Lock × Pc) :=
  match x, p with
  | .call k, .idle => some (attempt k l)
  | .retry, .wait k _ => some (attempt k l)
  | .interrupt, .wait k locked => interrupted k locked l
  | .baseObjectInit ok, .vtTaken => some (if ok then (l, .vt) else ((vtUnlock l).1, .idle))
  | .unlock, .read => some (readUnlock l, .idle)
  | .unlock, .write => some (writeUnlock l, .idle)
  | .unlock, .vt =>
    let r := vtUnlock l
    some (r.1, if r.2 = 0 then .idle else .bug)
  | .unlock, .suspend => some (suspendUnlock l, .idle)
  | .setKill val, p => some ({ l with killTakers := val }, p)
  | _, _ => none

/-- No client holds the lock or waits for it. -/
def initConfig : Threads.Config Lock Pc := ⟨lockInit, fun _ => .idle⟩

end KmsDrm.Ttm
