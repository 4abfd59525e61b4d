import Mathlib

/-!
# Reserving space in the FIFO

`vmw_local_fifo_reserve` loops until there is room between `NEXT_CMD` and `STOP`, and relies on
`vmw_fifo_wait` to block in between. The registers are read while the device does not advance
`STOP`, so that they stay as they are, and a wait for a FIFO that is full ends at its timeout.

## Main results

* `fifo_reserve_returns_iff` — when the loop comes to an end.
-/

namespace KmsDrm.Vmwgfx

/-- The registers of the FIFO, and what a reservation finds: whether the device can reserve, the
size of the static bounce buffer, and whether `vmalloc` succeeds. -/
structure Fifo where
  max : BitVec 32
  min : BitVec 32
  nextCmd : BitVec 32
  stop : BitVec 32
  reserveable : Bool
  staticBufferSize : BitVec 32
  vmalloc : Bool

/-- The fields of `struct vmw_fifo_state` that a reservation changes. -/
structure FifoState where
  reservedSize : BitVec 32 := 0
  usingBounceBuffer : Bool := false
  /-- `fifo_mutex` is held. -/
  locked : Bool := false
  deriving DecidableEq

/-- What the caller gets. -/
inductive Space
  | inPlace
  | staticBuffer
  | dynamicBuffer
  | null
  deriving DecidableEq

namespace Fifo

variable (f : Fifo) (bytes : BitVec 32)

/-- `vmw_fifo_is_full`. -/
def isFull : Bool := decide (f.max - f.nextCmd + (f.stop - f.min) ≤ bytes)

/-- `vmw_fifo_wait`: `-EBUSY` at the timeout. -/
def wait : ℤ := if f.isFull bytes then -16 else 0

/-- `out_err`. -/
def outErr (s : FifoState) : FifoState × Space :=
  ({ s with reservedSize := 0, locked := false }, .null)

/-- The bounce buffers. -/
def bounce (s : FifoState) : FifoState × Space :=
  let s := { s with usingBounceBuffer := true }
  if bytes < f.staticBufferSize then (s, .staticBuffer)
  else if f.vmalloc then (s, .dynamicBuffer)
  else outErr s

/-- What follows `reserve_in_place`. -/
def place (s : FifoState) : FifoState × Space :=
  if f.reserveable || decide (bytes ≤ 4) then ({ s with usingBounceBuffer := false }, .inPlace)
  else f.bounce bytes s

/-- The loop, for at most so many turns. -/
def reserveLoop (s : FifoState) : ℕ → Option (FifoState × Space)
  | 0 => none
  | turns + 1 =>
    if f.stop ≤ f.nextCmd then
      if f.nextCmd + bytes < f.max ∨ f.nextCmd + bytes = f.max ∧ f.min < f.stop then
        some (f.place bytes s)
      else if f.isFull bytes then
        if f.wait bytes ≠ 0 then some (outErr s) else reserveLoop s turns
      else some (f.bounce bytes s)
    else if f.nextCmd + bytes < f.stop then some (f.place bytes s)
    else if f.wait bytes ≠ 0 then some (outErr s)
    else reserveLoop s turns

/-- `vmw_local_fifo_reserve`. No reservation is open when it takes the mutex. -/
def reserve (turns : ℕ) : Option (FifoState × Space) :=
  let s : FifoState := { locked := true }
  if f.max - f.min ≤ bytes then some (outErr s)
  else f.reserveLoop bytes { s with reservedSize := bytes } turns

/-- The caller gets space and holds the mutex; or nothing is reserved, and the mutex is free. -/
def Settled (r : FifoState × Space) : Prop :=
  if r.2 = .null then r.1.reservedSize = 0 ∧ r.1.locked = false ∧
    (f.isFull bytes = true ∨ f.vmalloc = false)
  else r.1.reservedSize = bytes ∧ r.1.locked = true

/-- A reservation does not have to wait behind `NEXT_CMD` for a FIFO that does not count as full. -/
def Blocks : Prop :=
  f.stop ≤ f.nextCmd ∨ f.nextCmd + bytes < f.stop ∨ f.isFull bytes = true

variable {f bytes}

lemma settled_outErr (s : FifoState) (h : f.isFull bytes = true ∨ f.vmalloc = false) :
    f.Settled bytes (outErr s) := ⟨rfl, rfl, h⟩

lemma settled_bounce {s : FifoState} (hs : s.reservedSize = bytes ∧ s.locked = true) :
    f.Settled bytes (f.bounce bytes s) := by
  unfold bounce
  split_ifs with hsize halloc
  · exact hs
  · exact hs
  · exact settled_outErr _ (.inr (by simpa using halloc))

lemma settled_place {s : FifoState} (hs : s.reservedSize = bytes ∧ s.locked = true) :
    f.Settled bytes (f.place bytes s) := by
  unfold place
  split_ifs
  · exact hs
  · exact settled_bounce hs

/-- **When a reservation returns.** If the device has stopped, the loop ends with a right result,
and then in its first turn, if and only if `STOP` is not ahead of `NEXT_CMD`, or the request fits in
front of it, or `vmw_fifo_is_full` holds. The last is not so for registers in the lower half of the
addresses: its sum counts the space around the whole FIFO. -/
theorem fifo_reserve_returns_iff (f : Fifo) (bytes : BitVec 32) (hbytes : bytes < f.max - f.min) :
    ((∃ turns r, f.reserve bytes turns = some r ∧ f.Settled bytes r) ↔ f.Blocks bytes) ∧
      (f.Blocks bytes → ∃ r, f.reserve bytes 1 = some r) ∧
      (f.min ≤ f.nextCmd → f.nextCmd < f.stop → f.stop < f.max → f.max ≤ 0x80000000 →
        f.isFull bytes = false) := by
  have hfirst : f.Blocks bytes → ∃ r, f.reserve bytes 1 = some r ∧ f.Settled bytes r := by
    intro h
    rw [reserve, if_neg (by bv_omega), reserveLoop]
    have hs : bytes = bytes ∧ true = true := ⟨rfl, rfl⟩
    split_ifs with hstop hplace hfull hwait hfront hwait
    · exact ⟨_, rfl, settled_place hs⟩
    · exact ⟨_, rfl, settled_outErr _ (.inl hfull)⟩
    · simp [wait, hfull] at hwait
    · exact ⟨_, rfl, settled_bounce hs⟩
    · exact ⟨_, rfl, settled_place hs⟩
    · exact ⟨_, rfl, settled_outErr _ (.inl (by simpa [wait] using hwait))⟩
    · -- the wait returned at once, but the FIFO is full
      simp [wait, (h.resolve_left hstop).resolve_left hfront] at hwait
  refine ⟨⟨?_, fun h => ⟨1, hfirst h⟩⟩, fun h => (hfirst h).imp fun _ => And.left, ?_⟩
  · rintro ⟨turns, r, hr, -⟩
    rw [reserve, if_neg (by bv_omega)] at hr
    by_contra hnot
    obtain ⟨hstop, hfront, hfull⟩ := by simpa only [Blocks, not_or] using hnot
    -- each turn leaves everything as it was
    induction turns with
    | zero => cases hr
    | succ turns ih =>
      rw [reserveLoop, if_neg hstop, if_neg hfront, if_neg (by simp [wait, hfull])] at hr
      exact ih hr
  · intro hmin hnext hstop hmax
    rw [isFull, decide_eq_false_iff_not]
    bv_omega

/-- A FIFO whose free space is in front of `STOP`. -/
def wrapped : Fifo := ⟨0x1000, 0x400, 0x800, 0x880, true, 0x1000, true⟩

theorem fifo_reserve_returns_iff_fits : ∃ r, wrapped.reserve 0x40 1 = some r :=
  (fifo_reserve_returns_iff wrapped 0x40 (by decide)).2.1 (.inr (.inl (by decide)))

/-- **A wait that does not block.** A request that does not fit in front of `STOP` goes round the
loop for ever, since the FIFO does not count as full. -/
theorem fifo_reserve_spins : ¬∃ turns r, wrapped.reserve 0x100 turns = some r := by
  rintro ⟨turns, r, hr⟩
  induction turns with
  | zero => cases hr
  | succ turns ih => exact ih hr

end Fifo

end KmsDrm.Vmwgfx
