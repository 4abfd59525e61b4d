import KmsDrm.Lib.Int32
import KmsDrm.Lib.Machine

/-!
# Vertical blanks

The interrupts for the vertical blanks of a CRTC are enabled while there are references to them.
References are held by callers, by the events that wait for a vertical blank, and by the lockout
between `drm_crtc_vblank_off` and `drm_crtc_vblank_on`.

## Main definitions

* `Vblank.Device` — the CRTCs and the events.
* `Vblank.step` — a call or an interrupt.

## Implementation notes

A pipe is the index of a CRTC of the device, so that the checks against `num_crtcs` never fail. By
how much `drm_update_vblank_count` advances the counter is computed from hardware registers and
timestamps; the results of its calls are a sequence that the device is given. What the driver's
`enable_vblank`, the allocation of an event and the reservation of space for it return are choices
of the step. An event request is a call of `drm_vblank_get` and, if that succeeds, a call of
`drm_queue_vblank_event`, to which the caller hands its reference; other calls may come in between.
The last fields of the device record what has happened.
-/

namespace KmsDrm.Vblank

open KmsDrm.Lib

/-- `struct drm_vblank_crtc`. -/
structure VblankCrtc where
  refcount : ℤ
  enabled : Bool
  inmodeset : Bool
  count : BitVec 64
  /-- Whether `disable_timer` is pending. -/
  timer : Bool
  deriving DecidableEq, Repr

/-- `struct drm_pending_vblank_event`. -/
structure Event where
  id : ℕ
  pipe : ℕ
  sequence : BitVec 64
  deriving DecidableEq, Repr

structure Device where
  /-- `drm_vblank_offdelay` -/
  offdelay : ℤ
  /-- `vblank_disable_immediate` -/
  disableImmediate : Bool
  /-- The feature `DRIVER_ATOMIC`. -/
  atomic : Bool
  /-- By how much the calls of `drm_update_vblank_count` advance the counter. -/
  diffs : ℕ → BitVec 32
  /-- How many calls of `drm_update_vblank_count` there were. -/
  updates : ℕ
  vblank : ℕ → VblankCrtc
  /-- `vblank_event_list` -/
  events : List Event
  /-- How many references to a CRTC are held by callers. -/
  held : ℕ → ℕ
  /-- The events of the requests that returned zero. -/
  accepted : List Event
  /-- The events passed to `send_vblank_event`. -/
  sent : List Event

/-- `EINVAL`. -/
def einval : ℤ := 22

/-- `ENOMEM`. -/
def enomem : ℤ := 12

/-- A device after `drm_vblank_init`. -/
def init (offdelay : ℤ) (disableImmediate atomic : Bool) (diffs : ℕ → BitVec 32) : Device where
  offdelay := offdelay
  disableImmediate := disableImmediate
  atomic := atomic
  diffs := diffs
  updates := 0
  vblank _ := ⟨0, false, false, 0#64, false⟩
  events := []
  held _ := 0
  accepted := []
  sent := []

/-- Change the state of a CRTC. -/
def Device.modify (d : Device) (pipe : ℕ) (f : VblankCrtc → VblankCrtc) : Device :=
  { d with vblank := Function.update d.vblank pipe (f (d.vblank pipe)) }

/-- `atomic_inc(&vblank->refcount)`. -/
def VblankCrtc.inc (v : VblankCrtc) : VblankCrtc := { v with refcount := toInt32 (v.refcount + 1) }

/-- `atomic_dec(&vblank->refcount)`. -/
def VblankCrtc.dec (v : VblankCrtc) : VblankCrtc := { v with refcount := toInt32 (v.refcount - 1) }

/-! ## Enabling and disabling -/

/-- `drm_update_vblank_count`. -/
def updateVblankCount (d : Device) (pipe : ℕ) : Device :=
  let d' := d.modify pipe fun v => { v with count := v.count + (d.diffs d.updates).setWidth 64 }
  { d' with updates := d.updates + 1 }

/-- `drm_reset_vblank_timestamp`, which advances the counter by one. -/
def resetVblankTimestamp (d : Device) (pipe : ℕ) : Device :=
  d.modify pipe fun v => { v with count := v.count + 1#64 }

/-- `drm_vblank_disable_and_save`. -/
def vblankDisableAndSave (d : Device) (pipe : ℕ) : Device :=
  let d := if (d.vblank pipe).enabled then d.modify pipe fun v => { v with enabled := false } else d
  updateVblankCount d pipe

/-- `vblank_disable_fn`. -/
def vblankDisableFn (d : Device) (pipe : ℕ) : Device :=
  if (d.vblank pipe).refcount = 0 ∧ (d.vblank pipe).enabled = true then vblankDisableAndSave d pipe
  else d

/-- `drm_vblank_enable`; `hw` is what `enable_vblank` returns. -/
def vblankEnable (d : Device) (pipe : ℕ) (hw : ℤ) : Device × ℤ :=
  if (d.vblank pipe).enabled then (d, 0)
  else if hw ≠ 0 then (d.modify pipe .dec, hw)
  else ((updateVblankCount d pipe).modify pipe fun v => { v with enabled := true }, 0)

/-! ## References -/

/-- `drm_vblank_get`. -/
def vblankGet (d : Device) (pipe : ℕ) (hw : ℤ) : Device × ℤ :=
  let d := d.modify pipe .inc
  if (d.vblank pipe).refcount = 1 then vblankEnable d pipe hw
  else if (d.vblank pipe).enabled then (d, 0)
  else (d.modify pipe .dec, -einval)

/-- `drm_vblank_put`. -/
def vblankPut (d : Device) (pipe : ℕ) : Device :=
  if (d.vblank pipe).refcount = 0 then d
  else
    let d := d.modify pipe .dec
    if (d.vblank pipe).refcount = 0 then
      if d.offdelay = 0 then d
      else if d.offdelay < 0 then vblankDisableFn d pipe
      else if d.disableImmediate then d
      else d.modify pipe fun v => { v with timer := true }
    else d

/-! ## Events -/

/-- `vblank_passed`. -/
def vblankPassed (seq ref : BitVec 64) : Bool := decide (seq - ref ≤ 1#64 <<< 23)

/-- `send_vblank_event`. -/
def sendVblankEvent (d : Device) (e : Event) : Device := { d with sent := d.sent ++ [e] }

/-- Take an event from the list, drop its reference and send it. -/
def flushEvent (d : Device) (pipe : ℕ) (e : Event) : Device :=
  sendVblankEvent (vblankPut { d with events := d.events.erase e } pipe) e

/-- The loop of `drm_crtc_vblank_off` and of `drm_handle_vblank_events`, which differ in the events
they pass over. -/
def flushEvents (d : Device) (pipe : ℕ) (due : Event → Bool) : Device :=
  d.events.foldl (fun d e => if due e then flushEvent d pipe e else d) d

/-- Make an event for a request of a pipe. -/
def acceptEvent (d : Device) (pipe : ℕ) (sequence : BitVec 64) : Device × Event :=
  let e : Event := ⟨d.accepted.length, pipe, sequence⟩
  ({ d with accepted := d.accepted ++ [e] }, e)

/-- `drm_queue_vblank_event`; `alloc` tells whether `kzalloc` succeeds, and `reserve` is what
`drm_event_reserve_init_locked` returns. -/
def queueVblankEvent (d : Device) (pipe : ℕ) (reqSeq : BitVec 64) (alloc : Bool) (reserve : ℤ) :
    Device × ℤ :=
  if !alloc then (vblankPut d pipe, -enomem)
  else if !(d.vblank pipe).enabled then (vblankPut d pipe, -einval)
  else if reserve ≠ 0 then (vblankPut d pipe, reserve)
  else
    let seq := (d.vblank pipe).count
    let r := acceptEvent d pipe reqSeq
    if vblankPassed seq reqSeq then (sendVblankEvent (vblankPut r.1 pipe) r.2, 0)
    else ({ r.1 with events := r.1.events ++ [r.2] }, 0)

/-- `drm_crtc_arm_vblank_event`. -/
def crtcArmVblankEvent (d : Device) (pipe : ℕ) : Device :=
  let d := updateVblankCount d pipe
  let r := acceptEvent d pipe ((d.vblank pipe).count + 1#64)
  { r.1 with events := r.1.events ++ [r.2] }

/-- `drm_handle_vblank_events`. -/
def handleVblankEvents (d : Device) (pipe : ℕ) : Device :=
  let seq := (d.vblank pipe).count
  flushEvents d pipe fun e => e.pipe = pipe && vblankPassed seq e.sequence

/-- `drm_handle_vblank`. -/
def handleVblank (d : Device) (pipe : ℕ) : Device × Bool :=
  if !(d.vblank pipe).enabled then (d, false)
  else
    let d := updateVblankCount d pipe
    let disableIrq := d.disableImmediate && decide (0 < d.offdelay) &&
      decide ((d.vblank pipe).refcount = 0)
    let d := handleVblankEvents d pipe
    (if disableIrq then vblankDisableFn d pipe else d, true)

/-! ## Modesets -/

/-- The lockout: prevent `drm_vblank_get` from enabling the interrupt. -/
def lockOut (d : Device) (pipe : ℕ) : Device :=
  if (d.vblank pipe).inmodeset then d
  else d.modify pipe fun v => { v.inc with inmodeset := true }

/-- `drm_crtc_vblank_off`. -/
def crtcVblankOff (d : Device) (pipe : ℕ) : Device :=
  let d := if d.atomic || !(d.vblank pipe).inmodeset then vblankDisableAndSave d pipe else d
  let d := lockOut d pipe
  flushEvents d pipe fun e => e.pipe = pipe

/-- `drm_crtc_vblank_reset`. -/
def crtcVblankReset (d : Device) (pipe : ℕ) : Device := lockOut d pipe

/-- `drm_crtc_vblank_on`. -/
def crtcVblankOn (d : Device) (pipe : ℕ) (hw : ℤ) : Device :=
  let d := if (d.vblank pipe).inmodeset then
      d.modify pipe fun v => { v.dec with inmodeset := false }
    else d
  let d := resetVblankTimestamp d pipe
  if (d.vblank pipe).refcount ≠ 0 ∨ d.offdelay = 0 then (vblankEnable d pipe hw).1 else d

/-! ## The calls -/

/-- The calls and interrupts. -/
inductive Act where
  | get (pipe : ℕ) (hw : ℤ)
  | put (pipe : ℕ)
  | queueEvent (pipe : ℕ) (reqSeq : BitVec 64) (alloc : Bool) (reserve : ℤ)
  | armEvent (pipe : ℕ)
  | off (pipe : ℕ)
  | reset (pipe : ℕ)
  | on (pipe : ℕ) (hw : ℤ)
  | irq (pipe : ℕ)
  | timer (pipe : ℕ)
  deriving DecidableEq, Repr

/-- A caller gives its reference away, which it must have. -/
def handOver (d : Device) (pipe : ℕ) : Option Device :=
  if d.held pipe = 0 then none
  else some { d with held := Function.update d.held pipe (d.held pipe - 1) }

/-- One call. -/
def step : Act → Device → Option Device
  | .get pipe hw, d =>
    let r := vblankGet d pipe hw
    some (if r.2 = 0 then { r.1 with held := Function.update r.1.held pipe (r.1.held pipe + 1) }
      else r.1)
  | .put pipe, d => (handOver d pipe).map fun d => vblankPut d pipe
  | .queueEvent pipe reqSeq alloc reserve, d =>
    (handOver d pipe).map fun d => (queueVblankEvent d pipe reqSeq alloc reserve).1
  | .armEvent pipe, d => (handOver d pipe).map fun d => crtcArmVblankEvent d pipe
  | .off pipe, d => some (crtcVblankOff d pipe)
  | .reset pipe, d => some (crtcVblankReset d pipe)
  | .on pipe hw, d => some (crtcVblankOn d pipe hw)
  | .irq pipe, d => some (handleVblank d pipe).1
  | .timer pipe, d =>
    if (d.vblank pipe).timer then
      some (vblankDisableFn (d.modify pipe fun v => { v with timer := false }) pipe)
    else none

end KmsDrm.Vblank
