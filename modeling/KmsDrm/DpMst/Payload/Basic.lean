import Mathlib

/-!
# Virtual channels and payloads

The topology manager of `drm_dp_mst_topology.c` gives the ports numbers of virtual channels and
slots in the table of payloads. A bit mask says which slots are taken and another one which numbers
are, and `proposed_vcpis` has a pointer to the `vcpi` of the port that is proposed for a slot. When
the manager is switched off, its ports leave the topology, and a worker destroys them later.

## Main definitions

* `DpMst.Mgr` — the masks, the table of payloads and the ports.
* `DpMst.call` — a call of the manager.

## Implementation notes

A pointer to the `vcpi` of a port is the port itself. A reference to a port that is dropped by the
function that took it is left out; the calls that fail without dropping theirs keep it. The bits of
a mask are numbered by `ℕ`: the initialisation refuses more payloads than a mask has bits. An output
port has a connector, since a port whose connector cannot be made does not stay in the topology.
-/

namespace KmsDrm.DpMst

open Function (update)

/-- `EINVAL`. -/
def einval : ℤ := 22

/-- `ENOMEM`. -/
def enomem : ℤ := 12

/-- `ENOSPC`. -/
def enospc : ℤ := 28

/-- `struct drm_dp_vcpi`; the number 0 is no number. -/
structure Vcpi where
  vcpi : ℕ := 0
  pbn : ℤ := 0
  alignedPbn : ℤ := 0
  numSlots : ℤ := 0
deriving DecidableEq

/-- Where a port is: its memory is free, it is reachable from `mst_primary`, it was and waits for
its last reference to be dropped, or it is in `destroy_connector_list`. -/
inductive Place
  | free
  | topology
  | detached
  | destroyList
deriving DecidableEq

/-- The values of `payload_state`. -/
inductive PayloadState
  | zero
  | payloadLocal
  | payloadRemote
  | payloadDeleteLocal
deriving DecidableEq

/-- `struct drm_dp_payload`. -/
structure Payload where
  payloadState : PayloadState := .zero
  startSlot : ℤ := 0
  numSlots : ℤ := 0
  vcpi : ℕ := 0
deriving DecidableEq

/-- A port: `parent` is the port whose branch device it belongs to, `none` for the primary one. -/
structure Port (P : Type) where
  vcpi : Vcpi := {}
  input : Bool := false
  parent : Option P := none
  kref : ℕ := 0
  place : Place := .free

/-- The part of `struct drm_dp_mst_topology_mgr` that is about payloads, and the ports. -/
structure Mgr (P : Type) where
  maxPayloads : ℕ
  mstState : Bool := false
  mstPrimary : Bool := false
  pbnDiv : ℤ := 0
  payloadMask : ℕ → Bool := fun bit => decide (bit = 0)
  vcpiMask : ℕ → Bool := fun _ => false
  proposedVcpis : ℕ → Option P := fun _ => none
  payloads : ℕ → Payload := fun _ => {}
  ports : P → Port P := fun _ => {}

/-- The first bit below `size` that is not set, or `size`. -/
def findFirstZeroBit (mask : ℕ → Bool) (size : ℕ) : ℕ :=
  ((List.range size).find? fun bit => !mask bit).getD size

/-- The last reference of a port is dropped. -/
def Port.destroy {P : Type} (port : Port P) : Port P :=
  if port.input then { port with place := .free }
  else { port with vcpi := { port.vcpi with numSlots := 0 }, place := .destroyList }

/-- A reference to a port that is out of the topology is dropped. -/
def Port.put {P : Type} (port : Port P) : Port P :=
  let port := { port with kref := port.kref - 1, place := .detached }
  if port.kref = 0 then port.destroy else port

/-- A payload is compared with what is requested for its slot, and `write` says whether the table of
the device can be written. -/
def Payload.push (payload : Payload) (startSlot numSlots : ℤ) (vcpi : ℕ) (write : Bool) : Payload :=
  if payload.numSlots ≠ numSlots then
    if numSlots ≠ 0 then
      { payloadState := if write then .payloadLocal else .zero
        startSlot := startSlot
        numSlots := numSlots
        vcpi := vcpi }
    else { payload with payloadState := .payloadDeleteLocal, startSlot := 0, numSlots := 0 }
  else { payload with startSlot := startSlot }

namespace Mgr

variable {P : Type} [DecidableEq P]

/-! ## Numbers and slots -/

/-- `drm_dp_get_validated_port_ref` finds the port. -/
def valid (s : Mgr P) (p : P) : Bool := s.mstPrimary && decide ((s.ports p).place = .topology)

/-- The `vcpi` of a port is written. -/
def setVcpi (s : Mgr P) (p : P) (vcpi : Vcpi) : Mgr P :=
  { s with ports := update s.ports p { s.ports p with vcpi := vcpi } }

/-- A reference to a port is not dropped. -/
def leak (s : Mgr P) (p : P) : Mgr P :=
  { s with ports := update s.ports p { s.ports p with kref := (s.ports p).kref + 1 } }

/-- The port gets a slot and a number. -/
def assign (s : Mgr P) (p : P) (ret vcpiRet : ℕ) : Mgr P :=
  { s.setVcpi p { (s.ports p).vcpi with vcpi := vcpiRet + 1 } with
    payloadMask := update s.payloadMask ret true
    vcpiMask := update s.vcpiMask vcpiRet true
    proposedVcpis := update s.proposedVcpis (ret - 1) (some p) }

/-- `drm_dp_mst_assign_payload_id`. -/
def assignPayloadId (s : Mgr P) (p : P) : Mgr P × ℤ :=
  let ret := findFirstZeroBit s.payloadMask (s.maxPayloads + 1)
  if s.maxPayloads < ret then (s, -einval)
  else
    let vcpiRet := findFirstZeroBit s.vcpiMask (s.maxPayloads + 1)
    if s.maxPayloads < vcpiRet then (s, -einval) else (s.assign p ret vcpiRet, ret)

/-- The entry of slot `i` points to a `vcpi` with the number. -/
def holdsVcpi (s : Mgr P) (vcpi i : ℕ) : Bool :=
  match s.proposedVcpis i with
  | some p => decide ((s.ports p).vcpi.vcpi = vcpi)
  | none => false

/-- `drm_dp_mst_put_payload_id`; the turns of its loop do not depend on each other. -/
def putPayloadId (s : Mgr P) (vcpi : ℕ) : Mgr P :=
  if vcpi = 0 then s
  else
    { s with
      vcpiMask := update s.vcpiMask (vcpi - 1) false
      proposedVcpis := fun i =>
        if i < s.maxPayloads ∧ s.holdsVcpi vcpi i then none else s.proposedVcpis i
      payloadMask := fun bit =>
        if 0 < bit ∧ bit - 1 < s.maxPayloads ∧ s.holdsVcpi vcpi (bit - 1) then false
        else s.payloadMask bit }

/-- `drm_dp_init_vcpi`. -/
def initVcpi (s : Mgr P) (p : P) (pbn slots : ℤ) : Mgr P × ℤ :=
  if 63 < slots then (s, -enospc)
  else
    let vcpi := { (s.ports p).vcpi with
      pbn := pbn, alignedPbn := slots * s.pbnDiv, numSlots := slots }
    let (s', ret) := (s.setVcpi p vcpi).assignPayloadId p
    (s', if ret < 0 then ret else 0)

/-- `drm_dp_mst_allocate_vcpi`. -/
def allocateVcpi (s : Mgr P) (p : P) (pbn slots : ℤ) : Mgr P × Bool :=
  if s.valid p then
    if slots < 0 then (s.leak p, false)
    else if 0 < (s.ports p).vcpi.vcpi ∧ pbn = (s.ports p).vcpi.pbn then (s, true)
    else
      let (s', ret) := s.initVcpi p pbn slots
      if ret ≠ 0 then (s'.leak p, false) else (s', true)
  else (s, false)

/-- `drm_dp_mst_reset_vcpi_slots`. -/
def resetVcpiSlots (s : Mgr P) (p : P) : Mgr P :=
  if s.valid p then s.setVcpi p { (s.ports p).vcpi with numSlots := 0 } else s

/-- `drm_dp_mst_deallocate_vcpi`. -/
def deallocateVcpi (s : Mgr P) (p : P) : Mgr P :=
  if s.valid p then (s.putPayloadId (s.ports p).vcpi.vcpi).setVcpi p {} else s

/-! ## The table of payloads -/

/-- A payload is written. -/
def setPayload (s : Mgr P) (i : ℕ) (payload : Payload) : Mgr P :=
  { s with payloads := update s.payloads i payload }

/-- The number of slots that is requested for slot `i` of the table. -/
def reqSlots (s : Mgr P) (i : ℕ) : ℤ :=
  match s.proposedVcpis i with
  | some p => (s.ports p).vcpi.numSlots
  | none => 0

/-- The number that is requested for slot `i` of the table. -/
def reqVcpi (s : Mgr P) (i : ℕ) : ℕ :=
  match s.proposedVcpis i with
  | some p => (s.ports p).vcpi.vcpi
  | none => 0

/-- The first loop of `drm_dp_update_payload_part1`, from slot `i` on. It is left at a port that is
not in the topology. -/
def solvePayloads (write : ℕ → Bool) : ℕ → ℕ → ℤ → Mgr P → Mgr P × ℤ
  | 0, _, _, s => (s, 0)
  | turns + 1, i, curSlots, s =>
    if (s.proposedVcpis i).all s.valid then
      solvePayloads write turns (i + 1) (curSlots + s.reqSlots i) (s.setPayload i
        ((s.payloads i).push curSlots (s.reqSlots i) (s.reqVcpi i) (write i)))
    else (s, -einval)

/-- Slot `j` takes over what slot `j + 1` has. -/
def copySlot (s : Mgr P) (j : ℕ) : Mgr P :=
  { s with
    payloads := update s.payloads j (s.payloads (j + 1))
    proposedVcpis := update s.proposedVcpis j (s.proposedVcpis (j + 1))
    payloadMask := update s.payloadMask (j + 1) (decide (s.reqSlots (j + 1) ≠ 0)) }

/-- The slots from `j` on take over what the slots after them have. -/
def shiftSlots : ℕ → ℕ → Mgr P → Mgr P
  | 0, _, s => s
  | turns + 1, j, s => shiftSlots turns (j + 1) (s.copySlot j)

def clearLast (s : Mgr P) : Mgr P :=
  { s with
    payloads := update s.payloads (s.maxPayloads - 1) {}
    proposedVcpis := update s.proposedVcpis (s.maxPayloads - 1) none
    payloadMask := update s.payloadMask s.maxPayloads false }

/-- Slot `i` is removed. -/
def removeSlot (s : Mgr P) (i : ℕ) : Mgr P := (shiftSlots (s.maxPayloads - 1 - i) i s).clearLast

/-- The second loop of `drm_dp_update_payload_part1`, from slot `i` on. The slot that follows a
removed one is not looked at, since `i` goes on. -/
def removeDeleted : ℕ → ℕ → Mgr P → Mgr P
  | 0, _, s => s
  | turns + 1, i, s =>
    removeDeleted turns (i + 1)
      (if (s.payloads i).payloadState = .payloadDeleteLocal then s.removeSlot i else s)

/-- `drm_dp_update_payload_part1`. -/
def updatePayloadPart1 (write : ℕ → Bool) (s : Mgr P) : Mgr P × ℤ :=
  let (s', ret) := solvePayloads write s.maxPayloads 0 1 s
  if ret ≠ 0 then (s', ret) else (removeDeleted s'.maxPayloads 0 s', 0)

/-- The loop of `drm_dp_update_payload_part2`, from slot `i` on; `send` is the result of the message
for a slot. -/
def finishPayloads (send : ℕ → ℤ) : ℕ → ℕ → Mgr P → Mgr P × ℤ
  | 0, _, s => (s, 0)
  | turns + 1, i, s =>
    if (s.proposedVcpis i).isNone then finishPayloads send turns (i + 1) s
    else
      match (s.payloads i).payloadState with
      | .payloadLocal =>
        let s' := if send i < 0 then s
          else s.setPayload i { s.payloads i with payloadState := .payloadRemote }
        if send i ≠ 0 then (s', send i) else finishPayloads send turns (i + 1) s'
      | .payloadDeleteLocal =>
        finishPayloads send turns (i + 1)
          (s.setPayload i { s.payloads i with payloadState := .zero })
      | _ => finishPayloads send turns (i + 1) s

/-- `drm_dp_update_payload_part2`. -/
def updatePayloadPart2 (send : ℕ → ℤ) (s : Mgr P) : Mgr P × ℤ :=
  finishPayloads send s.maxPayloads 0 s

/-! ## Ports that come and go -/

/-- What the device answers when MST is switched on: the result of reading its capabilities, the
bandwidth they give, if they are sound, whether there is memory for the branch device, and the
result of writing the control register. -/
structure Answer where
  read : ℤ
  payloadBw : Option ℤ
  alloc : Bool
  write : ℤ

/-- `DP_RECEIVER_CAP_SIZE`. -/
def receiverCapSize : ℤ := 0xf

def switchOn (s : Mgr P) (answer : Answer) : Mgr P × ℤ :=
  if answer.read ≠ receiverCapSize then ({ s with mstState := true }, answer.read)
  else
    match answer.payloadBw with
    | none => ({ s with mstState := true }, -einval)
    | some pbnDiv =>
      if answer.alloc then
        ({ s with mstState := true, pbnDiv := pbnDiv, mstPrimary := true },
          if answer.write < 0 then answer.write else 0)
      else ({ s with mstState := true, pbnDiv := pbnDiv }, -enomem)

/-- MST is switched off. The ports of the primary branch device are dropped at once, and the others
by the worker. -/
def switchOff (s : Mgr P) : Mgr P :=
  { s with
    mstState := false
    mstPrimary := false
    payloads := fun i => if i < s.maxPayloads then {} else s.payloads i
    payloadMask := fun bit => decide (bit = 0)
    vcpiMask := fun _ => false
    ports := fun p =>
      if (s.ports p).place = .topology then
        if (s.ports p).parent.isNone then (s.ports p).put
        else { s.ports p with place := .detached }
      else s.ports p }

/-- `drm_dp_mst_topology_mgr_set_mst`. -/
def setMst (s : Mgr P) (mstState : Bool) (answer : Answer) : Mgr P × ℤ :=
  if mstState = s.mstState then (s, 0)
  else if mstState then s.switchOn answer
  else (s.switchOff, 0)

/-- `drm_dp_add_port` finds a new port, at the primary branch device or behind another port. -/
def addPort (s : Mgr P) (p : P) (parent : Option P) (input : Bool) : Option (Mgr P) :=
  if s.mstPrimary ∧ (s.ports p).place = .free ∧
      ∀ q ∈ parent, (s.ports q).place = .topology ∧ (s.ports q).input = false then
    some { s with
      ports := update s.ports p
        { input := input, parent := parent, kref := 1, place := .topology } }
  else none

/-- The ports behind a port are dropped. -/
def dropBehind (s : Mgr P) (p : P) : Mgr P :=
  { s with
    ports := fun q =>
      if (s.ports q).place = .detached ∧ (s.ports q).parent = some p then (s.ports q).put
      else s.ports q }

/-- The number of a port that is destroyed is given back. -/
def giveBack (s : Mgr P) (p : P) (write : ℕ → Bool) : Mgr P :=
  if (s.ports p).input = false ∧ 0 < (s.ports p).vcpi.vcpi then
    let s := ((s.resetVcpiSlots p).updatePayloadPart1 write).1
    s.putPayloadId (s.ports p).vcpi.vcpi
  else s

/-- The memory of a port is freed. -/
def freePort (s : Mgr P) (p : P) : Mgr P :=
  { s with ports := update s.ports p { s.ports p with place := .free } }

/-- A turn of `drm_dp_destroy_connector_work`. -/
def destroyConnectorWork (s : Mgr P) (p : P) (write : ℕ → Bool) : Option (Mgr P) :=
  if (s.ports p).place = .destroyList then
    some (((s.dropBehind p).giveBack p write).freePort p)
  else none

end Mgr

/-- What is done with the manager. -/
inductive Call (P : Type)
  | allocateVcpi (p : P) (pbn slots : ℤ)
  | resetVcpiSlots (p : P)
  | deallocateVcpi (p : P)
  | updatePayloadPart1 (write : ℕ → Bool)
  | updatePayloadPart2 (send : ℕ → ℤ)
  | setMst (mstState : Bool) (answer : Mgr.Answer)
  | addPort (p : P) (parent : Option P) (input : Bool)
  | destroyConnectorWork (p : P) (write : ℕ → Bool)

/-- A step of the manager. -/
def call {P : Type} [DecidableEq P] : Call P → Mgr P → Option (Mgr P)
  | .allocateVcpi p pbn slots, s => some (s.allocateVcpi p pbn slots).1
  | .resetVcpiSlots p, s => some (s.resetVcpiSlots p)
  | .deallocateVcpi p, s => some (s.deallocateVcpi p)
  | .updatePayloadPart1 write, s => some (s.updatePayloadPart1 write).1
  | .updatePayloadPart2 send, s => some (s.updatePayloadPart2 send).1
  | .setMst mstState answer, s => some (s.setMst mstState answer).1
  | .addPort p parent input, s => s.addPort p parent input
  | .destroyConnectorWork p write, s => s.destroyConnectorWork p write

end KmsDrm.DpMst
