import KmsDrm.DpMst.Sideband.Header

/-!
# The receiver of sideband messages

A chunk of a message is read from the sink in blocks of at most 16 bytes. The first block holds the
header; the data of the chunk is collected in `chunk`, and when the chunk is complete, its data is
added to `msg`.

## Main definitions

* `DpMst.Receiver.build`, `DpMst.getOneSbMsg` — a block and a chunk are received.

## Main results

* `DpMst.getOneSbMsg_spec` — what the reception of a chunk adds to the message.

## Implementation notes

The arrays `chunk` and `msg` are unbounded here, and every `memcpy` into one of them and every
change of `curlen` is recorded, with the sizes in the code. What is written after a write out of
bounds says nothing about the code. A sink presents a byte at each offset, or fails. The data CRC
is computed by the code and not compared; it is left out, as are the debug outputs.
-/

namespace KmsDrm.DpMst

/-- The arrays of the receiver. -/
inductive Dest where
  | chunk
  | msg
  deriving DecidableEq, Repr

/-- The size of an array. -/
def Dest.size : Dest → ℕ
  | .chunk => 48
  | .msg => 256

/-- What is recorded: a `memcpy` of `len` bytes to an index of an array, with what is there to
copy; and an addition to `curlen`. -/
inductive Access where
  | copy (dest : Dest) (start : ℕ) (len : ℤ) (avail : ℤ)
  | advance (curlen : ℕ) (n : ℤ)
  deriving DecidableEq, Repr

/-- The copy stays in the array and has a length that is there to copy; the addition does not
wrap. -/
def Access.Safe : Access → Prop
  | .copy dest start len avail => 0 ≤ len ∧ start + len ≤ dest.size ∧ len ≤ avail
  | .advance curlen n => 0 ≤ curlen + n ∧ curlen + n < 256

instance (a : Access) : Decidable a.Safe := by
  cases a <;> dsimp only [Access.Safe] <;> infer_instance

/-- `struct drm_dp_sideband_msg_rx` -/
structure Rx where
  chunk : ℕ → Byte := fun _ => 0
  msg : ℕ → Byte := fun _ => 0
  curchunkLen : ℕ := 0
  curchunkIdx : ℕ := 0
  curchunkHdrlen : ℕ := 0
  curlen : ℕ := 0
  haveSomt : Bool := false
  haveEomt : Bool := false
  initialHdr : Hdr := {}

structure Receiver extends Rx where
  log : List Access := []

/-- `memcpy` -/
def memcpy (dst : ℕ → Byte) (start : ℕ) (src : ℕ → Byte) (len : ℤ) : ℕ → Byte :=
  fun i => if start ≤ i ∧ i < start + len.toNat then src (i - start) else dst i

namespace Receiver

variable (r : Receiver)

/-- The header of a chunk is taken. -/
def takeHdr (hdr : Hdr) (hdrlen : ℕ) : Receiver :=
  { r with
    curchunkLen := hdr.msgLen
    curchunkHdrlen := hdrlen
    initialHdr := if hdr.somt then hdr else r.initialHdr
    haveSomt := r.haveSomt || hdr.somt
    haveEomt := r.haveEomt || hdr.eomt }

/-- The bytes for the rest of the block with the header are copied. -/
def copyHead (replybuf : ℕ → Byte) (replybuflen hdrlen : ℕ) : Receiver :=
  let idx := min r.curchunkLen (replybuflen - hdrlen)
  { r with
    curchunkIdx := idx
    chunk := memcpy r.chunk 0 (fun i => replybuf (hdrlen + i)) idx
    log := .copy .chunk 0 idx ((replybuflen : ℤ) - hdrlen) :: r.log }

/-- The bytes of a further block are copied. -/
def copyBlock (replybuf : ℕ → Byte) (replybuflen : ℕ) : Receiver :=
  { r with
    curchunkIdx := (r.curchunkIdx + replybuflen) % 256
    chunk := memcpy r.chunk r.curchunkIdx replybuf replybuflen
    log := .copy .chunk r.curchunkIdx replybuflen replybuflen :: r.log }

/-- The data of a chunk is added to the message. -/
def copyChunk : Receiver :=
  let n : ℤ := r.curchunkLen - 1
  { r with
    msg := memcpy r.msg r.curlen r.chunk n
    curlen := ((r.curlen + n) % 256).toNat
    log := .advance r.curlen n :: .copy .msg r.curlen n Dest.chunk.size :: r.log }

/-- The end of `drm_dp_sideband_msg_build`. -/
def finish : Receiver := if r.curchunkLen ≤ r.curchunkIdx then r.copyChunk else r

end Receiver

/-- `drm_dp_sideband_msg_build` -/
def build (r : Receiver) (replybuf : ℕ → Byte) (replybuflen : ℕ) (hdr : Bool) : Receiver × Bool :=
  if hdr then
    match decodeHdr replybuf replybuflen with
    | none => (r, false)
    | some (recvHdr, hdrlen) =>
      -- out-of-order messages, or messages that are part of a failed transaction
      if recvHdr.somt = false ∧ r.haveSomt = false then (r, false)
      -- a first chunk was already received
      else if recvHdr.somt = true ∧ r.haveSomt = true then
        ({ r with curchunkLen := recvHdr.msgLen, curchunkHdrlen := hdrlen }, false)
      else (((r.takeHdr recvHdr hdrlen).copyHead replybuf replybuflen hdrlen).finish, true)
  else ((r.copyBlock replybuf replybuflen).finish, true)

/-- `drm_dp_dpcd_read`: the bytes that the sink presents, if all of them can be read. -/
def dpcdRead (sink : ℕ → Option Byte) (offset len : ℕ) : Option (ℕ → Byte) :=
  if ∀ i, i < len → (sink (offset + i)).isSome then some fun i => (sink (offset + i)).getD 0
  else none

/-- The loop of `drm_dp_get_one_sb_msg`; the first argument bounds the turns. -/
def readRest (maxBytes : ℕ) (sink : ℕ → Option Byte) : ℕ → ℕ → ℕ → Receiver → Receiver × Bool
  | 0, _, _, r => (r, true)
  | turns + 1, curreply, replylen, r =>
    if replylen = 0 then (r, true)
    else
      let len := min replylen (min maxBytes 16)
      match dpcdRead sink curreply len with
      | none => (r, false)
      | some block =>
        let (r', ok) := build r block len false
        if ok then readRest maxBytes sink turns (curreply + len) (replylen - len) r'
        else (r', false)

/-- `drm_dp_get_one_sb_msg` -/
def getOneSbMsg (maxBytes : ℕ) (sink : ℕ → Option Byte) (r : Receiver) : Receiver × Bool :=
  let len := min maxBytes 16
  match dpcdRead sink 0 len with
  | none => (r, false)
  | some block =>
    let (r', ok) := build r block len true
    if ok then
      let replylen := r'.curchunkLen + r'.curchunkHdrlen - len
      readRest maxBytes sink replylen len replylen r'
    else (r', false)

/-- The receiver after `drm_dp_mst_handle_down_rep` or `drm_dp_mst_handle_up_req`: it is cleared
after a failure and after the last chunk of a message. -/
def handle (maxBytes : ℕ) (sink : ℕ → Option Byte) (r : Receiver) : Receiver :=
  let (r', ok) := getOneSbMsg maxBytes sink r
  if ok = false ∨ r'.haveEomt = true then { toRx := {}, log := r'.log } else r'

/-! ## Reading a chunk from a sink that does not fail -/

/-- A sink that does not fail. -/
def present (mem : ℕ → Byte) : ℕ → Option Byte := fun i => some (mem i)

lemma dpcdRead_present (mem : ℕ → Byte) (offset len : ℕ) :
    dpcdRead (present mem) offset len = some fun i => mem (offset + i) := by
  unfold dpcdRead present
  simp only [Option.isSome_some, implies_true, if_true, Option.getD_some]

/-- What a chunk adds to the message, and nothing else changes. -/
structure Added (r r' : Receiver) (data : ℕ → Byte) (n : ℕ) : Prop where
  msg : r'.msg = memcpy r.msg r.curlen data n
  curlen : r'.curlen = (r.curlen + n) % 256
  haveSomt : r'.haveSomt = r.haveSomt
  haveEomt : r'.haveEomt = r.haveEomt

lemma memcpy_congr (dst : ℕ → Byte) (start : ℕ) {src src' : ℕ → Byte} {n : ℕ}
    (h : ∀ i, i < n → src i = src' i) : memcpy dst start src n = memcpy dst start src' n := by
  funext i
  unfold memcpy
  split_ifs with hi
  · exact h _ (by omega)
  · rfl

lemma copyChunk_added {r : Receiver} (hpos : 0 < r.curchunkLen) {data : ℕ → Byte}
    (hdata : ∀ i, i < r.curchunkLen - 1 → r.chunk i = data i) :
    Added r r.copyChunk data (r.curchunkLen - 1) := by
  have hn : (r.curchunkLen : ℤ) - 1 = ((r.curchunkLen - 1 : ℕ) : ℤ) := by omega
  refine ⟨?_, ?_, rfl, rfl⟩
  · simp only [Receiver.copyChunk, hn]
    exact memcpy_congr _ _ hdata
  · simp only [Receiver.copyChunk]
    omega

lemma copyBlock_chunk (r : Receiver) {mem : ℕ → Byte} {curreply len : ℕ} {data : ℕ → Byte}
    (hdone : ∀ i, i < r.curchunkIdx → r.chunk i = data i)
    (hrest : ∀ i, r.curchunkIdx ≤ i → mem (curreply + (i - r.curchunkIdx)) = data i) (i : ℕ)
    (hi : i < r.curchunkIdx + len) :
    (r.copyBlock (fun i => mem (curreply + i)) len).chunk i = data i := by
  unfold Receiver.copyBlock memcpy
  dsimp only
  split_ifs with hin
  · exact hrest i hin.1
  · exact hdone i (by omega)

/-- **A further block.** It completes the chunk, or more is read. -/
theorem readRest_succ {maxBytes len curreply : ℕ} {sink : ℕ → Option Byte} {r r1 : Receiver}
    {block : ℕ → Byte} (hmin : min (r.curchunkLen - r.curchunkIdx) (min maxBytes 16) = len)
    (hlen : r.curchunkLen < 256) (hidx : r.curchunkIdx < r.curchunkLen)
    (hread : dpcdRead sink curreply len = some block) (hr1 : r.copyBlock block len = r1)
    (turns : ℕ) : r1.curchunkLen = r.curchunkLen ∧ r1.curchunkIdx = r.curchunkIdx + len ∧
      readRest maxBytes sink (turns + 1) curreply (r.curchunkLen - r.curchunkIdx) r =
        if r1.curchunkLen ≤ r1.curchunkIdx then (r1.copyChunk, true)
        else
          readRest maxBytes sink turns (curreply + len) (r1.curchunkLen - r1.curchunkIdx) r1 := by
  have hlen1 : r1.curchunkLen = r.curchunkLen := hr1 ▸ rfl
  have hidx1 : r1.curchunkIdx = r.curchunkIdx + len := by
    rw [← hr1]
    exact Nat.mod_eq_of_lt (by omega)
  refine ⟨hlen1, hidx1, ?_⟩
  rw [readRest, if_neg (by omega)]
  simp only [hmin, hread, build, Bool.false_eq_true, if_false, if_true, hr1, Receiver.finish]
  split_ifs
  · rw [show r.curchunkLen - r.curchunkIdx - len = 0 by omega]
    cases turns <;> rfl
  · rw [show r.curchunkLen - r.curchunkIdx - len = r1.curchunkLen - r1.curchunkIdx by omega]

lemma readRest_added {maxBytes : ℕ} (hmax : 0 < maxBytes) (mem : ℕ → Byte) (turns curreply : ℕ)
    (r : Receiver) (hlen : r.curchunkLen < 256) (hidx : r.curchunkIdx < r.curchunkLen)
    (hturns : r.curchunkLen - r.curchunkIdx ≤ turns) {data : ℕ → Byte}
    (hdone : ∀ i, i < r.curchunkIdx → r.chunk i = data i)
    (hrest : ∀ i, r.curchunkIdx ≤ i → mem (curreply + (i - r.curchunkIdx)) = data i) :
    ∃ r', readRest maxBytes (present mem) turns curreply (r.curchunkLen - r.curchunkIdx) r =
      (r', true) ∧ Added r r' data (r.curchunkLen - 1) := by
  -- induction on the turns; what is collected in `chunk` is the data up to `curchunkIdx`
  induction turns generalizing curreply r with
  | zero => omega
  | succ turns ih =>
    obtain ⟨len, hblock⟩ : ∃ len, min (r.curchunkLen - r.curchunkIdx) (min maxBytes 16) = len :=
      ⟨_, rfl⟩
    obtain ⟨r1, hr1⟩ : ∃ r1, r.copyBlock (fun i => mem (curreply + i)) len = r1 := ⟨_, rfl⟩
    obtain ⟨hlen1, hidx1, hturn⟩ := readRest_succ hblock hlen hidx (dpcdRead_present ..) hr1 turns
    have hdone1 : ∀ i, i < r1.curchunkIdx → r1.chunk i = data i := by
      intro i hi
      rw [hidx1] at hi
      rw [← hr1]
      exact copyBlock_chunk r hdone hrest i hi
    have hsame : ∀ {r' n}, Added r1 r' data n → Added r r' data n := by
      intro r' n hadd
      rw [← hr1] at hadd
      exact { hadd with }
    rw [hturn]
    split_ifs with hfin
    · -- the last block
      have hadd := copyChunk_added (r := r1) (by omega) fun i hi => hdone1 i (by omega)
      rw [hlen1] at hadd
      exact ⟨_, rfl, hsame hadd⟩
    · obtain ⟨r', hr', hadd⟩ := ih (curreply + len) r1 (by omega) (by omega) (by omega) hdone1 (by
        intro i hi
        rw [← hrest i (by omega)]
        congr 1
        omega)
      rw [hlen1] at hadd
      exact ⟨r', hr', hsame hadd⟩

lemma build_hdr {r : Receiver} {block : ℕ → Byte} {len : ℕ} {hdr : Hdr} {hdrlen : ℕ}
    (hdecode : decodeHdr block len = some (hdr, hdrlen)) (hsomt : hdr.somt ≠ r.haveSomt) :
    build r block len true = (((r.takeHdr hdr hdrlen).copyHead block len hdrlen).finish, true) := by
  unfold build
  simp only [if_true, hdecode]
  rw [if_neg, if_neg]
  · rintro ⟨h1, h2⟩
    exact hsomt (h1.trans h2.symm)
  · rintro ⟨h1, h2⟩
    exact hsomt (h1.trans h2.symm)

/-- **The first block.** If its header is accepted, it holds the whole chunk or the rest is read. -/
theorem getOneSbMsg_hdr {maxBytes len : ℕ} {sink : ℕ → Option Byte} {r r1 : Receiver}
    {block : ℕ → Byte} {hdr : Hdr} {hdrlen : ℕ} (hmin : min maxBytes 16 = len)
    (hread : dpcdRead sink 0 len = some block)
    (hdecode : decodeHdr block len = some (hdr, hdrlen)) (hsomt : hdr.somt ≠ r.haveSomt)
    (hhdr : hdrlen ≤ len) (hr1 : (r.takeHdr hdr hdrlen).copyHead block len hdrlen = r1) :
    r1.curchunkLen = hdr.msgLen ∧ r1.curchunkIdx = min hdr.msgLen (len - hdrlen) ∧
      getOneSbMsg maxBytes sink r =
        if r1.curchunkLen ≤ r1.curchunkIdx then (r1.copyChunk, true)
        else readRest maxBytes sink (r1.curchunkLen - r1.curchunkIdx) len
          (r1.curchunkLen - r1.curchunkIdx) r1 := by
  have hlen1 : r1.curchunkLen = hdr.msgLen := hr1 ▸ rfl
  have hidx1 : r1.curchunkIdx = min hdr.msgLen (len - hdrlen) := hr1 ▸ rfl
  have hhdrlen1 : r1.curchunkHdrlen = hdrlen := hr1 ▸ rfl
  refine ⟨hlen1, hidx1, ?_⟩
  unfold getOneSbMsg
  simp only [hmin, hread, build_hdr hdecode hsomt, hr1, if_true, Receiver.finish]
  split_ifs
  · have hrest : r1.copyChunk.curchunkLen + r1.copyChunk.curchunkHdrlen - len = 0 := by
      change r1.curchunkLen + r1.curchunkHdrlen - len = 0
      omega
    rw [hrest]
    rfl
  · rw [show r1.curchunkLen + r1.curchunkHdrlen - len = r1.curchunkLen - r1.curchunkIdx by omega]

/-- **Reading a chunk.** The data of a chunk whose header is accepted is added to the message.

**Proof sketch.** The first block holds the header and the first bytes of the data. If these are
all, the chunk is complete; else the loop reads the rest. -/
lemma getOneSbMsg_spec {maxBytes : ℕ} (mem : ℕ → Byte) (r : Receiver) {hdr : Hdr} {hdrlen : ℕ}
    (hdecode : decodeHdr mem (min maxBytes 16) = some (hdr, hdrlen))
    (hhdr : hdrlen ≤ min maxBytes 16) (hpos : 0 < hdrlen) (hsomt : hdr.somt ≠ r.haveSomt)
    (hlen : 0 < hdr.msgLen) (hmax : hdr.msgLen < 256) :
    ∃ r', getOneSbMsg maxBytes (present mem) r = (r', true) ∧
      r'.msg = memcpy r.msg r.curlen (fun i => mem (hdrlen + i)) ((hdr.msgLen - 1 : ℕ) : ℤ) ∧
      r'.curlen = (r.curlen + (hdr.msgLen - 1)) % 256 ∧ r'.haveSomt = true ∧
      r'.haveEomt = (r.haveEomt || hdr.eomt) := by
  obtain ⟨len, hblock⟩ : ∃ len, min maxBytes 16 = len := ⟨_, rfl⟩
  obtain ⟨r1, hr1⟩ : ∃ r1, (r.takeHdr hdr hdrlen).copyHead mem len hdrlen = r1 := ⟨_, rfl⟩
  have hread : dpcdRead (present mem) 0 len = some mem := by simp [dpcdRead_present]
  rw [hblock] at hdecode hhdr
  obtain ⟨hlen1, hidx1, hget⟩ := getOneSbMsg_hdr hblock hread hdecode hsomt hhdr hr1
  have hdone1 : ∀ i, i < r1.curchunkIdx → r1.chunk i = mem (hdrlen + i) := by
    intro i hi
    rw [hidx1] at hi
    rw [← hr1]
    refine if_pos ⟨Nat.zero_le _, ?_⟩
    rw [Nat.zero_add]
    exact hi
  have hadded : ∀ {r'}, Added r1 r' (fun i => mem (hdrlen + i)) (r1.curchunkLen - 1) →
      r'.msg = memcpy r.msg r.curlen (fun i => mem (hdrlen + i)) ((hdr.msgLen - 1 : ℕ) : ℤ) ∧
      r'.curlen = (r.curlen + (hdr.msgLen - 1)) % 256 ∧ r'.haveSomt = true ∧
      r'.haveEomt = (r.haveEomt || hdr.eomt) := by
    intro r' hadd
    rw [← hr1] at hadd
    refine ⟨hadd.msg, hadd.curlen, hadd.haveSomt.trans ?_, hadd.haveEomt⟩
    show (r.haveSomt || hdr.somt) = true
    cases h1 : hdr.somt <;> cases h2 : r.haveSomt <;> simp_all
  rw [hget]
  split_ifs with hall
  · exact ⟨_, rfl, hadded (copyChunk_added (by omega) fun i hi => hdone1 i (by omega))⟩
  · obtain ⟨r', hr', hadd⟩ := readRest_added (show 0 < maxBytes by omega) mem
      (r1.curchunkLen - r1.curchunkIdx) len r1 (by omega) (by omega) (Nat.le_refl _) hdone1 (by
        intro i hi
        congr 1
        omega)
    exact ⟨r', hr', hadded hadd⟩

end KmsDrm.DpMst
