import KmsDrm.DpMst.Sideband.Receiver

/-!
# Sending a sideband message

A message is sent in chunks of at most 48 bytes: a header, a part of the message, and a CRC. Each
call of `process_single_tx_qlock` sends one chunk. A receiver that reads the chunks in blocks gets
the message back.

## Main definitions

* `DpMst.processSingleTx` — one chunk is sent.

## Main results

* `DpMst.sideband_roundtrip` — the receiver gets the message back.
-/

namespace KmsDrm.DpMst

/-! ## The sender -/

/-- The states of a message to send. -/
inductive TxState where
  | queued
  | startSend
  | sent
  | rx
  | timeout
  deriving DecidableEq, Repr

/-- `struct drm_dp_sideband_msg_tx` -/
structure Tx where
  msg : ℕ → Byte
  curOffset : ℕ := 0
  curLen : ℕ
  seqno : ℤ := 0
  state : TxState := .queued
  pathMsg : Bool := false

/-- `struct drm_dp_mst_branch`; of the slots it only matters which are in use. -/
structure Branch where
  lct : ℕ
  rad : ℕ → Byte
  txSlots : ℤ → Bool := fun _ => false
  lastSeqno : ℕ := 0

/-- The sequence number that `set_hdr_from_dst_qlock` assigns, if there is a free slot. -/
def assignSeqno (m : Branch) (tx : Tx) : Option (Branch × Tx) :=
  if tx.seqno = -1 then
    if m.txSlots 0 = true ∧ m.txSlots 1 = true then none
    else
      let seqno : ℤ :=
        if m.txSlots 0 = false ∧ m.txSlots 1 = false then m.lastSeqno
        else if m.txSlots 0 = false then 0 else 1
      let lastSeqno :=
        if m.txSlots 0 = false ∧ m.txSlots 1 = false then m.lastSeqno ^^^ 1 else m.lastSeqno
      some ({ m with txSlots := Function.update m.txSlots seqno true, lastSeqno := lastSeqno },
        { tx with seqno := seqno })
  else some (m, tx)

/-- The header that `set_hdr_from_dst_qlock` fills in. -/
def dstHdr (m : Branch) (tx : Tx) : Hdr where
  lct := m.lct
  lcr := m.lct - 1
  rad := fun i => if i < m.lct / 2 then m.rad i else 0
  broadcast := tx.msg 0 &&& 0x7f = 0x02 ∨ tx.msg 0 &&& 0x7f = 0x13
  pathMsg := tx.pathMsg
  seqno := tx.seqno ≠ 0

/-- What `process_single_tx_qlock` returns. -/
inductive TxRet where
  | eagain
  | failed
  | zero
  | one
  deriving DecidableEq, Repr

/-- The header of the next chunk. -/
def nextHdr (m : Branch) (tx : Tx) : Hdr :=
  let len := tx.curLen - tx.curOffset
  let space := 48 - 1 - (dstHdr m tx).size
  { dstHdr m tx with
    somt := len = tx.curLen
    eomt := len ≤ space
    msgLen := min len space + 1 }

/-- The next chunk: the header, a part of the message and the CRC. -/
def nextChunk (m : Branch) (tx : Tx) : List Byte :=
  let tosend := (nextHdr m tx).msgLen - 1
  let body := (List.range tosend).map fun i => tx.msg (tx.curOffset + i)
  encodeHdr (nextHdr m tx) ++ body ++ [dataCrc4 (bytes body) tosend]

/-- The end of `process_single_tx_qlock`, after the chunk was sent. -/
def advance (m : Branch) (tx : Tx) : Tx × TxRet :=
  let curOffset := tx.curOffset + ((nextHdr m tx).msgLen - 1)
  if curOffset = tx.curLen then ({ tx with curOffset := curOffset, state := .sent }, .one)
  else ({ tx with curOffset := curOffset }, .zero)

/-- `process_single_tx_qlock`, with what it gives to `drm_dp_send_sideband_msg`; `send` says whether
this succeeds. -/
def processSingleTx (send : List Byte → Bool) (m : Branch) (tx : Tx) :
    Branch × Tx × Option (List Byte) × TxRet :=
  let tx := if tx.state = .queued then { tx with seqno := -1, state := .startSend } else tx
  match assignSeqno m tx with
  | none => (m, tx, none, .eagain)
  | some (m, tx) =>
    let chunk := nextChunk m tx
    if send chunk then
      let (tx', ret) := advance m tx
      (m, tx', some chunk, ret)
    else (m, tx, some chunk, .failed)

/-- The chunks of repeated calls, until the message is sent. -/
def transmit (send : List Byte → Bool) : ℕ → Branch → Tx → Option (List (List Byte))
  | 0, _, _ => none
  | calls + 1, m, tx =>
    match processSingleTx send m tx with
    | (_, _, some chunk, .one) => some [chunk]
    | (m', tx', some chunk, .zero) => (transmit send calls m' tx').map (chunk :: ·)
    | _ => none

/-- The chunks are read, one after the other; none of them may be rejected. -/
def readAll (maxBytes : ℕ) : List (ℕ → Byte) → Receiver → Option Receiver
  | [], r => some r
  | mem :: mems, r =>
    match getOneSbMsg maxBytes (present mem) r with
    | (r', true) => readAll maxBytes mems r'
    | (_, false) => none

/-- The marks of the first and the last chunk in the header of a chunk. -/
def marks (chunk : List Byte) : Option (Bool × Bool) :=
  (decodeHdr (bytes chunk) chunk.length).map fun h => (h.1.somt, h.1.eomt)

/-! ## One chunk -/

/-- A message that is being sent, to a branch device with an address. -/
structure Sending (m : Branch) (tx : Tx) : Prop where
  lct_pos : 0 < m.lct
  lct_lt : m.lct < 16
  state : tx.state ≠ .queued
  seqno : tx.seqno ≠ -1
  offset : tx.curOffset < tx.curLen
  len : tx.curLen < 256

section Chunk

variable {m : Branch} {tx : Tx} (h : Sending m tx)

lemma size_nextHdr (m : Branch) (tx : Tx) : (nextHdr m tx).size = 3 + m.lct / 2 := rfl

/-- The number of bytes of the message in the next chunk. -/
def tosend (m : Branch) (tx : Tx) : ℕ := min (tx.curLen - tx.curOffset) (44 - m.lct / 2)

lemma msgLen_nextHdr (m : Branch) (tx : Tx) : (nextHdr m tx).msgLen = tosend m tx + 1 := by
  show min (tx.curLen - tx.curOffset) (48 - 1 - (3 + m.lct / 2)) + 1 = _
  unfold tosend
  rw [show 48 - 1 - (3 + m.lct / 2) = 44 - m.lct / 2 by omega]

/-- The bytes of the message in the next chunk. -/
def chunkBody (m : Branch) (tx : Tx) : List Byte :=
  (List.range (tosend m tx)).map fun i => tx.msg (tx.curOffset + i)

lemma nextChunk_eq (m : Branch) (tx : Tx) : nextChunk m tx =
    encodeHdr (nextHdr m tx) ++
      (chunkBody m tx ++ [dataCrc4 (bytes (chunkBody m tx)) (tosend m tx)]) := by
  simp only [nextChunk, msgLen_nextHdr, Nat.add_sub_cancel, List.append_assoc, chunkBody]

lemma length_nextChunk (m : Branch) (tx : Tx) :
    (nextChunk m tx).length = 3 + m.lct / 2 + (tosend m tx + 1) := by
  rw [nextChunk_eq, List.length_append, length_encodeHdr, size_nextHdr]
  simp [chunkBody]

lemma bytes_nextChunk_hdr {i : ℕ} (hi : i < (nextHdr m tx).size) :
    bytes (nextChunk m tx) i = bytes (encodeHdr (nextHdr m tx)) i := by
  rw [nextChunk_eq]
  exact bytes_append_left (by rw [length_encodeHdr]; exact hi)

lemma bytes_nextChunk_body (m : Branch) (tx : Tx) {i : ℕ} (hi : i < tosend m tx) :
    bytes (nextChunk m tx) (3 + m.lct / 2 + i) = tx.msg (tx.curOffset + i) := by
  have hlen : (encodeHdr (nextHdr m tx)).length = 3 + m.lct / 2 := by
    rw [length_encodeHdr, size_nextHdr]
  have hbody : (chunkBody m tx).length = tosend m tx := by simp [chunkBody]
  rw [nextChunk_eq, bytes_append_right (by omega), hlen, bytes_append_left (by omega)]
  unfold bytes chunkBody
  rw [List.getD_eq_getElem _ _ (by simpa using hi)]
  simp

include h

lemma valid_nextHdr : (nextHdr m tx).Valid := by
  have hlct := h.lct_lt
  refine ⟨h.lct_pos, h.lct_lt, ?_, ?_, fun i hi => if_neg (Nat.not_lt.2 hi)⟩
  · show m.lct - 1 < 16
    omega
  · rw [msgLen_nextHdr]
    unfold tosend
    omega

lemma tosend_pos : 0 < tosend m tx := by
  have hlct := h.lct_lt
  have hoffset := h.offset
  unfold tosend
  omega

lemma somt_nextHdr : (nextHdr m tx).somt = decide (tx.curOffset = 0) := by
  have hoffset := h.offset
  show decide (tx.curLen - tx.curOffset = tx.curLen) = _
  rw [decide_eq_decide]
  omega

lemma eomt_nextHdr : (nextHdr m tx).eomt = decide (tx.curOffset + tosend m tx = tx.curLen) := by
  have hoffset := h.offset
  show decide (tx.curLen - tx.curOffset ≤ 48 - 1 - (3 + m.lct / 2)) = _
  rw [decide_eq_decide]
  unfold tosend
  omega

lemma marks_nextChunk : (nextChunk m tx).length ≤ 48 ∧ marks (nextChunk m tx) =
    some (decide (tx.curOffset = 0), decide (tx.curOffset + tosend m tx = tx.curLen)) := by
  have hlct := h.lct_lt
  refine ⟨?_, ?_⟩
  · rw [length_nextChunk]
    unfold tosend
    omega
  · unfold marks
    rw [decodeHdr_encodeHdr (valid_nextHdr h) (fun i hi => bytes_nextChunk_hdr hi)
      (by rw [length_nextChunk, size_nextHdr]; omega), Option.map_some, somt_nextHdr h,
      eomt_nextHdr h]

/-- **A call of `process_single_tx_qlock`** sends the next chunk and moves on. -/
theorem processSingleTx_eq : processSingleTx (fun _ => true) m tx =
    (m, (advance m tx).1, some (nextChunk m tx), (advance m tx).2) := by
  have hassign : assignSeqno m tx = some (m, tx) := if_neg h.seqno
  unfold processSingleTx
  simp only [if_neg h.state, hassign, if_true]

/-- What the receiver has before a chunk is sent. -/
structure Got (tx : Tx) (r : Receiver) : Prop where
  curlen : r.curlen = tx.curOffset
  msg : ∀ i, i < tx.curOffset → r.msg i = tx.msg i
  haveSomt : r.haveSomt = decide (tx.curOffset ≠ 0)
  haveEomt : r.haveEomt = false

/-- **A chunk is accepted**, and the receiver has the message up to its end. -/
theorem read_nextChunk {maxBytes : ℕ} (hmax : 3 + m.lct / 2 ≤ maxBytes) {mem : ℕ → Byte}
    (hmem : ∀ i, i < (nextChunk m tx).length → mem i = bytes (nextChunk m tx) i) {r : Receiver}
    (hgot : Got tx r) :
    ∃ r', getOneSbMsg maxBytes (present mem) r = (r', true) ∧
      r'.curlen = tx.curOffset + tosend m tx ∧
      (∀ i, i < tx.curOffset + tosend m tx → r'.msg i = tx.msg i) ∧ r'.haveSomt = true ∧
      r'.haveEomt = decide (tx.curOffset + tosend m tx = tx.curLen) := by
  have hlct := h.lct_lt
  have hlen := h.len
  have hoffset := h.offset
  have hle : tx.curOffset + tosend m tx ≤ tx.curLen ∧ tosend m tx ≤ 44 := by
    unfold tosend
    omega
  have hsmall : (nextHdr m tx).size ≤ min maxBytes 16 := by
    rw [size_nextHdr]
    omega
  have hdecode : decodeHdr mem (min maxBytes 16) = some (nextHdr m tx, (nextHdr m tx).size) := by
    refine decodeHdr_encodeHdr (valid_nextHdr h) (fun i hi => ?_) hsmall
    rw [hmem i (by rw [length_nextChunk, ← size_nextHdr m tx]; omega), bytes_nextChunk_hdr hi]
  have hne : (nextHdr m tx).somt ≠ r.haveSomt := by
    rw [somt_nextHdr h, hgot.haveSomt]
    by_cases hzero : tx.curOffset = 0 <;> simp
  obtain ⟨r', hr', hmsg, hcurlen, hsomt, heomt⟩ := getOneSbMsg_spec mem r hdecode hsmall
    (by rw [size_nextHdr]; omega) hne (by rw [msgLen_nextHdr]; omega)
    (by rw [msgLen_nextHdr]; omega)
  rw [msgLen_nextHdr, hgot.curlen] at hmsg hcurlen
  refine ⟨r', hr', ?_, fun i hi => ?_, hsomt, ?_⟩
  · rw [hcurlen]
    exact Nat.mod_eq_of_lt (by omega)
  · rw [hmsg]
    unfold memcpy
    split_ifs with hin
    · have hbody := bytes_nextChunk_body m tx (i := i - tx.curOffset) (by omega)
      show mem ((nextHdr m tx).size + (i - tx.curOffset)) = tx.msg i
      rw [size_nextHdr, hmem _ (by rw [length_nextChunk]; omega), hbody]
      congr 1
      omega
    · exact hgot.msg i (by omega)
  · rw [heomt, hgot.haveEomt, eomt_nextHdr h, Bool.false_or]

end Chunk

/-! ## The whole message -/

lemma advance_spec {m : Branch} {tx : Tx} (h : Sending m tx) :
    if tx.curOffset + tosend m tx = tx.curLen then (advance m tx).2 = .one
    else (advance m tx).2 = .zero ∧ Sending m (advance m tx).1 ∧
      (advance m tx).1 = { tx with curOffset := tx.curOffset + tosend m tx } := by
  have hoffset := h.offset
  simp only [advance, msgLen_nextHdr, Nat.add_sub_cancel]
  split_ifs with hend
  · rfl
  · refine ⟨rfl, { h with offset := ?_ }, rfl⟩
    show tx.curOffset + tosend m tx < tx.curLen
    have hle : tx.curOffset + tosend m tx ≤ tx.curLen := by
      unfold tosend
      omega
    omega

/-- The sinks present the chunks, each followed by anything. -/
def Presents (chunks : List (List Byte)) (mems : List (ℕ → Byte)) : Prop :=
  List.Forall₂ (fun chunk mem => ∀ i, i < chunk.length → mem i = bytes chunk i) chunks mems

/-- The receiver has the whole message. -/
structure Complete (tx : Tx) (r : Receiver) : Prop where
  curlen : r.curlen = tx.curLen
  msg : ∀ i, i < tx.curLen → r.msg i = tx.msg i
  haveEomt : r.haveEomt = true

lemma transmit_spec (maxBytes calls : ℕ) {m : Branch} {tx : Tx} (h : Sending m tx)
    (hcalls : tx.curLen - tx.curOffset ≤ calls) (hmax : 3 + m.lct / 2 ≤ maxBytes) :
    ∃ chunks, transmit (fun _ => true) calls m tx = some chunks ∧ 0 < chunks.length ∧
      (∀ k chunk, chunks[k]? = some chunk → chunk.length ≤ 48 ∧
        marks chunk = some (decide (k = 0 ∧ tx.curOffset = 0), decide (k + 1 = chunks.length))) ∧
      ∀ mems, Presents chunks mems → ∀ r, Got tx r →
        ∃ r', readAll maxBytes mems r = some r' ∧ Complete tx r' := by
  -- induction on the calls: the receiver has the message up to the offset of the sender
  induction calls generalizing tx with
  | zero =>
    have := h.offset
    omega
  | succ calls ih =>
    have hadv := advance_spec h
    have hpos := tosend_pos h
    obtain ⟨hlen, hmarks⟩ := marks_nextChunk h
    rw [transmit, processSingleTx_eq h]
    by_cases hend : tx.curOffset + tosend m tx = tx.curLen
    · rw [if_pos hend] at hadv
      refine ⟨[nextChunk m tx], by rw [hadv], Nat.one_pos, ?_, ?_⟩
      · intro k chunk hk
        rcases k with _ | k
        · cases hk
          exact ⟨hlen, by simpa [hend] using hmarks⟩
        · simp at hk
      · intro mems hmems r hgot
        obtain _ | ⟨hmem, _ | _⟩ := hmems
        obtain ⟨r', hr', hcurlen, hmsg, -, heomt⟩ := read_nextChunk h hmax hmem hgot
        rw [hend] at hcurlen hmsg heomt
        refine ⟨r', by rw [readAll, hr']; rfl, hcurlen, hmsg, heomt.trans (by simp)⟩
    · rw [if_neg hend] at hadv
      obtain ⟨hzero, hsending, htx⟩ := hadv
      obtain ⟨chunks, hchunks, hcount, hall, hread⟩ := ih hsending (by rw [htx]; dsimp only; omega)
      refine ⟨nextChunk m tx :: chunks, by simp only [hzero, hchunks, Option.map_some],
        Nat.succ_pos _, ?_, ?_⟩
      · intro k chunk hk
        rw [List.length_cons]
        rcases k with _ | k
        · cases hk
          refine ⟨hlen, hmarks.trans ?_⟩
          have hmore : ¬ 0 + 1 = chunks.length + 1 := by omega
          have hfirst : decide (0 = 0 ∧ tx.curOffset = 0) = decide (tx.curOffset = 0) := by simp
          rw [hfirst, decide_eq_false hend, decide_eq_false hmore]
        · obtain ⟨hlen', hmarks'⟩ := hall k chunk hk
          refine ⟨hlen', hmarks'.trans ?_⟩
          have hnotFirst : ¬ (k = 0 ∧ (advance m tx).1.curOffset = 0) := by
            rw [htx]
            dsimp only
            omega
          simp [hnotFirst]
      · intro mems hmems r hgot
        obtain _ | ⟨hmem, htail⟩ := hmems
        obtain ⟨r', hr', hcurlen, hmsg, hsomt, heomt⟩ := read_nextChunk h hmax hmem hgot
        have hgot' : Got (advance m tx).1 r' := by
          rw [htx]
          have hne : tx.curOffset + tosend m tx ≠ 0 := by omega
          exact ⟨hcurlen, hmsg, hsomt.trans (decide_eq_true hne).symm,
            heomt.trans (decide_eq_false hend)⟩
        obtain ⟨r'', hr'', hcomplete⟩ := hread _ htail r' hgot'
        rw [htx] at hcomplete
        refine ⟨r'', by rw [readAll, hr']; exact hr'', hcomplete.curlen, hcomplete.msg,
          hcomplete.haveEomt⟩

lemma assignSeqno_spec {m : Branch} (tx : Tx)
    (hslot : tx.seqno = -1 → ¬ (m.txSlots 0 = true ∧ m.txSlots 1 = true)) :
    ∃ m' tx', assignSeqno m tx = some (m', tx') ∧ tx'.seqno ≠ -1 ∧ m'.lct = m.lct ∧
      ∃ seqno, tx' = { tx with seqno := seqno } := by
  unfold assignSeqno
  by_cases hnone : tx.seqno = -1
  · rw [if_pos hnone, if_neg (hslot hnone)]
    refine ⟨_, _, rfl, ?_, rfl, _, rfl⟩
    dsimp only
    split_ifs <;> omega
  · rw [if_neg hnone]
    exact ⟨m, tx, rfl, hnone, rfl, tx.seqno, rfl⟩

lemma transmit_start {m : Branch} {tx : Tx} (hlct : 0 < m.lct ∧ m.lct < 16)
    (hlen : 0 < tx.curLen ∧ tx.curLen < 256) (hoffset : tx.curOffset = 0)
    (hslot : tx.state = .queued ∨ tx.seqno = -1 → ¬ (m.txSlots 0 = true ∧ m.txSlots 1 = true))
    (send : List Byte → Bool) (calls : ℕ) :
    ∃ m' tx', Sending m' tx' ∧ m'.lct = m.lct ∧ tx'.msg = tx.msg ∧ tx'.curLen = tx.curLen ∧
      tx'.curOffset = 0 ∧ transmit send calls m tx = transmit send calls m' tx' := by
  obtain ⟨tx1, htx1⟩ : ∃ tx1, (if tx.state = .queued then
      { tx with seqno := -1, state := .startSend } else tx) = tx1 := ⟨_, rfl⟩
  have hfields : tx1.state ≠ .queued ∧ tx1.msg = tx.msg ∧ tx1.curLen = tx.curLen ∧
      tx1.curOffset = tx.curOffset ∧ (tx1.seqno = -1 → tx.state = .queued ∨ tx.seqno = -1) := by
    rw [← htx1]
    split_ifs with hq
    · exact ⟨by simp, rfl, rfl, rfl, fun _ => .inl hq⟩
    · exact ⟨hq, rfl, rfl, rfl, .inr⟩
  obtain ⟨hstate, hmsg, hcurLen, hcurOffset, hseqno⟩ := hfields
  obtain ⟨m', tx', hassign, hnext, hlct', seqno, rfl⟩ :=
    assignSeqno_spec tx1 fun hnone => hslot (hseqno hnone)
  refine ⟨m', { tx1 with seqno := seqno }, ⟨by omega, by omega, hstate, hnext, ?_, ?_⟩, hlct', hmsg,
    hcurLen, hcurOffset.trans hoffset, ?_⟩
  · show tx1.curOffset < tx1.curLen
    omega
  · show tx1.curLen < 256
    omega
  · have hcall : processSingleTx send m tx =
        processSingleTx send m' { tx1 with seqno := seqno } := by
      have hassign' : assignSeqno m' { tx1 with seqno := seqno } =
          some (m', { tx1 with seqno := seqno }) := if_neg hnext
      simp only [processSingleTx, htx1, hassign, if_neg hstate, hassign']
    cases calls with
    | zero => rfl
    | succ calls => rw [transmit, transmit, hcall]

/-- **The receiver gets the message back.** For a message of 1 to 255 bytes to a branch device with
a link count of 1 to 15, and a free slot: the calls of `process_single_tx_qlock` send the message in
chunks of at most 48 bytes, the first of which and no other is marked as the first one and the last
of which and no other as the last one; and from sinks that present these chunks, each followed by
anything, a receiver that reads blocks of `maxBytes` bytes, at least the `3 + lct / 2` bytes of a
header, accepts all of them and has the message.

**Proof sketch.** The receiver has the message up to the offset of the sender. This holds from one
chunk to the next, as the header is read back and the data of the chunk is copied behind what is
there. -/
theorem sideband_roundtrip (m : Branch) (tx : Tx) (maxBytes : ℕ) (hlct : 0 < m.lct ∧ m.lct < 16)
    (hlen : 0 < tx.curLen ∧ tx.curLen < 256) (hoffset : tx.curOffset = 0)
    (hslot : tx.state = .queued ∨ tx.seqno = -1 → ¬ (m.txSlots 0 = true ∧ m.txSlots 1 = true))
    (hmax : 3 + m.lct / 2 ≤ maxBytes) :
    ∃ chunks, transmit (fun _ => true) tx.curLen m tx = some chunks ∧
      (∀ k chunk, chunks[k]? = some chunk → chunk.length ≤ 48 ∧
        marks chunk = some (decide (k = 0), decide (k + 1 = chunks.length))) ∧
      ∀ mems, Presents chunks mems → ∃ r, readAll maxBytes mems {} = some r ∧ Complete tx r := by
  obtain ⟨m', tx', hsending, hlct', hmsg', hlen', hoffset', hstart⟩ :=
    transmit_start hlct hlen hoffset hslot (fun _ => true) tx.curLen
  obtain ⟨chunks, hchunks, -, hmarks, hread⟩ := transmit_spec maxBytes tx.curLen
    hsending (by omega) (by rw [hlct']; exact hmax)
  refine ⟨chunks, hstart.trans hchunks, ?_, fun mems hmems => ?_⟩
  · intro k chunk hk
    obtain ⟨hle, hmark⟩ := hmarks k chunk hk
    refine ⟨hle, hmark.trans ?_⟩
    simp [hoffset']
  · obtain ⟨r, hr, hcomplete⟩ := hread mems hmems {}
      ⟨hoffset'.symm, fun i hi => by omega, by simp [hoffset'], rfl⟩
    refine ⟨r, hr, hcomplete.curlen.trans hlen', fun i hi => ?_, hcomplete.haveEomt⟩
    rw [hcomplete.msg i (by omega), hmsg']

/-- A message of 100 bytes goes to a branch device at the second link. -/
theorem sideband_roundtrip_hundred :
    ∃ chunks, transmit (fun _ => true) 100 { lct := 2, rad := fun _ => 1 }
      { msg := fun i => BitVec.ofNat 8 i, curLen := 100 } = some chunks ∧
      ∀ mems, Presents chunks mems → ∃ r, readAll 16 mems {} = some r ∧
        Complete { msg := fun i => BitVec.ofNat 8 i, curLen := 100 } r := by
  obtain ⟨chunks, hchunks, -, hread⟩ := sideband_roundtrip { lct := 2, rad := fun _ => 1 }
    { msg := fun i => BitVec.ofNat 8 i, curLen := 100 } 16 (by simp) (by simp) rfl (by simp)
    (by simp)
  exact ⟨chunks, hchunks, hread⟩

end KmsDrm.DpMst
