import KmsDrm.DpMst.Sideband.Receiver
import KmsDrm.Lib.Machine

/-!
# The bounds of the receiver of sideband messages

The length of a chunk comes from the sink: the receiver takes it from the header and checks it
against nothing. The writes stay in bounds if the chunks of the sink fit, and not else.

## Main results

* `DpMst.receiver_in_bounds` — the writes for a sink whose chunks fit.
-/

namespace KmsDrm.DpMst

open KmsDrm.Lib

/-- A chunk whose header is accepted is not empty, it fits in `chunk`, and the length of the message
with its data is at most 255. -/
def ChunkFits (maxBytes : ℕ) (r : Receiver) (sink : ℕ → Option Byte) : Prop :=
  ∀ block hdr hdrlen, dpcdRead sink 0 (min maxBytes 16) = some block →
    decodeHdr block (min maxBytes 16) = some (hdr, hdrlen) → hdr.somt ≠ r.haveSomt →
    0 < hdr.msgLen ∧ hdr.msgLen ≤ 48 ∧ r.curlen + hdr.msgLen ≤ 256

def receive (maxBytes : ℕ) (sink : ℕ → Option Byte) (r : Receiver) : Option Receiver :=
  some (handle maxBytes sink r)

/-- All accesses so far are in bounds. -/
def AllSafe (r : Receiver) : Prop := ∀ a ∈ r.log, a.Safe

/-- A receiver in the middle of a chunk that fits. -/
structure InChunk (r : Receiver) : Prop where
  safe : AllSafe r
  pos : 0 < r.curchunkLen
  chunk : r.curchunkLen ≤ 48
  msg : r.curlen + r.curchunkLen ≤ 256
  idx : r.curchunkIdx ≤ r.curchunkLen

lemma decodeHdr_le {buf : ℕ → Byte} {buflen hdrlen : ℕ} {hdr : Hdr}
    (h : decodeHdr buf buflen = some (hdr, hdrlen)) : hdrlen ≤ buflen := by
  unfold decodeHdr at h
  split_ifs at h with hzero
  simp only [] at h
  split_ifs at h with hlen hcrc
  simp only [Option.some.injEq, Prod.mk.injEq] at h
  omega

lemma InChunk.copyChunk {r : Receiver} (h : InChunk r) : AllSafe r.copyChunk := by
  intro a ha
  have hpos := h.pos
  have hchunk := h.chunk
  have hmsg := h.msg
  rcases List.mem_cons.1 ha with rfl | ha
  · exact ⟨by omega, by omega⟩
  · rcases List.mem_cons.1 ha with rfl | ha
    · exact ⟨by omega, by simp only [Dest.size]; omega, by simp only [Dest.size]; omega⟩
    · exact h.safe a ha

lemma InChunk.copyBlock {r : Receiver} (h : InChunk r) (block : ℕ → Byte) (len : ℕ)
    (hlen : len ≤ r.curchunkLen - r.curchunkIdx) : InChunk (r.copyBlock block len) := by
  have hchunk := h.chunk
  have hidx := h.idx
  refine ⟨?_, h.pos, h.chunk, h.msg, ?_⟩
  · intro a ha
    rcases List.mem_cons.1 ha with rfl | ha
    · exact ⟨by omega, by simp only [Dest.size]; omega, by omega⟩
    · exact h.safe a ha
  · show (r.curchunkIdx + len) % 256 ≤ r.curchunkLen
    omega

lemma InChunk.readRest {maxBytes : ℕ} {sink : ℕ → Option Byte} {r : Receiver} (h : InChunk r)
    (turns curreply : ℕ) :
    AllSafe (readRest maxBytes sink turns curreply (r.curchunkLen - r.curchunkIdx) r).1 := by
  induction turns generalizing curreply r with
  | zero => exact h.safe
  | succ turns ih =>
    have hchunk := h.chunk
    rcases Nat.eq_or_lt_of_le h.idx with hidx | hidx
    · rw [DpMst.readRest, if_pos (by omega)]
      exact h.safe
    · obtain ⟨len, hblock⟩ : ∃ len, min (r.curchunkLen - r.curchunkIdx) (min maxBytes 16) = len :=
        ⟨_, rfl⟩
      cases hread : dpcdRead sink curreply len with
      | none =>
        rw [DpMst.readRest, if_neg (by omega)]
        simp only [hblock, hread]
        exact h.safe
      | some block =>
        have hin := h.copyBlock block len (by omega)
        rw [(readRest_succ hblock (by omega) hidx hread rfl turns).2.2]
        split_ifs
        · exact hin.copyChunk
        · exact ih hin (curreply + len)

lemma inChunk_copyHead {r : Receiver} (h : AllSafe r) {hdr : Hdr} {hdrlen len : ℕ}
    (hhdr : hdrlen ≤ len) (hpos : 0 < hdr.msgLen) (hchunk : hdr.msgLen ≤ 48)
    (hmsg : r.curlen + hdr.msgLen ≤ 256) (block : ℕ → Byte) :
    InChunk ((r.takeHdr hdr hdrlen).copyHead block len hdrlen) := by
  refine ⟨?_, hpos, hchunk, hmsg, Nat.min_le_left _ _⟩
  intro a ha
  rcases List.mem_cons.1 ha with rfl | ha
  · refine ⟨by omega, ?_, ?_⟩
    · show (0 : ℤ) + (min hdr.msgLen (len - hdrlen) : ℕ) ≤ _
      simp only [Dest.size]
      omega
    · show ((min hdr.msgLen (len - hdrlen) : ℕ) : ℤ) ≤ _
      omega
  · exact h a ha

lemma getOneSbMsg_safe {maxBytes : ℕ} {sink : ℕ → Option Byte} {r : Receiver} (h : AllSafe r)
    (hfits : ChunkFits maxBytes r sink) : AllSafe (getOneSbMsg maxBytes sink r).1 := by
  obtain ⟨len, hblock⟩ : ∃ len, min maxBytes 16 = len := ⟨_, rfl⟩
  unfold ChunkFits at hfits
  rw [hblock] at hfits
  cases hread : dpcdRead sink 0 len with
  | none =>
    simp only [getOneSbMsg, hblock, hread]
    exact h
  | some block =>
    cases hdecode : decodeHdr block len with
    | none =>
      simp only [getOneSbMsg, hblock, hread, build, hdecode]
      exact h
    | some res =>
      obtain ⟨hdr, hdrlen⟩ := res
      by_cases hsomt : hdr.somt = r.haveSomt
      · -- the header is not accepted, and nothing is copied
        have hrej : ∃ r', build r block len true = (r', false) ∧ r'.log = r.log := by
          unfold build
          simp only [hdecode]
          cases hr : r.haveSomt <;> rw [hr] at hsomt <;> simp [hsomt]
        obtain ⟨r', hr', hlog⟩ := hrej
        simp only [getOneSbMsg, hblock, hread, hr', Bool.false_eq_true, if_false]
        unfold AllSafe
        rw [hlog]
        exact h
      · obtain ⟨hpos, hchunk, hmsg⟩ := hfits block hdr hdrlen hread hdecode hsomt
        have hhdr := decodeHdr_le hdecode
        have hin := inChunk_copyHead h hhdr hpos hchunk hmsg block
        rw [(getOneSbMsg_hdr hblock hread hdecode hsomt hhdr rfl).2.2]
        split_ifs
        · exact hin.copyChunk
        · exact hin.readRest _ _

/-- **The accesses of the receiver are in bounds**, over any number of messages of a sink whose
chunks all fit: the writes to `chunk` are below 48 and those to `msg` below 256, every length that
is copied is not negative and there to copy, and `curlen` never wraps. -/
theorem receiver_in_bounds (maxBytes : ℕ) {r : Receiver}
    (h : Machine.Runs (receive maxBytes) (ChunkFits maxBytes) {} r) : ∀ a ∈ r.log, a.Safe := by
  refine Machine.Runs.invariant (P := AllSafe) (by simp [AllSafe])
    (fun r sink r' hsafe hfits hstep => ?_) h
  cases hstep
  have hget := getOneSbMsg_safe hsafe hfits
  unfold handle
  dsimp only
  split_ifs
  · exact hget
  · exact hget

/-- A sink that presents a header and nothing else. -/
def headerSink (somt eomt : Bool) (msgLen : ℕ) : ℕ → Option Byte :=
  present (bytes (encodeHdr { lct := 1, msgLen := msgLen, somt := somt, eomt := eomt }))

lemma chunkFits_headerSink {somt eomt : Bool} {n : ℕ} {r : Receiver} (hn : n < 64)
    (hok : somt ≠ r.haveSomt → 0 < n ∧ n ≤ 48 ∧ r.curlen + n ≤ 256) :
    ChunkFits 16 r (headerSink somt eomt n) := by
  intro block hdr hdrlen hread hdecode hsomt
  have hv : Hdr.Valid { lct := 1, msgLen := n, somt := somt, eomt := eomt } :=
    ⟨Nat.one_pos, by simp, by simp, hn, fun _ _ => rfl⟩
  have hsize : Hdr.size { lct := 1, msgLen := n, somt := somt, eomt := eomt } ≤ min 16 16 := by
    show 3 + 1 / 2 ≤ min 16 16
    decide
  unfold headerSink at hread
  rw [dpcdRead_present] at hread
  cases hread
  rw [decodeHdr_encodeHdr hv (fun i _ => by rw [Nat.zero_add]) hsize] at hdecode
  obtain ⟨rfl, -⟩ := Prod.mk.inj (Option.some.inj hdecode)
  exact hok hsomt

/-- A message in two chunks is received with accesses, all of them in bounds. -/
theorem receiver_in_bounds_twoChunks :
    (handle 16 (headerSink false true 20) (handle 16 (headerSink true false 48) {})).log ≠ [] ∧
      ∀ a ∈ (handle 16 (headerSink false true 20) (handle 16 (headerSink true false 48) {})).log,
        a.Safe := by
  refine ⟨by decide +kernel, ?_⟩
  refine receiver_in_bounds 16 (.step (headerSink false true 20) (.step (headerSink true false 48)
    .start (chunkFits_headerSink (by decide) ?_) rfl) (chunkFits_headerSink (by decide) ?_) rfl)
  · decide
  · decide +kernel

/-- **A sink can break the bounds**: by a chunk that is longer than `chunk`, by an empty chunk, and
by chunks that are together longer than `msg`. -/
theorem receiver_out_of_bounds :
    (∃ a ∈ (handle 16 (headerSink true true 63) {}).log, ¬ a.Safe) ∧
    (∃ a ∈ (handle 16 (headerSink true true 0) {}).log, ¬ a.Safe) ∧
    ∃ a ∈ ((handle 16 (headerSink false false 48))^[6]
      (handle 16 (headerSink true false 48) {})).log, ¬ a.Safe := by
  decide +kernel

end KmsDrm.DpMst
