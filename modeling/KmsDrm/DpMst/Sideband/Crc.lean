import KmsDrm.DpMst.Sideband.Bounds

/-!
# What the CRCs of a chunk decide

A chunk is dropped if the CRC of its header does not match. The CRC of its data is computed when the
chunk is complete and not compared with the last byte, so the data is added to the message anyway.

## Main results

* `DpMst.chunk_checked_iff` — when a chunk is taken only with the right CRCs.
-/

namespace KmsDrm.DpMst

variable {maxBytes len : ℕ} {mem : ℕ → Byte} {r : Receiver}

/-- The position of the byte behind the address of a chunk. -/
def idxOf (mem : ℕ → Byte) : ℕ := 1 + ((mem 0 &&& 0xf0) >>> 4).toNat / 2

/-- The length of the data of a chunk, with the CRC byte. -/
def msgLenOf (mem : ℕ → Byte) : ℕ := (mem (idxOf mem) &&& 0x3f).toNat

/-- The last nibble of the header is the CRC of the others. -/
def HdrMatches (mem : ℕ → Byte) : Prop :=
  headerCrc4 mem ((idxOf mem + 2) * 2 - 1) &&& 0xf = mem (idxOf mem + 1) &&& 0xf

/-- The data has a last byte, which is the CRC of the others. -/
def DataMatches (mem : ℕ → Byte) : Prop :=
  0 < msgLenOf mem ∧ dataCrc4 (fun i => mem (idxOf mem + 2 + i)) (msgLenOf mem - 1) =
    mem (idxOf mem + 2 + (msgLenOf mem - 1))

/-- The receiver takes the chunk: its header starts with a byte that is not 0, is in the first block
and matches, and it is the first chunk of a message if and only if none was received before. -/
def Taken (mem : ℕ → Byte) (len : ℕ) (r : Receiver) : Prop :=
  (mem 0 ≠ 0 ∧ idxOf mem + 2 ≤ len ∧ HdrMatches mem) ∧
    decide ((mem (idxOf mem + 1) >>> 7) &&& 1 ≠ 0) ≠ r.haveSomt

/-- Something was added to the message: `curlen`, which is a `u8`, has changed. -/
def Appended (r r' : Receiver) : Prop := r'.curlen % 256 ≠ r.curlen % 256

lemma decodeHdr_cases (mem : ℕ → Byte) (len : ℕ) :
    (∃ hdr, decodeHdr mem len = some (hdr, idxOf mem + 2) ∧ hdr.msgLen = msgLenOf mem ∧
      hdr.somt = decide ((mem (idxOf mem + 1) >>> 7) &&& 1 ≠ 0) ∧
      mem 0 ≠ 0 ∧ idxOf mem + 2 ≤ len ∧ HdrMatches mem) ∨
    decodeHdr mem len = none ∧ ¬ (mem 0 ≠ 0 ∧ idxOf mem + 2 ≤ len ∧ HdrMatches mem) := by
  have hlen : 3 + ((mem 0 &&& 0xf0) >>> 4).toNat / 2 = idxOf mem + 2 := by
    unfold idxOf
    omega
  unfold decodeHdr
  simp only [hlen]
  by_cases hzero : mem 0 = 0
  · exact .inr ⟨if_pos hzero, fun h => h.1 hzero⟩
  rw [if_neg hzero]
  by_cases hfits : len < idxOf mem + 2
  · exact .inr ⟨if_pos hfits, fun h => by omega⟩
  rw [if_neg hfits]
  by_cases hcrc : HdrMatches mem
  · exact .inl ⟨_, if_neg (not_not.2 hcrc), rfl, rfl, hzero, by omega, hcrc⟩
  · exact .inr ⟨if_pos hcrc, fun h => hcrc h.2.2⟩

lemma msgLenOf_lt (mem : ℕ → Byte) : msgLenOf mem < 64 :=
  Nat.lt_of_le_of_lt Nat.and_le_right (by decide)

lemma getOneSbMsg_rejected (h : ¬ Taken mem (min maxBytes 16) r) :
    (getOneSbMsg maxBytes (present mem) r).1.curlen = r.curlen := by
  unfold getOneSbMsg
  simp only [dpcdRead_present, Nat.zero_add, build]
  rcases decodeHdr_cases mem (min maxBytes 16) with ⟨hdr, hdecode, -, hsomt, hok⟩ | ⟨hnone, -⟩
  · have hsame : hdr.somt = r.haveSomt := by
      by_contra hne
      exact h ⟨hok, hsomt ▸ hne⟩
    simp only [hdecode, hsame]
    cases r.haveSomt <;> rfl
  · rw [hnone]
    rfl

lemma getOneSbMsg_taken (h : Taken mem (min maxBytes 16) r) :
    (getOneSbMsg maxBytes (present mem) r).1.curlen =
      ((r.curlen + msgLenOf mem - 1 : ℤ) % 256).toNat := by
  rcases decodeHdr_cases mem (min maxBytes 16) with ⟨hdr, hdecode, hlen, hsomt, -, hfits, -⟩ | hnone
  swap
  · exact absurd h.1 hnone.2
  have hnew : hdr.somt ≠ r.haveSomt := hsomt ▸ h.2
  have hlt := msgLenOf_lt mem
  by_cases hpos : 0 < hdr.msgLen
  · obtain ⟨r', hr', -, hcurlen, -⟩ :=
      getOneSbMsg_spec mem r hdecode hfits (by omega) hnew hpos (by omega)
    rw [hr', hcurlen]
    omega
  · -- the data has no bytes, and `curlen` goes down
    have hread : dpcdRead (present mem) 0 (min maxBytes 16) = some mem := by
      simp [dpcdRead_present]
    rw [(getOneSbMsg_hdr rfl hread hdecode hnew hfits rfl).2.2, if_pos]
    · show ((r.curlen + ((hdr.msgLen : ℤ) - 1)) % 256).toNat = _
      omega
    · show hdr.msgLen ≤ min hdr.msgLen _
      omega

/-- **The data of a chunk is not checked.** A chunk that is added to the message has a header and
data that match, if and only if the data of a chunk that is taken and not empty matches. -/
theorem chunk_checked_iff (maxBytes : ℕ) (mem : ℕ → Byte) (r : Receiver) :
    (Appended r (getOneSbMsg maxBytes (present mem) r).1 → HdrMatches mem ∧ DataMatches mem) ↔
    (Taken mem (min maxBytes 16) r → msgLenOf mem ≠ 1 → DataMatches mem) := by
  by_cases h : Taken mem (min maxBytes 16) r
  · have hlt := msgLenOf_lt mem
    have hadded : Appended r (getOneSbMsg maxBytes (present mem) r).1 ↔ msgLenOf mem ≠ 1 := by
      unfold Appended
      rw [getOneSbMsg_taken h]
      omega
    rw [hadded]
    exact ⟨fun hall _ hne => (hall hne).2, fun hall hne => ⟨h.1.2.2, hall h hne⟩⟩
  · refine ⟨fun _ htaken => absurd htaken h, fun _ hadded => absurd ?_ hadded⟩
    rw [getOneSbMsg_rejected h]

/-- **A byte that does not match its CRC is added to the message.** -/
theorem chunk_unchecked : ∃ mem, HdrMatches mem ∧ ¬ DataMatches mem ∧
    Appended {} (getOneSbMsg 16 (present mem) {}).1 ∧
    (getOneSbMsg 16 (present mem) {}).1.curlen = 1 := by
  refine ⟨bytes (encodeHdr { lct := 1, msgLen := 2, somt := true } ++ [1, 0]), ?_⟩
  unfold HdrMatches DataMatches Appended
  decide +kernel

end KmsDrm.DpMst
