import Mathlib

/-!
# Headers of sideband messages

A sideband message is sent in chunks, each with a header. The header says to which branch device
the message goes, how long the chunk is, and whether it is the first or the last one; its last
nibble is a CRC of the other ones.

## Main definitions

* `DpMst.encodeHdr`, `DpMst.decodeHdr` — the bytes of a header.

## Main results

* `DpMst.decodeHdr_encodeHdr` — a header is read back.

## Implementation notes

A buffer is a function on the positions, with its length where the code has it. The lengths and
counts are natural numbers below 256.
-/

namespace KmsDrm.DpMst

open List

/-- A `u8` -/
abbrev Byte := BitVec 8

/-! ## CRCs -/

/-- The variables of the loop of a CRC. -/
structure Crc (w : ℕ) where
  bitmask : Byte := 0x80
  bitshift : Byte := 7
  arrayIndex : Byte := 0
  remainder : BitVec w := 0

/-- A turn of the first loop of a CRC: the next bit of the data is taken. -/
def Crc.feed {w : ℕ} (top poly : BitVec w) (data : ℕ → Byte) (c : Crc w) : Crc w :=
  let bit := (data c.arrayIndex.toNat &&& c.bitmask) >>> c.bitshift
  let remainder := c.remainder <<< 1 ||| bit.setWidth w
  let wraps := c.bitmask >>> 1 = 0#8
  { bitmask := if wraps then 0x80 else c.bitmask >>> 1
    bitshift := if wraps then 7 else c.bitshift - 1
    arrayIndex := if wraps then c.arrayIndex + 1 else c.arrayIndex
    remainder := if remainder &&& top = top then remainder ^^^ poly else remainder }

/-- A turn of the second loop of a CRC. -/
def Crc.flush {w : ℕ} (top poly remainder : BitVec w) : BitVec w :=
  let remainder := remainder <<< 1
  if remainder &&& top ≠ 0 then remainder ^^^ poly else remainder

/-- `drm_dp_msg_header_crc4` -/
def headerCrc4 (data : ℕ → Byte) (numNibbles : ℕ) : Byte :=
  (Crc.flush 0x10 0x13)^[4] ((Crc.feed 0x10 0x13 data)^[numNibbles * 4] {}).remainder

/-- `drm_dp_msg_data_crc4` -/
def dataCrc4 (data : ℕ → Byte) (numberOfBytes : ℕ) : Byte :=
  ((Crc.flush (0x100 : BitVec 16) 0xd5)^[8]
    ((Crc.feed (0x100 : BitVec 16) 0xd5 data)^[numberOfBytes * 8] {}).remainder &&& 0xff).setWidth 8

/-- The position in the data after some turns. -/
structure Crc.At {w : ℕ} (c : Crc w) (i : ℕ) : Prop where
  bitmask : c.bitmask = 0x80#8 >>> (i % 8)
  arrayIndex : c.arrayIndex = BitVec.ofNat 8 (i / 8)

lemma Crc.At.feed {w : ℕ} {c : Crc w} {i : ℕ} (h : c.At i) (top poly : BitVec w)
    (data : ℕ → Byte) : (c.feed top poly data).At (i + 1) := by
  have hcases : ∀ k : ℕ, k < 8 → ((0x80#8 >>> k >>> 1 = 0#8 ↔ k = 7) ∧
      (k ≠ 7 → 0x80#8 >>> k >>> 1 = 0x80#8 >>> (k + 1))) := by decide
  obtain ⟨hwrap, hnext⟩ := hcases (i % 8) (Nat.mod_lt _ (by decide))
  unfold Crc.feed
  simp only [h.bitmask, h.arrayIndex]
  by_cases h7 : i % 8 = 7
  · rw [if_pos (hwrap.2 h7), if_pos (hwrap.2 h7), if_pos (hwrap.2 h7)]
    constructor
    · rw [show (i + 1) % 8 = 0 by omega]
      rfl
    · rw [show (i + 1) / 8 = i / 8 + 1 by omega]
      exact (BitVec.ofNat_add ..).symm
  · have hne := fun hz => h7 (hwrap.1 hz)
    rw [if_neg hne, if_neg hne, if_neg hne]
    constructor
    · rw [hnext h7, show (i + 1) % 8 = i % 8 + 1 by omega]
    · rw [show (i + 1) / 8 = i / 8 by omega]

lemma Crc.at_iterate {w : ℕ} (top poly : BitVec w) (data : ℕ → Byte) (n : ℕ) :
    ((Crc.feed top poly data)^[n] {}).At n := by
  induction n with
  | zero => exact ⟨rfl, rfl⟩
  | succ n ih =>
    rw [Function.iterate_succ_apply']
    exact ih.feed top poly data

lemma Crc.feed_congr {w : ℕ} (top poly : BitVec w) {data data' : ℕ → Byte} {c : Crc w}
    (h : data c.arrayIndex.toNat &&& c.bitmask = data' c.arrayIndex.toNat &&& c.bitmask) :
    c.feed top poly data = c.feed top poly data' := by
  unfold Crc.feed
  rw [h]

lemma Crc.iterate_congr {w : ℕ} (top poly : BitVec w) {data data' : ℕ → Byte} {n : ℕ}
    (hn : n ≤ 2048) (h : ∀ i, i < n →
      data (i / 8) &&& 0x80#8 >>> (i % 8) = data' (i / 8) &&& 0x80#8 >>> (i % 8)) :
    (Crc.feed top poly data)^[n] {} = (Crc.feed top poly data')^[n] {} := by
  induction n with
  | zero => rfl
  | succ n ih =>
    rw [Function.iterate_succ_apply', Function.iterate_succ_apply',
      ih (by omega) fun i hi => h i (by omega)]
    have hat := Crc.at_iterate top poly data' n
    have hidx : (BitVec.ofNat 8 (n / 8)).toNat = n / 8 := by
      exact Nat.mod_eq_of_lt (by omega)
    refine Crc.feed_congr top poly ?_
    rw [hat.bitmask, hat.arrayIndex, hidx]
    exact h n (by omega)

lemma headerCrc4_congr {data data' : ℕ → Byte} {numNibbles : ℕ} (hn : numNibbles ≤ 512)
    (h : ∀ i, i < numNibbles * 4 →
      data (i / 8) &&& 0x80#8 >>> (i % 8) = data' (i / 8) &&& 0x80#8 >>> (i % 8)) :
    headerCrc4 data numNibbles = headerCrc4 data' numNibbles := by
  unfold headerCrc4
  rw [Crc.iterate_congr 0x10 0x13 (by omega) h]

/-! ## Headers -/

/-- `struct drm_dp_sideband_msg_hdr` -/
structure Hdr where
  lct : ℕ := 0
  lcr : ℕ := 0
  rad : ℕ → Byte := fun _ => 0
  broadcast : Bool := false
  pathMsg : Bool := false
  msgLen : ℕ := 0
  somt : Bool := false
  eomt : Bool := false
  seqno : Bool := false

def flag (b : Bool) : Byte := if b then 1 else 0

namespace Hdr

/-- `drm_dp_calc_sb_hdr_size` -/
def size (hdr : Hdr) : ℕ := 3 + hdr.lct / 2

def first (hdr : Hdr) : Byte :=
  (BitVec.ofNat 8 hdr.lct &&& 0xf) <<< 4 ||| (BitVec.ofNat 8 hdr.lcr &&& 0xf)

/-- The byte behind the address. -/
def second (hdr : Hdr) : Byte :=
  flag hdr.broadcast <<< 7 ||| flag hdr.pathMsg <<< 6 ||| (BitVec.ofNat 8 hdr.msgLen &&& 0x3f)

/-- The last byte of a header, without the CRC. -/
def third (hdr : Hdr) : Byte := flag hdr.somt <<< 7 ||| flag hdr.eomt <<< 6 ||| flag hdr.seqno <<< 4

/-- The bytes of a header before the last one. -/
def initial (hdr : Hdr) : List Byte :=
  hdr.first :: (List.range (hdr.lct / 2)).map hdr.rad ++ [hdr.second]

end Hdr

/-- The bytes of a buffer. -/
def bytes (l : List Byte) (i : ℕ) : Byte := l.getD i 0

/-- `drm_dp_encode_sideband_msg_hdr` -/
def encodeHdr (hdr : Hdr) : List Byte :=
  let buf := hdr.initial ++ [hdr.third]
  let crc4 := headerCrc4 (bytes buf) (buf.length * 2 - 1)
  hdr.initial ++ [hdr.third ||| (crc4 &&& 0xf)]

/-- `drm_dp_decode_sideband_msg_hdr` -/
def decodeHdr (buf : ℕ → Byte) (buflen : ℕ) : Option (Hdr × ℕ) :=
  if buf 0 = 0 then none
  else
    let lct := ((buf 0 &&& 0xf0) >>> 4).toNat
    let len := 3 + lct / 2
    if buflen < len then none
    else if headerCrc4 buf (len * 2 - 1) &&& 0xf ≠ buf (len - 1) &&& 0xf then none
    else
      let idx := 1 + lct / 2
      some
        ({ lct := lct
           lcr := (buf 0 &&& 0xf).toNat
           rad := fun i => if i < lct / 2 then buf (1 + i) else 0
           broadcast := (buf idx >>> 7) &&& 1 ≠ 0
           pathMsg := (buf idx >>> 6) &&& 1 ≠ 0
           msgLen := (buf idx &&& 0x3f).toNat
           somt := (buf (idx + 1) >>> 7) &&& 1 ≠ 0
           eomt := (buf (idx + 1) >>> 6) &&& 1 ≠ 0
           seqno := (buf (idx + 1) >>> 4) &&& 1 ≠ 0 }, idx + 2)

/-! ## An encoded header is read back -/

lemma first_byte : ∀ lct, lct < 16 → ∀ lcr, lcr < 16 →
    let b := (BitVec.ofNat 8 lct &&& 0xf) <<< 4 ||| (BitVec.ofNat 8 lcr &&& 0xf)
    ((b &&& 0xf0) >>> 4).toNat = lct ∧ (b &&& 0xf).toNat = lcr := by decide

lemma second_byte : ∀ p q : Bool, ∀ n, n < 64 →
    let b := flag p <<< 7 ||| flag q <<< 6 ||| (BitVec.ofNat 8 n &&& 0x3f)
    decide ((b >>> 7) &&& 1 ≠ 0) = p ∧ decide ((b >>> 6) &&& 1 ≠ 0) = q ∧
      (b &&& 0x3f).toNat = n := by decide

lemma third_byte : ∀ p q r : Bool, ∀ n, n < 16 →
    let b := flag p <<< 7 ||| flag q <<< 6 ||| flag r <<< 4 ||| BitVec.ofNat 8 n
    decide ((b >>> 7) &&& 1 ≠ 0) = p ∧ decide ((b >>> 6) &&& 1 ≠ 0) = q ∧
      decide ((b >>> 4) &&& 1 ≠ 0) = r ∧ b &&& 0xf = BitVec.ofNat 8 n := by decide

lemma and_nibble (b : Byte) : b &&& 0xf = BitVec.ofNat 8 (b.toNat % 16) := by
  apply BitVec.eq_of_toNat_eq
  have hmask := Nat.and_two_pow_sub_one_eq_mod b.toNat 4
  exact hmask.trans (Nat.mod_eq_of_lt (by omega)).symm

lemma or_nibble_and (b crc : Byte) {k : ℕ} (hk : k < 4) :
    (b ||| (crc &&& 0xf)) &&& 0x80#8 >>> k = b &&& 0x80#8 >>> k := by
  have hzero : ∀ k, k < 4 → 0xf#8 &&& 0x80#8 >>> k = 0#8 := by decide
  rw [BitVec.and_or_distrib_right, BitVec.and_assoc]
  have hk' : (0xf : Byte) &&& 0x80#8 >>> k = 0#8 := hzero k hk
  rw [hk', BitVec.and_zero, BitVec.or_zero]

/-- The headers that can be encoded. -/
structure Hdr.Valid (hdr : Hdr) : Prop where
  lct_pos : 0 < hdr.lct
  lct_lt : hdr.lct < 16
  lcr_lt : hdr.lcr < 16
  msgLen_lt : hdr.msgLen < 64
  rad : ∀ i, hdr.lct / 2 ≤ i → hdr.rad i = 0

lemma bytes_append_left {l l' : List Byte} {i : ℕ} (hi : i < l.length) :
    bytes (l ++ l') i = bytes l i := by
  unfold bytes
  rw [getD_append _ _ _ _ hi]

lemma bytes_append_right {l l' : List Byte} {i : ℕ} (hi : l.length ≤ i) :
    bytes (l ++ l') i = bytes l' (i - l.length) := by
  unfold bytes
  rw [getD_append_right _ _ _ _ hi]

lemma Hdr.length_initial (hdr : Hdr) : hdr.initial.length = 2 + hdr.lct / 2 := by
  simp only [Hdr.initial, length_append, length_cons, length_map, length_range,
    length_nil]
  omega

lemma length_encodeHdr (hdr : Hdr) : (encodeHdr hdr).length = hdr.size := by
  simp only [encodeHdr, length_append, hdr.length_initial, length_cons, length_nil,
    Hdr.size]
  omega

section Decode

variable {hdr : Hdr} {buf : ℕ → Byte} (hbuf : ∀ i, i < hdr.size → buf i = bytes (encodeHdr hdr) i)

include hbuf

lemma buf_first : buf 0 = hdr.first := by
  rw [hbuf 0 (by unfold Hdr.size; omega)]
  rfl

lemma buf_rad {i : ℕ} (hi : i < hdr.lct / 2) : buf (1 + i) = hdr.rad i := by
  rw [hbuf (1 + i) (by unfold Hdr.size; omega), encodeHdr, bytes_append_left
    (by rw [hdr.length_initial]; omega), Hdr.initial, bytes_append_left
    (by rw [length_cons, length_map, length_range]; omega), Nat.add_comm 1 i]
  unfold bytes
  rw [getD_eq_getElem _ _ (by simpa using hi)]
  simp

lemma buf_second : buf (1 + hdr.lct / 2) = hdr.second := by
  rw [hbuf _ (by unfold Hdr.size; omega), encodeHdr, bytes_append_left
    (by rw [hdr.length_initial]; omega), Hdr.initial, bytes_append_right
    (by rw [length_cons, length_map, length_range]; omega)]
  simp [bytes, Nat.add_comm]

lemma buf_third (hlct : hdr.lct < 16) :
    buf (2 + hdr.lct / 2) = hdr.third ||| (headerCrc4 buf (hdr.size * 2 - 1) &&& 0xf) := by
  have hlen : (hdr.initial ++ [hdr.third]).length = hdr.size := by
    simp only [length_append, hdr.length_initial, length_cons, length_nil, Hdr.size]
    omega
  have hcrc : headerCrc4 (bytes (hdr.initial ++ [hdr.third])) (hdr.size * 2 - 1) =
      headerCrc4 buf (hdr.size * 2 - 1) := by
    unfold Hdr.size at hbuf ⊢
    refine headerCrc4_congr (by omega) fun i hi => ?_
    rw [hbuf (i / 8) (by omega), encodeHdr]
    by_cases hlast : i / 8 < 2 + hdr.lct / 2
    · rw [bytes_append_left (by rw [hdr.length_initial]; exact hlast), bytes_append_left
        (by rw [hdr.length_initial]; exact hlast)]
    · -- of the last byte, only the nibble before the CRC counts
      have hidx : i / 8 - (2 + hdr.lct / 2) = 0 := by omega
      rw [bytes_append_right (by rw [hdr.length_initial]; omega), bytes_append_right
        (by rw [hdr.length_initial]; omega), hdr.length_initial, hidx]
      exact (or_nibble_and hdr.third _ (by omega)).symm
  rw [hbuf _ (by unfold Hdr.size; omega), encodeHdr, bytes_append_right
    (Nat.le_of_eq hdr.length_initial), hdr.length_initial, Nat.sub_self]
  simp only [hlen, hcrc]
  rfl

end Decode

/-- **An encoded header is accepted and read back.** -/
theorem decodeHdr_encodeHdr {hdr : Hdr} (hv : hdr.Valid) {buf : ℕ → Byte} {buflen : ℕ}
    (hbuf : ∀ i, i < hdr.size → buf i = bytes (encodeHdr hdr) i) (hlen : hdr.size ≤ buflen) :
    decodeHdr buf buflen = some (hdr, hdr.size) := by
  have hlct : ((hdr.first &&& 0xf0) >>> 4).toNat = hdr.lct :=
    (first_byte hdr.lct hv.lct_lt hdr.lcr hv.lcr_lt).1
  have hlcr : (hdr.first &&& 0xf).toNat = hdr.lcr :=
    (first_byte hdr.lct hv.lct_lt hdr.lcr hv.lcr_lt).2
  have hsecond : _ ∧ _ ∧ (hdr.second &&& 0x3f).toNat = hdr.msgLen :=
    second_byte hdr.broadcast hdr.pathMsg hdr.msgLen hv.msgLen_lt
  obtain ⟨hbroadcast, hpath, hmsgLen⟩ := hsecond
  have hthird := buf_third hbuf hv.lct_lt
  rw [and_nibble] at hthird
  obtain ⟨hsomt, heomt, hseqno, hcrc⟩ := third_byte hdr.somt hdr.eomt hdr.seqno
    ((headerCrc4 buf (hdr.size * 2 - 1)).toNat % 16) (Nat.mod_lt _ (by decide))
  rw [← Hdr.third, ← hthird] at hsomt heomt hseqno hcrc
  rw [← and_nibble] at hcrc
  rw [← Hdr.second, ← buf_second hbuf] at hbroadcast hpath
  rw [← buf_second hbuf] at hmsgLen
  rw [← buf_first hbuf] at hlct hlcr
  have hnonzero : buf 0 ≠ 0 := by
    intro hzero
    rw [hzero] at hlct
    exact absurd hlct.symm (Nat.pos_iff_ne_zero.1 hv.lct_pos)
  have hrad : (fun i => if i < hdr.lct / 2 then buf (1 + i) else 0) = hdr.rad := by
    funext i
    split_ifs with hi
    · exact buf_rad hbuf hi
    · exact (hv.rad i (Nat.le_of_not_lt hi)).symm
  unfold decodeHdr
  unfold Hdr.size at hlen hcrc ⊢
  have hidx : 1 + hdr.lct / 2 + 1 = 2 + hdr.lct / 2 := by omega
  have hlast : 3 + hdr.lct / 2 - 1 = 2 + hdr.lct / 2 := by omega
  rw [if_neg hnonzero]
  simp only [hlct, hlast, hcrc, hlcr, hrad, hbroadcast, hpath, hmsgLen, hidx, hsomt, heomt, hseqno,
    Nat.not_lt.2 hlen, if_false, ne_eq, not_true]
  rw [show 1 + hdr.lct / 2 + 2 = 3 + hdr.lct / 2 by omega]

end KmsDrm.DpMst
