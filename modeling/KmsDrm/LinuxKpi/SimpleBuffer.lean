import Mathlib

/-!
# Reading and writing a buffer at a position

`simple_read_from_buffer` and `simple_write_to_buffer` copy a part of a buffer to or from user
memory and move a position. Both return zero when they have copied something, and the read copies
from the start of the buffer to the user address plus the position, so that a sequence of reads
hands out nothing.

## Main results

* `SimpleBuffer.copies_right_iff` — when the two functions do what they should.
-/

namespace KmsDrm.SimpleBuffer

/-- User memory, and the addresses that can be accessed. -/
structure User where
  mem : ℕ → UInt8
  mapped : ℕ → Bool

def User.bytes (u : User) (addr n : ℕ) : List UInt8 := (List.range n).map fun i => u.mem (addr + i)

/-- `copyout`, which fails where an address cannot be accessed. -/
def copyout (u : User) (dst : ℕ) (bytes : List UInt8) : Option User :=
  if ∀ i < bytes.length, u.mapped (dst + i) = true then
    some { u with mem := fun p => if p < dst then u.mem p else bytes.getD (p - dst) (u.mem p) }
  else none

/-- `copyin` -/
def copyin (u : User) (src n : ℕ) : Option (List UInt8) :=
  if ∀ i < n, u.mapped (src + i) = true then some (u.bytes src n) else none

/-- What the two functions do around their copy from a position on: the value returned, the
position and what was copied to. -/
def simpleCopy {σ : Type} (copy : ℕ → ℕ → Option σ) (available count : ℕ) (ppos : ℤ) (s : σ) :
    ℤ × ℤ × σ :=
  -- `-EINVAL` and `-EFAULT`
  if ppos < 0 then (-22, ppos, s)
  else if available ≤ ppos.toNat ∨ count = 0 then (0, ppos, s)
  else
    let count := if count > available - ppos.toNat then available - ppos.toNat else count
    match copy ppos.toNat count with
    | none => (-14, ppos, s)
    | some s' => (0, ppos + count, s')

/-- `simple_read_from_buffer` -/
def simpleReadFromBuffer (dst count : ℕ) (ppos : ℤ) (buf : List UInt8) (u : User) : ℤ × ℤ × User :=
  simpleCopy (fun pos n => copyout u (dst + pos) (buf.take n)) buf.length count ppos u

/-- `simple_write_to_buffer` -/
def simpleWriteToBuffer (buf : List UInt8) (ppos : ℤ) (u : User) (src count : ℕ) :
    ℤ × ℤ × List UInt8 :=
  simpleCopy (fun pos n => (copyin u src n).map (buf.take pos ++ · ++ buf.drop (pos + n)))
    buf.length count ppos buf

/-- A read as its caller sees it: the value returned, how far the position was moved, and as many
bytes at the start of its own buffer as were returned. -/
structure Seen where
  ret : ℤ
  moved : ℤ
  bytes : List UInt8

/-- Reads one after the other, each with its address and its size: what their callers see, the
position and the memory of the user. -/
def reads (buf : List UInt8) : List (ℕ × ℕ) → ℤ → User → List Seen × ℤ × User
  | [], ppos, u => ([], ppos, u)
  | (dst, count) :: calls, ppos, u =>
    let r := simpleReadFromBuffer dst count ppos buf u
    let rest := reads buf calls r.2.1 r.2.2
    (⟨r.1, r.2.1 - ppos, r.2.2.bytes dst r.1.toNat⟩ :: rest.1, rest.2)

/-- What the callers of the read rely on: each call returns how many bytes it has copied, the
bytes put together are those of the buffer, and behind the last one a read returns zero. -/
def ReadsRight (buf : List UInt8) (calls : List (ℕ × ℕ)) (ppos : ℤ) (u : User) : Prop :=
  let r := reads buf calls ppos u
  let total := (calls.map Prod.snd).sum
  (∀ s ∈ r.1, s.ret = s.moved) ∧
    r.1.flatMap Seen.bytes = (buf.drop ppos.toNat).take total ∧
    (buf.length ≤ ppos.toNat + total →
      ∀ dst count, (simpleReadFromBuffer dst count r.2.1 buf r.2.2).1 = 0)

/-- What the callers of the write rely on. -/
def WriteRight (buf : List UInt8) (ppos : ℤ) (u : User) (src count : ℕ) : Prop :=
  let r := simpleWriteToBuffer buf ppos u src count
  r.1 = r.2.1 - ppos ∧
    r.2.2 = buf.take ppos.toNat ++ u.bytes src r.1.toNat ++ buf.drop (ppos.toNat + r.1.toNat)

variable {buf : List UInt8} {ppos : ℤ} {u : User} (hpos : 0 ≤ ppos)
include hpos

section Copy

variable {σ : Type} {copy : ℕ → ℕ → Option σ} {available count : ℕ} {s : σ}

lemma simpleCopy_nothing (h : available ≤ ppos.toNat ∨ count = 0) :
    simpleCopy copy available count ppos s = (0, ppos, s) := by
  rw [simpleCopy, if_neg (Int.not_lt.2 hpos), if_pos h]

lemma simpleCopy_moved (h : (simpleCopy copy available count ppos s).1 =
    (simpleCopy copy available count ppos s).2.1 - ppos) : available ≤ ppos.toNat ∨ count = 0 := by
  by_contra hnot
  rw [simpleCopy, if_neg (Int.not_lt.2 hpos), if_neg hnot] at h
  dsimp only at h
  split at h
  · simp at h
  · simp only at h
    split_ifs at h <;> omega

end Copy

variable {calls : List (ℕ × ℕ)}

lemma nothing_of_moved (h : ∀ s ∈ (reads buf calls ppos u).1, s.ret = s.moved) :
    ∀ c ∈ calls, buf.length ≤ ppos.toNat ∨ c.2 = 0 := by
  -- a read that returns how far it has moved the position has left it where it was
  induction calls with
  | nil => simp
  | cons c calls ih =>
    have hc := simpleCopy_moved hpos (h _ List.mem_cons_self)
    have hrest := fun s hs => h s (.tail _ hs)
    rw [simpleReadFromBuffer, simpleCopy_nothing hpos hc] at hrest
    exact List.forall_mem_cons.2 ⟨hc, ih hrest⟩

lemma reads_nothing (h : ∀ c ∈ calls, buf.length ≤ ppos.toNat ∨ c.2 = 0) :
    (∀ s ∈ (reads buf calls ppos u).1, s = ⟨0, 0, []⟩) ∧
      (reads buf calls ppos u).2 = (ppos, u) := by
  induction calls with
  | nil => simp [reads]
  | cons c calls ih =>
    obtain ⟨hc, hcalls⟩ := List.forall_mem_cons.1 h
    obtain ⟨hall, hend⟩ := ih hcalls
    simpa [reads, simpleReadFromBuffer, simpleCopy_nothing hpos hc, User.bytes, hend] using hall

/-- **Copies of a buffer.** The callers get what they rely on iff there is nothing to copy. -/
theorem copies_right_iff (calls : List (ℕ × ℕ)) (src count : ℕ) :
    (ReadsRight buf calls ppos u ↔ ∀ c ∈ calls, buf.length ≤ ppos.toNat ∨ c.2 = 0) ∧
      (WriteRight buf ppos u src count ↔ buf.length ≤ ppos.toNat ∨ count = 0) := by
  refine ⟨⟨fun h => nothing_of_moved hpos h.1, fun h => ?_⟩,
    fun h => simpleCopy_moved hpos h.1, fun h => ?_⟩
  · obtain ⟨hall, hend⟩ := reads_nothing (u := u) hpos h
    have hbytes : (reads buf calls ppos u).1.flatMap Seen.bytes = [] :=
      List.flatMap_eq_nil_iff.2 fun s hs => by rw [hall s hs]
    have htotal : buf.length ≤ ppos.toNat ∨ (calls.map Prod.snd).sum = 0 := by
      by_cases hle : buf.length ≤ ppos.toNat
      · exact .inl hle
      · refine .inr (List.sum_eq_zero_iff_forall_eq_nat.2 fun n hn => ?_)
        obtain ⟨c, hc, rfl⟩ := List.mem_map.1 hn
        exact (h c hc).resolve_left hle
    refine ⟨fun s hs => by rw [hall s hs], ?_, fun hle dst count => ?_⟩
    · rw [hbytes]
      rcases htotal with hle | hzero
      · rw [List.drop_of_length_le hle, List.take_nil]
      · rw [hzero, List.take_zero]
    · rw [hend, simpleReadFromBuffer, simpleCopy_nothing hpos (.inl (by omega))]
  · simp [WriteRight, simpleWriteToBuffer, simpleCopy_nothing hpos h, User.bytes]

omit hpos in
theorem copies_right_zeroSize :
    ReadsRight [1, 2, 3] [(0, 0)] 1 ⟨fun _ => 0, fun _ => true⟩ ∧
      WriteRight [1, 2, 3] 3 ⟨fun _ => 0, fun _ => true⟩ 0 5 :=
  ⟨(copies_right_iff (by decide) _ 0 0).1.2 (by decide),
    (copies_right_iff (by decide) [] _ _).2.2 (by decide)⟩

omit hpos in
/-- Both reads return zero, and the second one copies the first byte behind its caller's buffer. -/
theorem reads_hand_out_nothing :
    let r := reads [7, 8] [(0, 1), (0, 1)] 0 ⟨fun _ => 0, fun _ => true⟩
    r.1.map Seen.ret = [0, 0] ∧ r.1.map Seen.moved = [1, 1] ∧ r.2.2.mem 1 = 7 ∧
      ¬ ReadsRight [7, 8] [(0, 1), (0, 1)] 0 ⟨fun _ => 0, fun _ => true⟩ := by
  refine ⟨by decide, by decide, by decide, fun h => ?_⟩
  exact absurd (h.1 _ List.mem_cons_self) (by decide)

end KmsDrm.SimpleBuffer
