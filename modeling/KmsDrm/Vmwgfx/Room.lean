import KmsDrm.Vmwgfx.Verifiers

/-!
# What room the verifiers need

For each verifier, the exact condition on a command under which all its accesses lie between the
header and a limit, whatever the lookups answer. Most conditions are a number of bytes: the end of
the last field that is read. Where the contents of the command make the verifier stop early, fewer
bytes are enough.

## Main results

* `Vmwgfx.Verifier.safe_iff` — a verifier stays below the limit if and only if it has room.

## Implementation notes

The limit is the end of the command or of the buffer, whichever comes first, relative to the header;
so `12 ≤ lim` is room for the header and one word.
-/

namespace KmsDrm.Vmwgfx

open Lib

variable {α γ : Type} {lim : ℤ} {m : Buffer}

/-! ## Accesses of the primitives -/

section Primitives

variable (t : ResType) (off : ℤ) (dev : Device) (id : ℕ) (k : Unit → Check γ)

/-- A result accesses nothing. -/
@[simp] lemma safe_pure (a : α) : (pure a : Check α).Safe lim m ↔ True := Iff.rfl

/-- A result hands over to what follows. -/
@[simp] lemma safe_pure_bind (a : α) (k : α → Check γ) :
    ((pure a : Check α) >>= k).Safe lim m ↔ (k a).Safe lim m := Iff.rfl

/-- A fault accesses nothing. -/
@[simp] lemma safe_fail (e : Fault) : (Prog.fail e : Check α).Safe lim m ↔ True := Iff.rfl

/-- A rejection accesses nothing. -/
@[simp] lemma safe_reject : (reject : Check α).Safe lim m ↔ True := Iff.rfl

/-- Nothing follows a rejection. -/
@[simp] lemma safe_reject_bind (k : α → Check γ) :
    ((reject : Check α) >>= k).Safe lim m ↔ True := Iff.rfl

/-- A word that is read lies below the limit, and what follows gets it. -/
@[simp] lemma safe_u32_bind (k : ℕ → Check γ) :
    (u32 off >>= k).Safe lim m ↔
      (0 ≤ off ∧ off + 4 ≤ lim) ∧ (k (u32At m off)).Safe lim m := Iff.rfl

/-- The bytes that are written lie below the limit. -/
@[simp] lemma safe_store (bytes : List (BitVec 8)) :
    (store off bytes).Safe lim m ↔ 0 ≤ off ∧ off + bytes.length ≤ lim := and_iff_left trivial

/-- What follows a write finds the bytes. -/
@[simp] lemma safe_store_bind (bytes : List (BitVec 8)) :
    (store off bytes >>= k).Safe lim m ↔
      (0 ≤ off ∧ off + bytes.length ≤ lim) ∧ (k ()).Safe lim (m.write off bytes) := Iff.rfl

/-- The bytes that are copied lie below the limit. -/
@[simp] lemma safe_copyFrom_bind (len : ℕ) :
    (copyFrom off len >>= k).Safe lim m ↔
      (0 ≤ off ∧ off + len ≤ lim) ∧ (k ()).Safe lim m := Iff.rfl

/-- What follows a lookup is safe for every answer. -/
@[simp] lemma safe_ask_bind (k : ℤ → Check γ) :
    (ask >>= k).Safe lim m ↔ ∀ i, (k i).Safe lim m := Iff.rfl

/-- The branch that is taken is safe. -/
@[simp] lemma safe_ite {c : Prop} [Decidable c] (p q : Check α) :
    (if c then p else q).Safe lim m ↔ (c → p.Safe lim m) ∧ (¬ c → q.Safe lim m) := by
  by_cases hc : c <;> simp [hc]

/-- The branch that is taken is safe with what follows it. -/
@[simp] lemma safe_ite_bind {c : Prop} [Decidable c] (p q : Check α) (k : α → Check γ) :
    ((if c then p else q) >>= k).Safe lim m ↔
      (c → (p >>= k).Safe lim m) ∧ (¬ c → (q >>= k).Safe lim m) := by
  by_cases hc : c <;> simp [hc]

/-- A call accesses nothing. -/
@[simp] lemma safe_call : call.Safe lim m ↔ True := by
  refine iff_true_intro fun i => ?_
  by_cases hi : i = 0 <;> simp [hi, Prog.Safe]

/-- What follows a call is safe, as the call may succeed. -/
@[simp] lemma safe_call_bind : (call >>= k).Safe lim m ↔ (k ()).Safe lim m := by
  constructor
  · intro h
    exact h 0
  · intro h i
    change (Prog.bind (if i = 0 then .ret () else .fail (.errno i)) k).Safe lim m
    split
    · exact h
    · trivial

/-- The check of a resource reads its id. An invalid one is passed over, unless it names a context.
-/
@[simp] lemma safe_cmdResCheck_bind (k : Bool → Check γ) :
    (cmdResCheck t off >>= k).Safe lim m ↔
      (0 ≤ off ∧ off + 4 ≤ lim) ∧
        (u32At m off = invalidId → t ≠ .context → (k false).Safe lim m) ∧
        (u32At m off ≠ invalidId → (k true).Safe lim m) := by
  unfold cmdResCheck
  by_cases hid : u32At m off = invalidId <;> by_cases ht : t = .context <;>
    simp [hid, ht, Prog.bind_bind]

/-- What follows the check of a surface is always reached. -/
@[simp high] lemma safe_surface_bind (k : Check γ) :
    (cmdResCheck .surface off >>= fun _ => k).Safe lim m ↔
      (0 ≤ off ∧ off + 4 ≤ lim) ∧ k.Safe lim m := by
  by_cases hid : u32At m off = invalidId <;> simp [hid]

/-- What follows the check of a context is reached with a valid id. -/
@[simp high] lemma safe_context_bind (k : Check γ) :
    (cmdResCheck .context off >>= fun _ => k).Safe lim m ↔
      (0 ≤ off ∧ off + 4 ≤ lim) ∧ (u32At m off ≠ invalidId → k.Safe lim m) := by
  simp

/-- The check of one resource reads its id. -/
@[simp] lemma safe_oneResCheck : (oneResCheck t off).Safe lim m ↔ 0 ≤ off ∧ off + 4 ≤ lim := by
  simp [oneResCheck]

/-- What follows is reached, for a context with a valid id. -/
@[simp] lemma safe_oneResCheck_bind :
    (oneResCheck t off >>= k).Safe lim m ↔
      (0 ≤ off ∧ off + 4 ≤ lim) ∧
        ((t = .context → u32At m off ≠ invalidId) → (k ()).Safe lim m) := by
  by_cases hid : u32At m off = invalidId <;> by_cases ht : t = .context <;>
    simp [oneResCheck, hid, ht, Prog.bind_bind]

/-- The id of the context is the first word of the body. -/
@[simp] lemma safe_cmdCidCheck_bind :
    (cmdCidCheck >>= k).Safe lim m ↔
      12 ≤ lim ∧ (u32At m (body 0) ≠ invalidId → (k ()).Safe lim m) := by
  simp [cmdCidCheck, body]

/-- The translation of a pointer reads the id of the buffer object. -/
@[simp] lemma safe_translateMobPtr :
    (translateMobPtr off).Safe lim m ↔ 0 ≤ off ∧ off + 4 ≤ lim := by
  simp [translateMobPtr]

/-- What follows the translation may be reached. -/
@[simp] lemma safe_translateMobPtr_bind :
    (translateMobPtr off >>= k).Safe lim m ↔ (0 ≤ off ∧ off + 4 ≤ lim) ∧ (k ()).Safe lim m := by
  simp [translateMobPtr, Prog.bind_bind]

/-- Both translations read the same. -/
@[simp] lemma translateGuestPtr_eq : translateGuestPtr off = translateMobPtr off := rfl

/-- The check for a context of the device accesses nothing. -/
@[simp] lemma safe_needDxContext : (needDxContext dev).Safe lim m ↔ True := by
  simp [needDxContext]

/-- It is passed with such a context. -/
@[simp] lemma safe_needDxContext_bind :
    (needDxContext dev >>= k).Safe lim m ↔ (dev.dxContext = true → (k ()).Safe lim m) := by
  simp [needDxContext]

/-- The check of an id of a table accesses nothing. -/
@[simp] lemma safe_cotableNotify : (cotableNotify id).Safe lim m ↔ True := by
  simp [cotableNotify]

/-- It is passed by the ids that a table may have. -/
@[simp] lemma safe_cotableNotify_bind :
    (cotableNotify id >>= k).Safe lim m ↔ (id < 65533 → (k ()).Safe lim m) := by
  simp [cotableNotify]

end Primitives

/-! ## Returns of the rounds -/

section Returns

variable {m' : Buffer}

/-- A result is returned, and the buffer is unchanged. -/
@[simp] lemma returns_pure (a b : α) :
    (pure a : Check α).Returns m b m' ↔ b = a ∧ m' = m := Iff.rfl

/-- A rejection does not return. -/
@[simp] lemma returns_reject (b : α) : (reject : Check α).Returns m b m' ↔ False := Iff.rfl

/-- The word is returned, and the buffer is unchanged. -/
@[simp] lemma returns_u32 (off : ℤ) (a : ℕ) :
    (u32 off).Returns m a m' ↔ a = u32At m off ∧ m' = m := Iff.rfl

/-- A call leaves the buffer as it is. -/
@[simp] lemma returns_call (a : Unit) : call.Returns m a m' ↔ m' = m := by
  constructor
  · rintro ⟨i, hi⟩
    by_cases h : i = 0
    · simp only [if_pos h] at hi
      exact hi.2
    · simp only [if_neg h] at hi
      exact hi.elim
  · intro h
    exact ⟨0, rfl, h⟩

/-- The branch that is taken returns. -/
@[simp] lemma returns_ite {c : Prop} [Decidable c] (p q : Check α) (a : α) :
    (if c then p else q).Returns m a m' ↔ (c ∧ p.Returns m a m') ∨ (¬ c ∧ q.Returns m a m') := by
  by_cases hc : c <;> simp [hc]

/-- The check of a resource returns, for a context with a valid id. -/
@[simp] lemma returns_oneResCheck (t : ResType) (off : ℤ) (a : Unit) :
    (oneResCheck t off).Returns m a m' ↔ m' = m ∧ (t = .context → u32At m off ≠ invalidId) := by
  by_cases hid : u32At m off = invalidId <;> by_cases ht : t = .context <;>
    simp [oneResCheck, cmdResCheck, Prog.returns_bind, hid, ht]

/-- Adding the binding of a view may succeed and writes nothing. -/
lemma returns_viewBindingAdd (viewIds : ℤ) (i : ℕ) (a : Unit) :
    (viewBindingAdd viewIds i).Returns m a m' ↔ m' = m := by
  by_cases hid : u32At m (viewIds + 4 * i) = invalidId <;>
    simp [viewBindingAdd, Prog.returns_bind, hid]

/-- So does a round over the buffers. -/
lemma returns_bufferRound (i : ℕ) (a : Unit) : (bufferRound i).Returns m a m' ↔ m' = m := by
  simp [bufferRound, Prog.returns_bind]

/-- A round over the texture states returns, unless it binds to an illegal unit. -/
lemma returns_texStateRound (dev : Device) (i : ℕ) (a : Unit) :
    (texStateRound dev i).Returns m a m' ↔
      m' = m ∧ (u32At m (12 + 12 * i + 4) = 1 → u32At m (12 + 12 * i) < 32) := by
  by_cases hname : u32At m (12 + 12 * i + 4) = 1 <;>
    by_cases hstage : u32At m (12 + 12 * i) < 32 <;> cases hmob : dev.hasMob <;>
      simp [texStateRound, Prog.returns_bind, hname, hmob]

end Returns

/-! ## Arrays -/

/-- The entries of an array lie below the limit if the last one does. -/
lemma entries_below {P : ℕ → Prop} (n : ℕ) (lim start step : ℤ) (hstep : 0 ≤ step)
    (hP : ∀ i, P i ↔ start + step * (i : ℤ) ≤ lim) :
    (∀ i < n, P i) ↔ (n ≠ 0 → start + step * ((n : ℤ) - 1) ≤ lim) := by
  constructor
  · intro h hn
    have hlast := (hP (n - 1)).1 (h (n - 1) (by omega))
    rwa [show ((n - 1 : ℕ) : ℤ) = (n : ℤ) - 1 by omega] at hlast
  · intro h i hi
    have hle : step * (i : ℤ) ≤ step * ((n : ℤ) - 1) :=
      Int.mul_le_mul_of_nonneg_left (by omega) hstep
    exact (hP i).2 (by omega)

/-- The check of a surface writes nothing. -/
lemma surface_readOnly (off : ℤ) : (oneResCheck .surface off).ReadOnly :=
  fun _ _ _ h => ((returns_oneResCheck .surface off _).1 h).1

/-- The check of a surface may succeed. -/
lemma surface_passes (off : ℤ) : (oneResCheck .surface off).Passes m :=
  ⟨(), (returns_oneResCheck .surface off ()).2 ⟨rfl, fun h => by cases h⟩⟩

/-- The ids of the surfaces in an array lie below the limit if the last one does. -/
lemma surfaces_below (start step : ℤ) (hstart : 0 ≤ start) (hstep : 0 ≤ step) (n : ℕ) :
    (∀ i < n, (oneResCheck .surface (start + step * (i : ℤ))).Safe lim m) ↔
      (n ≠ 0 → start + 4 + step * ((n : ℤ) - 1) ≤ lim) := by
  refine entries_below n lim (start + 4) step hstep fun i => ?_
  have : 0 ≤ step * (i : ℤ) := Int.mul_nonneg hstep (by omega)
  rw [safe_oneResCheck]
  constructor <;> intro h <;> omega

/-- The loop over the buffers reads up to the last one. -/
lemma safe_buffers (n : ℕ) :
    (Prog.loop bufferRound n 0).Safe lim m ↔ (n ≠ 0 → 12 + 12 * (n : ℤ) ≤ lim) := by
  rw [Prog.safe_loop_of_passes]
  · refine (entries_below n lim 24 12 (by decide) fun i => ?_).trans ?_
    · simp only [bufferRound, safe_oneResCheck_bind, safe_u32_bind]
      constructor <;> intro h
      · have := h.2 (fun h => by cases h)
        omega
      · exact ⟨by omega, fun _ => ⟨by omega, by omega, trivial⟩⟩
    · constructor <;> intro h hn <;> have := h hn <;> omega
  · intro j m a m' h
    exact (returns_bufferRound j a).1 h
  · intro j
    exact ⟨(), (returns_bufferRound j ()).2 rfl⟩

/-- Adding the binding of a view writes nothing. -/
lemma viewBinding_readOnly (viewIds : ℤ) (i : ℕ) : (viewBindingAdd viewIds i).ReadOnly :=
  fun _ a _ h => (returns_viewBindingAdd viewIds i a).1 h

/-- Adding the binding of a view may succeed. -/
lemma viewBinding_passes (viewIds : ℤ) (i : ℕ) : (viewBindingAdd viewIds i).Passes m :=
  ⟨(), (returns_viewBindingAdd viewIds i ()).2 rfl⟩

/-- The ids of the views lie below the limit if the last one does. -/
lemma viewBindings_below (viewIds : ℤ) (h0 : 0 ≤ viewIds) (n : ℕ) :
    (∀ i < n, (viewBindingAdd viewIds i).Safe lim m) ↔ (n ≠ 0 → viewIds + 4 * (n : ℤ) ≤ lim) := by
  refine (entries_below n lim (viewIds + 4) 4 (by decide) fun i => ?_).trans ?_
  · simp only [viewBindingAdd, safe_u32_bind, safe_ite, safe_pure, safe_call, implies_true,
      and_true]
    constructor <;> intro h <;> omega
  · constructor <;> intro h hn <;> have := h hn <;> omega

/-- The bindings of the views are read with a context of the device. -/
lemma safe_viewBindingsAdd (dev : Device) (viewIds : ℤ) (h0 : 0 ≤ viewIds) (n : ℕ) :
    (viewBindingsAdd dev viewIds n).Safe lim m ↔
      (dev.dxContext = true → n ≠ 0 → viewIds + 4 * (n : ℤ) ≤ lim) := by
  simp only [viewBindingsAdd, safe_ite, safe_reject_bind, implies_true, true_and,
    Bool.not_eq_false, Prog.safe_loop_of_passes (viewBinding_readOnly viewIds)
    (viewBinding_passes viewIds), viewBindings_below viewIds h0]

/-- What follows the bindings may be reached. -/
lemma safe_viewBindingsAdd_bind (dev : Device) (viewIds : ℤ) (h0 : 0 ≤ viewIds) (n : ℕ)
    (k : Unit → Check γ) :
    (viewBindingsAdd dev viewIds n >>= k).Safe lim m ↔
      (dev.dxContext = true → (n ≠ 0 → viewIds + 4 * (n : ℤ) ≤ lim) ∧ (k ()).Safe lim m) := by
  simp only [viewBindingsAdd, Prog.bind_bind, safe_ite_bind, safe_reject_bind, implies_true,
    true_and, Bool.not_eq_false, Prog.safe_loop_bind (viewBinding_readOnly viewIds)
    (viewBinding_passes viewIds), viewBindings_below viewIds h0]

/-! ## Surface DMA, drawing and texture states -/

/-- The memory after `suffix->maximumOffset` was cut to the size of the buffer object. -/
def clamped (m : Buffer) (loc : ℤ) (boSize : ℕ) : Buffer :=
  if u32At m loc > boSize then m.write loc (wordBytes boSize) else m

/-- Room for `vmw_kms_cursor_snoop`, where the surface may be a cursor: for the face, for the
mipmap, and for a copy box where the command is large enough for one. -/
def SnoopRoom (m : Buffer) (lim : ℤ) : Prop :=
  28 ≤ lim ∧ (u32At m (body 4) = 0 → 32 ≤ lim ∧
    (u32At m (body 5) = 0 → 64 ≤ u32At m 4 → 72 ≤ lim))

/-- Room for `vmw_cmd_dma`: for the suffix, which ends where `header->size` says and has its own
size as the first word; for the pointer to the guest's memory and for the surface; and for what is
read of a cursor, after the suffix was written. The number of pages is that of the buffer object
that the command names. -/
def DmaRoom (m : Buffer) (lim : ℤ) : Prop :=
  8 ≤ lim ∧ 4 ≤ u32At m 4 ∧ u32At m 4 ≤ lim ∧
    (u32At m ((u32At m 4 : ℤ) - 4) = 12 → 16 ≤ lim ∧
      ∀ numPages : ℕ, u32At m (body 1) ≤ numPages * 4096 % 2 ^ 32 →
        u32At m 4 + 4 ≤ lim ∧ 24 ≤ lim ∧
          SnoopRoom (clamped m (u32At m 4) (numPages * 4096 % 2 ^ 32 - u32At m (body 1))) lim)

/-- Room for `vmw_cmd_draw`: for the body and, as far as the counts are accepted, for the vertex
declarations up to the last surface and the primitive ranges up to the last surface. -/
def DrawRoom (m : Buffer) (lim : ℤ) : Prop :=
  12 ≤ lim ∧
    (u32At m (body 0) ≠ invalidId → 16 ≤ lim ∧
      (u32At m (body 1) ≤ maxVertexDecls (u32At m 4) →
        (u32At m (body 1) ≠ 0 → 36 * (u32At m (body 1) : ℤ) + 4 ≤ lim) ∧ 20 ≤ lim ∧
          (u32At m (body 2) ≤ maxRanges (u32At m 4) (u32At m (body 1)) → u32At m (body 2) ≠ 0 →
            36 * (u32At m (body 1) : ℤ) + 28 * u32At m (body 2) + 4 ≤ lim)))

/-- A texture state that is no bound texture, or one whose unit is legal. -/
def TexStateOk (m : Buffer) (i : ℕ) : Prop :=
  u32At m (12 + 12 * i + 4) = 1 → u32At m (12 + 12 * i) < 32

/-- Room for `vmw_cmd_tex_state`: for the name of every texture state that starts before the end of
the command and, where it binds a texture, for the whole state; up to the first illegal one. -/
def TexStateRoom (m : Buffer) (lim : ℤ) : Prop :=
  12 ≤ lim ∧
    (u32At m (body 0) ≠ invalidId →
      ∀ i < (u32At m 4 + 7) / 12, (∀ j < i, TexStateOk m j) →
        20 + 12 * (i : ℤ) ≤ lim ∧
          (u32At m (12 + 12 * i + 4) = 1 → u32At m (12 + 12 * i) < 32 →
            24 + 12 * (i : ℤ) ≤ lim))

/-- The largest offset is read and cut in its place. -/
lemma safe_clampMaximumOffset_bind (loc : ℤ) (boSize : ℕ) (k : Unit → Check γ) :
    (clampMaximumOffset loc boSize >>= k).Safe lim m ↔
      (0 ≤ loc ∧ loc + 4 ≤ lim) ∧ (k ()).Safe lim (clamped m loc boSize) := by
  unfold clampMaximumOffset clamped
  by_cases h : u32At m loc > boSize <;> simp [h, Prog.bind_bind, wordBytes]

/-- A copy box has nine words. -/
lemma safe_readBox_bind (box : ℤ) (h : 0 ≤ box) (k : List ℕ → Check γ)
    (hk : ∀ l, box + 36 ≤ lim → (k l).Safe lim m) :
    (readBox box >>= k).Safe lim m ↔ box + 36 ≤ lim := by
  simp only [readBox, Prog.bind_bind, safe_u32_bind]
  constructor
  · intro hsafe
    omega
  · intro hle
    exact ⟨by omega, by omega, by omega, by omega, by omega, by omega, by omega, by omega,
      by omega, hk _ hle⟩

/-- The copy of a cursor reads the pitch. -/
lemma safe_cursorCopy (h : 20 ≤ lim) (offset boxCount : ℕ) (box : List ℕ) :
    (cursorCopy offset boxCount box).Safe lim m := by
  unfold cursorCopy
  split
  · simp [body, h]
  · trivial

/-- What the cursor needs. -/
lemma safe_kmsCursorSnoop : kmsCursorSnoop.Safe lim m ↔ SnoopRoom m lim := by
  have hbox : ∀ offset boxCount,
      (readBox (body 7) >>= cursorCopy offset boxCount).Safe lim m ↔ 72 ≤ lim := by
    intro offset boxCount
    refine safe_readBox_bind (body 7) (by decide) _ fun l hl => safe_cursorCopy ?_ _ _ _
    simp only [body] at hl
    omega
  simp only [kmsCursorSnoop, SnoopRoom, safe_ask_bind, safe_ite, safe_u32_bind, safe_pure, hbox]
  simp only [body]
  constructor
  · -- A surface may have a snooper.
    intro h
    have hsnoop := (h 1).2 (by decide)
    omega
  · intro h i
    simp only [true_and, implies_true] at h ⊢
    omega

/-- What a DMA needs. -/
lemma safe_cmdDma : cmdDma.Safe lim m ↔ DmaRoom m lim := by
  have hsuffix : (8 : ℤ) + u32At m 4 - 12 = u32At m 4 - 4 := by omega
  have hmax : (u32At m 4 : ℤ) - 4 + 4 = u32At m 4 := by omega
  unfold cmdDma DmaRoom
  simp only [hsuffix, hmax, safe_u32_bind, safe_ite, safe_reject_bind, translateGuestPtr_eq,
    safe_translateMobPtr_bind,
    safe_ask_bind, safe_clampMaximumOffset_bind, safe_surface_bind, safe_kmsCursorSnoop,
    not_not, implies_true, true_and, not_lt, body]
  constructor
  · rintro ⟨h1, h2, h3⟩
    refine ⟨by omega, by omega, by omega, fun hsize => ⟨?_, fun numPages hpages => ?_⟩⟩
    · have := ((h3 hsize).2 0).1
      omega
    · obtain ⟨h4, h5, h6⟩ := ((h3 hsize).2 numPages).2 hpages
      exact ⟨by omega, by omega, h6⟩
  · rintro ⟨h1, h2, h3, h4⟩
    refine ⟨by omega, by omega, fun hsize => ⟨?_, fun i => ⟨?_, fun hpages => ?_⟩⟩⟩
    · omega
    · omega
    · obtain ⟨h5, h6, h7⟩ := (h4 hsize).2 i.toNat hpages
      exact ⟨by omega, by omega, h7⟩

/-- What a draw needs: the loops over the declarations and the ranges come one after the other. -/
lemma safe_cmdDraw : cmdDraw.Safe lim m ↔ DrawRoom m lim := by
  have hranges : ∀ i : ℕ, (20 : ℤ) + 36 * u32At m (body 1) + 28 * i + 8 =
      28 + 36 * u32At m (body 1) + 28 * i := by
    intro i
    omega
  have hdecls : ∀ i : ℕ, (20 : ℤ) + 36 * i + 16 = 36 + 36 * i := by
    intro i
    omega
  unfold cmdDraw DrawRoom
  simp only [safe_cmdCidCheck_bind, safe_u32_bind, safe_ite, hdecls, hranges]
  rw [Prog.safe_loop_bind (fun j => surface_readOnly _) (fun j => surface_passes _),
    surfaces_below 36 36 (by decide) (by decide)]
  simp only [safe_u32_bind, safe_ite, safe_reject_bind, implies_true, true_and]
  rw [Prog.safe_loop_of_passes (fun j => surface_readOnly _) (fun j => surface_passes _),
    surfaces_below _ 28 (by omega) (by decide)]
  simp only [body]
  omega

/-- What the texture states need: the loop ends with the first illegal one. -/
lemma safe_cmdTexState (dev : Device) : (cmdTexState dev).Safe lim m ↔ TexStateRoom m lim := by
  have hround : ∀ i : ℕ, (texStateRound dev i).Safe lim m ↔
      20 + 12 * (i : ℤ) ≤ lim ∧
        (u32At m (12 + 12 * i + 4) = 1 → u32At m (12 + 12 * i) < 32 → 24 + 12 * (i : ℤ) ≤ lim) := by
    intro i
    simp only [texStateRound, safe_u32_bind, safe_ite, safe_pure, safe_reject_bind,
      safe_oneResCheck_bind, implies_true, true_and, and_true]
    omega
  have hpasses : ∀ i : ℕ, (texStateRound dev i).Passes m ↔ TexStateOk m i := by
    intro i
    exact ⟨fun ⟨a, ha⟩ => ((returns_texStateRound dev i a).1 ha).2,
      fun h => ⟨(), (returns_texStateRound dev i ()).2 ⟨rfl, h⟩⟩⟩
  unfold cmdTexState TexStateRoom
  simp only [safe_u32_bind, safe_cmdCidCheck_bind]
  rw [Prog.safe_loop fun j m a m' h => ((returns_texStateRound dev j a).1 h).1]
  simp only [Nat.zero_add, hround, hpasses]
  constructor
  · intro h
    exact h.2
  · intro h
    exact ⟨by omega, h⟩

/-! ## The table -/

/-- Room for a verifier: the bytes up to the end of the last field that it reads, as far as the
contents of the command let it go. A word of the body is named by its number. -/
def Verifier.Room (dev : Device) (m : Buffer) (lim : ℤ) : Verifier → Prop
  | .invalid | .ok | .dxCidCheck => True
  | .cidCheck | .bltSurfScreenCheck | .presentCheck | .beginGbQuery | .setShaderConst
  | .updateGbImage | .updateGbSurface | .readbackGbImage | .readbackGbSurface
  | .invalidateGbImage | .invalidateGbSurface
  | .dxCheckSubresource | .dxClearRendertargetView | .dxGenmips => 12 ≤ lim
  | .bufferCopyCheck | .bindGbSurface | .dxBindQuery | .dxClearDepthstencilView => 16 ≤ lim
  | .predCopyCheck | .bindGbShader => 20 ≤ lim
  | .surfaceCopyCheck | .stretchBltCheck => 24 ≤ lim
  | .dxTransferFromBuffer => 28 ≤ lim
  | .dxSoDefine | .dxDestroyShader => dev.dxContext = true → 12 ≤ lim
  | .dxDefineQuery | .dxSetShader => dev.dxContext = true → 16 ≤ lim
  | .dxSetIndexBuffer => dev.dxContext = true → 20 ≤ lim
  | .dxSetSingleConstantBuffer => dev.dxContext = true → 28 ≤ lim
  | .dxViewRemove => 4 ≤ lim ∧ (dev.dxContext = true → 12 ≤ lim)
  | .setRenderTargetCheck =>
    16 ≤ lim ∧ (u32At m (body 1) < 10 → u32At m (body 0) ≠ invalidId → 20 ≤ lim)
  | .shaderDefine =>
    12 ≤ lim ∧ (u32At m (body 0) ≠ invalidId → dev.hasMob = true →
      20 ≤ lim ∧ (shaderIdOk (u32At m (body 1)) (u32At m (body 2)) →
        20 + subSize (u32At m 4) 12 ≤ lim))
  | .shaderDestroy => 12 ≤ lim ∧ (u32At m (body 0) ≠ invalidId → dev.hasMob = true → 20 ≤ lim)
  | .setShader =>
    16 ≤ lim ∧
      (u32At m (body 1) < 3 → u32At m (body 0) ≠ invalidId → dev.hasMob = true → 20 ≤ lim)
  | .beginQuery => 12 ≤ lim ∧ (dev.hasMob = true → 16 ≤ lim)
  | .endQuery | .waitQuery =>
    12 ≤ lim ∧ (dev.hasMob = true → 24 ≤ lim) ∧ (u32At m (body 0) ≠ invalidId → 20 ≤ lim)
  | .endGbQuery | .waitGbQuery => 12 ≤ lim ∧ (u32At m (body 0) ≠ invalidId → 20 ≤ lim)
  | .dxDefineShader => dev.dxContext = true → 12 ≤ lim ∧ (u32At m (body 0) < 65533 → 16 ≤ lim)
  | .dxBindShader =>
    12 ≤ lim ∧ ((u32At m (body 0) = invalidId → dev.dxContext = true) →
      16 ≤ lim ∧ (shaderIdOk (u32At m (body 1)) 0 → 24 ≤ lim))
  | .dxViewDefine =>
    dev.dxContext = true → 4 ≤ lim ∧ (viewCmdToType (u32At m 0) ≠ .max → 16 ≤ lim ∧
      (u32At m (body 1) ≠ invalidId → u32At m (body 0) < 65533 →
        u32At m 4 = viewDefineSizes (viewCmdToType (u32At m 0)) → u32At m 4 + 8 ≤ lim))
  | .dxSetShaderRes =>
    12 ≤ lim ∧ (u32At m (body 0) + numSrViews (u32At m 4) ≤ 128 → 16 ≤ lim ∧
      (u32At m (body 1) < 4 → dev.dxContext = true → numSrViews (u32At m 4) ≠ 0 →
        16 + 4 * (numSrViews (u32At m 4) : ℤ) ≤ lim))
  | .dxSetVertexBuffers =>
    dev.dxContext = true → 12 ≤ lim ∧
      ((numBuffers (u32At m 4) % 2 ^ 64 + u32At m (body 0)) % 2 ^ 64 ≤ 32 →
        0 < numBuffers (u32At m 4) → 12 + 12 * numBuffers (u32At m 4) ≤ lim)
  | .dxSetSoTargets =>
    dev.dxContext = true → 8 ≤ lim ∧
      (numBuffers (u32At m 4) ≤ 4 → 0 < numBuffers (u32At m 4) →
        12 + 12 * numBuffers (u32At m 4) ≤ lim)
  | .dxSetRendertargets =>
    8 ≤ lim ∧ (numRtViews (u32At m 4) ≤ 8 → dev.dxContext = true →
      12 ≤ lim ∧ (numRtViews (u32At m 4) ≠ 0 → 12 + 4 * (numRtViews (u32At m 4) : ℤ) ≤ lim))
  | .dma => DmaRoom m lim
  | .draw => DrawRoom m lim
  | .texState => TexStateRoom m lim

/-! ## The verifiers -/

section Verifiers

variable (dev : Device)

/-- What the setting of shader resources needs. -/
lemma safe_cmdDxSetShaderRes :
    (cmdDxSetShaderRes dev).Safe lim m ↔ Verifier.dxSetShaderRes.Room dev m lim := by
  unfold cmdDxSetShaderRes Verifier.Room
  simp only [safe_u32_bind, safe_ite, safe_reject_bind,
    safe_viewBindingsAdd dev (body 2) (by decide)]
  simp only [body]
  grind

/-- What the setting of render targets needs. -/
lemma safe_cmdDxSetRendertargets :
    (cmdDxSetRendertargets dev).Safe lim m ↔ Verifier.dxSetRendertargets.Room dev m lim := by
  unfold cmdDxSetRendertargets Verifier.Room
  simp only [safe_u32_bind, safe_ite, safe_reject_bind,
    safe_viewBindingsAdd_bind dev (body 0) (by decide),
    safe_viewBindingsAdd dev (body 1) (by decide)]
  simp only [body]
  grind

/-- What the setting of vertex buffers needs. -/
lemma safe_cmdDxSetVertexBuffers :
    (cmdDxSetVertexBuffers dev).Safe lim m ↔ Verifier.dxSetVertexBuffers.Room dev m lim := by
  unfold cmdDxSetVertexBuffers Verifier.Room
  simp only [safe_needDxContext_bind, safe_u32_bind, safe_ite, safe_reject_bind, implies_true,
    true_and, safe_buffers]
  refine imp_congr_right fun _ => ?_
  simp only [body]
  omega

/-- What the setting of stream output targets needs. -/
lemma safe_cmdDxSetSoTargets :
    (cmdDxSetSoTargets dev).Safe lim m ↔ Verifier.dxSetSoTargets.Room dev m lim := by
  unfold cmdDxSetSoTargets Verifier.Room
  simp only [safe_needDxContext_bind, safe_u32_bind, safe_ite, safe_reject_bind, implies_true,
    true_and, safe_buffers]
  refine imp_congr_right fun _ => ?_
  omega

/-- A view is copied if its size and its id are right. -/
lemma safe_viewAdd (viewType : ViewType) (userKey headerSize : ℕ) :
    (viewAdd viewType userKey (headerSize + 8)).Safe lim m ↔
      (headerSize = viewDefineSizes viewType → viewIdOk userKey viewType →
        headerSize + 8 ≤ lim) := by
  simp [viewAdd]

/-- What the definition of a view needs. -/
lemma safe_cmdDxViewDefine :
    (cmdDxViewDefine dev).Safe lim m ↔ Verifier.dxViewDefine.Room dev m lim := by
  unfold cmdDxViewDefine Verifier.Room
  simp only [body, safe_needDxContext_bind, safe_u32_bind, safe_ite, safe_cmdResCheck_bind,
    safe_cotableNotify_bind, safe_viewAdd]
  constructor
  · intro h hctx
    obtain ⟨h1, -, h2⟩ := h hctx
    refine ⟨by omega, fun hmax => ?_⟩
    obtain ⟨h3, -, h4⟩ := h2 hmax
    refine ⟨by omega, fun hsid hkey hsize => ?_⟩
    exact (((h4 hsid).2 hkey).1 trivial).2 hsize ⟨hkey, hmax⟩
  · intro h hctx
    obtain ⟨h1, h2⟩ := h hctx
    refine ⟨by omega, fun _ => trivial, fun hmax => ?_⟩
    obtain ⟨h3, h4⟩ := h2 hmax
    refine ⟨by omega,
      fun _ _ => ⟨by omega, fun _ => ⟨fun h => absurd h Bool.false_ne_true, fun _ => trivial⟩⟩,
      fun hsid => ⟨by omega, fun hkey => ⟨fun _ => ⟨by omega, fun hsize _ => ?_⟩,
        fun _ => trivial⟩⟩⟩
    exact h4 hsid hkey hsize

/-- **What the verifiers access.**  A verifier's accesses lie between the header and the limit, for
all answers of the lookups, if and only if there is room for it. -/
theorem Verifier.safe_iff (v : Verifier) : (v.check dev).Safe lim m ↔ v.Room dev m lim := by
  cases v with
  | invalid | ok => exact Iff.rfl
  | dxCidCheck => simp [check, Room, cmdDxCidCheck]
  -- One resource or view.
  | cidCheck | bltSurfScreenCheck | presentCheck | beginGbQuery | updateGbImage | updateGbSurface
  | readbackGbImage | readbackGbSurface | invalidateGbImage | invalidateGbSurface
  | dxCheckSubresource =>
    simp [check, Room, cmdCidCheck, cmdBltSurfScreenCheck, cmdPresentCheck, cmdBeginGbQuery,
      cmdUpdateGbImage, cmdUpdateGbSurface, cmdReadbackGbImage, cmdReadbackGbSurface,
      cmdInvalidateGbImage, cmdInvalidateGbSurface, cmdDxCheckSubresource, body]
  | dxClearRendertargetView | dxClearDepthstencilView | dxGenmips =>
    simp [check, Room, cmdDxClearRendertargetView, cmdDxClearDepthstencilView, cmdDxGenmips,
      viewIdCheck, viewIdValAdd, body]
  -- Two resources.
  | surfaceCopyCheck | stretchBltCheck | bufferCopyCheck | predCopyCheck | dxTransferFromBuffer =>
    simp only [check, Room, cmdSurfaceCopyCheck, cmdStretchBltCheck, cmdBufferCopyCheck,
      cmdPredCopyCheck, cmdDxTransferFromBuffer, twoSurfacesCheck, body, safe_surface_bind,
      safe_oneResCheck]
    omega
  | bindGbSurface =>
    simp only [check, Room, cmdBindGbSurface, body, safe_cmdResCheck_bind,
      safe_translateMobPtr_bind, safe_ite, safe_pure, safe_fail]
    grind
  | bindGbShader =>
    simp only [check, Room, cmdBindGbShader, body, safe_u32_bind, safe_cmdResCheck_bind,
      safe_translateMobPtr_bind, safe_ite, safe_pure, safe_fail]
    grind
  | setRenderTargetCheck =>
    simp only [check, Room, cmdSetRenderTargetCheck, body, safe_u32_bind, safe_ite,
      safe_reject_bind, safe_context_bind, safe_surface_bind, safe_pure]
    grind
  -- Shaders.
  | shaderDefine =>
    simp only [check, Room, cmdShaderDefine, compatShaderAdd, body, safe_context_bind, safe_ite,
      safe_ite_bind, safe_u32_bind, Prog.bind_bind, safe_reject_bind, safe_call_bind,
      safe_copyFrom_bind, safe_call, safe_pure]
    grind
  | shaderDestroy =>
    simp only [check, Room, cmdShaderDestroy, body, safe_context_bind, safe_ite, safe_u32_bind,
      safe_reject_bind, safe_call_bind, safe_call, safe_pure]
    grind
  | setShader =>
    simp only [check, Room, cmdSetShader, setShaderLookup, body, safe_u32_bind, safe_ite,
      safe_ite_bind, safe_reject_bind, safe_context_bind, safe_pure, safe_pure_bind,
      Prog.bind_bind, safe_ask_bind, safe_call_bind, safe_oneResCheck_bind]
    grind
  | setShaderConst =>
    simp [check, Room, cmdSetShaderConst, wordBytes, body]
    grind
  | dxSetShader =>
    simp only [check, Room, cmdDxSetShader, body, safe_needDxContext_bind, safe_u32_bind, safe_ite,
      safe_reject_bind, safe_call_bind, safe_pure]
    grind
  | dxDefineShader | dxDestroyShader =>
    simp [check, Room, cmdDxDefineShader, cmdDxDestroyShader, body]
  | dxBindShader =>
    simp only [check, Room, cmdDxBindShader, body, safe_u32_bind, safe_ite, safe_needDxContext_bind,
      safe_oneResCheck_bind, safe_reject_bind, safe_call_bind, safe_translateMobPtr]
    grind
  -- Queries.
  | beginQuery =>
    simp [check, Room, cmdBeginQuery, cmdBeginGbQuery, wordBytes, body]
    grind
  | endQuery | waitQuery =>
    simp [check, Room, cmdEndQuery, cmdWaitQuery, queryToGb, cmdEndGbQuery, cmdWaitGbQuery,
      wordBytes, body, Prog.bind_bind]
    grind
  | endGbQuery | waitGbQuery => simp [check, Room, cmdEndGbQuery, cmdWaitGbQuery, body]
  | dxDefineQuery =>
    simp only [check, Room, cmdDxDefineQuery, body, safe_needDxContext_bind, safe_u32_bind,
      safe_ite, safe_reject_bind, safe_cotableNotify]
    grind
  | dxBindQuery => simp [check, Room, cmdDxBindQuery, body]
  -- Arrays, views and buffers.
  | dma => exact safe_cmdDma
  | draw => exact safe_cmdDraw
  | texState => exact safe_cmdTexState dev
  | dxSetSingleConstantBuffer =>
    simp only [check, Room, cmdDxSetSingleConstantBuffer, body, safe_needDxContext_bind,
      safe_surface_bind, safe_u32_bind, safe_ite, safe_reject, safe_pure]
    grind
  | dxSetIndexBuffer =>
    simp only [check, Room, cmdDxSetIndexBuffer, body, safe_needDxContext_bind,
      safe_surface_bind, safe_u32_bind, safe_pure]
    grind
  | dxSetShaderRes => exact safe_cmdDxSetShaderRes dev
  | dxSetVertexBuffers => exact safe_cmdDxSetVertexBuffers dev
  | dxSetRendertargets => exact safe_cmdDxSetRendertargets dev
  | dxSetSoTargets => exact safe_cmdDxSetSoTargets dev
  | dxViewDefine => exact safe_cmdDxViewDefine dev
  | dxViewRemove => simp [check, Room, cmdDxViewRemove, body]
  | dxSoDefine =>
    simp only [check, Room, cmdDxSoDefine, body, safe_needDxContext_bind, safe_u32_bind,
      safe_cotableNotify]
    grind

end Verifiers

end KmsDrm.Vmwgfx
