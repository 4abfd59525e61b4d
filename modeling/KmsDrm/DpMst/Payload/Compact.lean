import KmsDrm.DpMst.Payload.Invariant

/-!
# What an update leaves of the table of payloads

`drm_dp_update_payload_part1` marks the payloads that nothing is requested for, and removes the
marked ones by moving up what is behind them. It does not look at the payload that moves into a
removed slot, so of two marked payloads in a row one stays.

## Main results

* `DpMst.update_table_packed_iff` — when an update leaves a packed table.
-/

namespace KmsDrm.DpMst

open KmsDrm.Lib List

def Payload.marked (p : Payload) : Bool := p.payloadState = .payloadDeleteLocal

def live (l : List Payload) : List Payload := l.filter fun p => p.numSlots ≠ 0

/-- The payloads follow each other without gaps, the first one at `start`. -/
def Packed : ℤ → List Payload → Prop
  | _, [] => True
  | start, p :: l => p.startSlot = start ∧ Packed (start + p.numSlots) l

/-- No two marked payloads are next to each other. -/
def Spaced : List Payload → Prop := List.IsChain fun p q => p.marked = true → q.marked = false

lemma spaced_cons_of_unmarked {p : Payload} {l : List Payload} (h : p.marked = false) :
    Spaced (p :: l) ↔ Spaced l := by
  unfold Spaced
  rw [isChain_cons]
  simp [h]

lemma spaced_append_empty {l : List Payload} : Spaced (l ++ [({} : Payload)]) ↔ Spaced l := by
  unfold Spaced
  rw [isChain_append]
  simp [Payload.marked]

namespace Mgr

variable {P : Type} {s : Mgr P} {write : ℕ → Bool} {i : ℕ}

def table (s : Mgr P) : List Payload := (List.range s.maxPayloads).map s.payloads

/-- The entries that slots are requested for. -/
def survivors (s : Mgr P) (write : ℕ → Bool) : List Payload :=
  ((List.range s.maxPayloads).filter fun i => s.reqSlots i ≠ 0).map (s.requested write)

lemma numSlots_requested : (s.requested write i).numSlots = s.reqSlots i := by
  unfold requested Payload.push
  split_ifs <;> simp_all

lemma startSlot_requested (h : ¬ s.Removes i) :
    (s.requested write i).startSlot = reqStart s.reqSlots i := by
  unfold Removes at h
  unfold requested Payload.push
  split_ifs at h ⊢ <;> simp_all

lemma packed_requested (turns i : ℕ)
    (hreq : ∀ j, j < i + turns → s.Removes j → s.reqSlots j = 0) :
    Packed (reqStart s.reqSlots i)
      (((List.range' i turns).filter fun i => s.reqSlots i ≠ 0).map (s.requested write)) := by
  induction turns generalizing i with
  | zero => trivial
  | succ turns ih =>
    have ih := ih (i + 1) fun j hj => hreq j (by omega)
    rw [reqStart] at ih
    rw [range'_succ]
    by_cases hi : s.reqSlots i = 0
    · rw [hi, Int.add_zero] at ih
      rwa [filter_cons_of_neg (by simp [hi])]
    · rw [filter_cons_of_pos (by simp [hi])]
      refine ⟨startSlot_requested fun h => hi (hreq i (by omega) h), ?_⟩
      rwa [numSlots_requested]

lemma table_removeSlot (hi : i < s.maxPayloads) :
    (s.removeSlot i).table = s.table.eraseIdx i ++ [({} : Payload)] := by
  obtain ⟨payloads, proposed, mask, hs', -, hslot⟩ := removeSlot_spec s hi
  rw [hs']
  refine ext_getElem ?_ fun k hk _ => ?_
  · simp [table, length_eraseIdx, hi]
    omega
  · simp only [table, length_map, length_range] at hk
    simp [table, (hslot k hk).1, getElem_append, getElem_eraseIdx, length_eraseIdx]
    split_ifs <;> first | rfl | omega

lemma removeDeleted_table {turns i : ℕ} {s : Mgr P} (done : List Payload) {rest : List Payload}
    (htable : s.table = done ++ rest) (hi : done.length = i) (hrest : rest.length = turns) :
    ∃ left, (removeDeleted turns i s).table = done ++ left ∧
      ((∀ p ∈ left, p.marked = false) ↔ Spaced rest) ∧
      ((∀ p ∈ rest, p.marked = true → p.numSlots = 0) → live left = live rest) := by
  induction turns generalizing i s done rest with
  | zero =>
    obtain rfl := eq_nil_of_length_eq_zero hrest
    exact ⟨[], htable, by simp [Spaced], fun _ => rfl⟩
  | succ turns ih =>
    obtain ⟨p, rest, rfl⟩ := exists_cons_of_length_eq_add_one hrest
    subst hi
    have hlen : done.length < s.maxPayloads := by
      have := congrArg List.length htable
      simp [table] at this
      omega
    have hp : s.payloads done.length = p := by
      have := congrArg (·[done.length]?) htable
      simpa [table, hlen] using this
    rw [Mgr.removeDeleted, hp]
    split_ifs with hmark
    · -- the payload is removed, and the one that moves into its slot stays
      have hmarked : p.marked = true := by simpa [Payload.marked] using hmark
      have hnext : (s.removeSlot done.length).table = done ++ (rest ++ [({} : Payload)]) := by
        rw [table_removeSlot hlen, htable, eraseIdx_append_of_length_le le_rfl]
        simp
      cases rest with
      | nil =>
        obtain rfl : turns = 0 := by simpa using hrest.symm
        refine ⟨[{}], hnext, ?_, fun h => ?_⟩
        · simp [Spaced, Payload.marked]
        · simp [live, h p (by simp) hmarked]
      | cons q rest =>
        obtain ⟨left, hleft, hspaced, hlive⟩ := ih (s := s.removeSlot done.length)
          (done ++ [q]) (by simpa using hnext) length_append (by simpa using hrest)
        refine ⟨q :: left, by simpa using hleft, ?_, fun h => ?_⟩
        · rw [forall_mem_cons, hspaced, spaced_append_empty, Spaced, isChain_cons_cons]
          refine ⟨fun h => ⟨fun _ => h.1, (spaced_cons_of_unmarked h.1).2 h.2⟩, fun h => ?_⟩
          have hq := h.1 hmarked
          exact ⟨hq, (spaced_cons_of_unmarked hq).1 h.2⟩
        · have hrest' := hlive fun x hx => ?_
          · have hsame : live left = live rest := by
              rw [hrest']
              simp [live]
            have hzero := h p (by simp) hmarked
            simp only [live, filter_cons, hzero] at hsame ⊢
            simp only [hsame]
            rfl
          · rcases mem_append.1 hx with hx | hx
            · exact h x (by simp [hx])
            · rw [mem_singleton.1 hx]
              exact fun _ => rfl
    · have hunmarked : p.marked = false := by simpa [Payload.marked] using hmark
      obtain ⟨left, hleft, hspaced, hlive⟩ := ih (done ++ [p]) (by simpa using htable)
        length_append (by simpa using hrest)
      refine ⟨p :: left, by simpa using hleft, ?_, fun h => ?_⟩
      · rw [forall_mem_cons, hspaced, spaced_cons_of_unmarked hunmarked]
        exact and_iff_right hunmarked
      · have hrest' := hlive fun x hx => h x (mem_cons_of_mem p hx)
        simp only [live, filter_cons] at hrest' ⊢
        rw [hrest']

end Mgr

/-- **What an update leaves of the table.** The update returns 0 iff the proposed ports are in the
topology. If it returns 0, then it leaves no marked payload, keeps the payloads that slots are
requested for in their order, each once, and packs them from slot 1 on, if and only if no payload is
marked that slots are requested for, and no two payloads in a row are removed. -/
theorem update_table_packed_iff {P : Type} (write : ℕ → Bool) (s : Mgr P) :
    ((s.updatePayloadPart1 write).2 = 0 ↔
      ∀ i < s.maxPayloads, (s.proposedVcpis i).all s.valid = true) ∧
    ((s.updatePayloadPart1 write).2 = 0 →
      ((∀ p ∈ (s.updatePayloadPart1 write).1.table, p.marked = false) ∧
        live (s.updatePayloadPart1 write).1.table = s.survivors write ∧
        Packed 1 (live (s.updatePayloadPart1 write).1.table) ↔
      (∀ i < s.maxPayloads, s.Removes i → s.reqSlots i = 0) ∧
        ∀ i, i + 1 < s.maxPayloads → s.Removes i → ¬ s.Removes (i + 1))) := by
  obtain ⟨payloads, ret, hs', hret, hpayloads⟩ := Mgr.solvePayloads_spec write s.maxPayloads 0 s
  have hvalid : ret = 0 ↔ ∀ i < s.maxPayloads, (s.proposedVcpis i).all s.valid = true := by
    rw [hret]
    exact ⟨fun h i hi => h i (Nat.zero_le i) (by omega), fun h i _ hi => h i (by omega)⟩
  have hupdate : s.updatePayloadPart1 write = if ret ≠ 0 then ({ s with payloads := payloads }, ret)
      else (Mgr.removeDeleted s.maxPayloads 0 { s with payloads := payloads }, 0) := by
    rw [Mgr.updatePayloadPart1, show (1 : ℤ) = Mgr.reqStart s.reqSlots 0 from rfl, hs']
  rw [← hvalid, hupdate]
  by_cases hzero : ret = 0
  swap
  · rw [if_pos hzero]
    exact ⟨Iff.rfl, fun h => absurd h hzero⟩
  rw [if_neg (not_not.2 hzero)]
  refine ⟨iff_of_true rfl hzero, fun _ => ?_⟩
  have htable : Mgr.table { s with payloads := payloads } =
      (List.range s.maxPayloads).map (s.requested write) := by
    refine map_congr_left fun i hi => (hpayloads hzero i).trans (if_pos ?_)
    exact ⟨Nat.zero_le i, by simpa using hi⟩
  obtain ⟨left, hleft, hspaced, hlive⟩ := Mgr.removeDeleted_table [] htable rfl
    (by simp : _ = s.maxPayloads)
  have hmarked : ∀ i, (s.requested write i).marked = decide (s.Removes i) := fun i => by
    simp [Payload.marked, Mgr.requested_marked_iff]
  have hspaced' : Spaced ((List.range s.maxPayloads).map (s.requested write)) ↔
      ∀ i, i + 1 < s.maxPayloads → s.Removes i → ¬ s.Removes (i + 1) := by
    simp [Spaced, isChain_iff_getElem, hmarked]
  have hsurvivors :
      live ((List.range s.maxPayloads).map (s.requested write)) = s.survivors write := by
    simp [live, Mgr.survivors, filter_map, Function.comp_def, Mgr.numSlots_requested]
  generalize Mgr.removeDeleted s.maxPayloads 0 { s with payloads := payloads } = s' at hleft ⊢
  rw [hleft, nil_append, hspaced, hspaced']
  refine ⟨fun ⟨hrow, hsame, _⟩ => ⟨fun i hi hrem => ?_, hrow⟩, fun ⟨hreq, hrow⟩ => ?_⟩
  · by_contra hne
    have hmem : s.requested write i ∈ live left := by
      rw [hsame]
      exact mem_map_of_mem (mem_filter.2 ⟨mem_range.2 hi, by simpa using hne⟩)
    have := hspaced.2 (hspaced'.2 hrow) _ (mem_of_mem_filter hmem)
    simp [hmarked, hrem] at this
  · have hsame : live left = s.survivors write := by
      rw [hlive fun p hp hmark => ?_, hsurvivors]
      obtain ⟨i, hi, rfl⟩ := mem_map.1 hp
      rw [Mgr.numSlots_requested]
      exact hreq i (mem_range.1 hi) (by simpa [hmarked] using hmark)
    refine ⟨hrow, hsame, ?_⟩
    rw [hsame, Mgr.survivors, range_eq_range']
    exact Mgr.packed_requested s.maxPayloads 0 fun j hj => hreq j (by omega)

/-- **A payload that is marked can stay in the table**: of two ports in a row that give their slots
back, the second one keeps its payload. -/
theorem update_table_unpacked : ∃ s, Machine.exec call { maxPayloads := 3 } (twoPorts ++
      [.allocateVcpi 0 100 10, .allocateVcpi 1 50 5, .updatePayloadPart1 fun _ => true,
        .resetVcpiSlots 0, .resetVcpiSlots 1]) = some s ∧
    (s.updatePayloadPart1 fun _ => true).2 = 0 ∧
    ∃ p ∈ (s.updatePayloadPart1 fun _ => true).1.table, p.marked = true :=
  ⟨_, rfl, by decide +kernel⟩

end KmsDrm.DpMst
