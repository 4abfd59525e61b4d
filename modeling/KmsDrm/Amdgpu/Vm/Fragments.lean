import KmsDrm.Amdgpu.Vm.Mappings

/-!
# The fragments of a range of pages

`amdgpu_vm_frag_ptes` cuts a range of pages into pieces for `amdgpu_vm_update_ptes` and gives each
of them the size of its fragments, as a power of two. Page numbers are natural numbers.

## Main results

* `frag_ptes_tiles` — the pieces follow each other, and each consists of whole, aligned fragments.
-/

namespace KmsDrm.Amdgpu

/-- A call of `amdgpu_vm_update_ptes`, with the argument of `AMDGPU_PTE_FRAG` in its flags. -/
structure UpdateCall where
  start : ℕ
  stop : ℕ
  dst : U64
  frag : Option ℕ

/-- `ffs`, of the lower 32 bits: the first bit that is set is the first that leaves a remainder. -/
def ffs (x : ℕ) : ℕ :=
  match (List.range 32).find? fun i => x % 2 ^ (i + 1) ≠ 0 with
  | some i => i + 1
  | none => 0

section Frag

variable (maxFrag stop : ℕ) (ret : UpdateCall → ℤ)

/-- The piece of a turn. "This intentionally wraps around if no bit is set". -/
def fragCall (start : ℕ) (dst : U64) : UpdateCall :=
  let frag := min ((ffs start + (2 ^ 32 - 1)) % 2 ^ 32) (stop - start).log2
  if maxFrag ≤ frag then ⟨start, stop / 2 ^ maxFrag * 2 ^ maxFrag, dst, some maxFrag⟩
  else ⟨start, start + 2 ^ frag, dst, some frag⟩

/-- Where the next piece points to. -/
def UpdateCall.nextDst (c : UpdateCall) : U64 := c.dst + BitVec.ofNat 64 ((c.stop - c.start) * 4096)

/-- The loop of `amdgpu_vm_frag_ptes`: its result, and the calls that it made. -/
def fragLoop : ℕ → ℕ → U64 → Option (ℤ × List UpdateCall)
  | turns, start, dst =>
    if start = stop then some (0, [])
    else match turns with
      | 0 => none
      | turns + 1 =>
        let c := fragCall maxFrag stop start dst
        if ret c ≠ 0 then some (ret c, [c])
        else (fragLoop turns c.stop c.nextDst).map fun r => (r.1, c :: r.2)

/-- `amdgpu_vm_frag_ptes`. Pages of the system are not continuous. -/
def fragPtes (src valid : Bool) (start : ℕ) (dst : U64) : Option (ℤ × List UpdateCall) :=
  if src || !valid then
    let c : UpdateCall := ⟨start, stop, dst, none⟩
    some (ret c, [c])
  else fragLoop maxFrag stop ret (stop - start) start dst

end Frag

/-- The calls cover a range in order, and what the pages point to advances with them. -/
def Tiles : ℕ → U64 → List UpdateCall → ℕ → Prop
  | start, _, [], stop => start = stop
  | start, dst, c :: calls, stop =>
    c.start = start ∧ c.dst = dst ∧ start < c.stop ∧ Tiles c.stop c.nextDst calls stop

/-- The call is for whole fragments. -/
def UpdateCall.Aligned (c : UpdateCall) : Prop :=
  ∀ f, c.frag = some f → 2 ^ f ∣ c.start ∧ 2 ^ f ∣ c.stop - c.start

/-- The function returned after calls that cover the range, or up to one that failed. -/
def Cuts (res : Option (ℤ × List UpdateCall)) (start : ℕ) (dst : U64) (stop : ℕ) : Prop :=
  ∃ r calls, res = some (r, calls) ∧
    (∃ stop' ≤ stop, Tiles start dst calls stop' ∧ (r = 0 → stop' = stop)) ∧
    ∀ c ∈ calls, c.Aligned

variable {maxFrag start stop : ℕ} {dst : U64} {ret : UpdateCall → ℤ}

lemma pow_dvd_of_le_ffs {f : ℕ} (hf : f ≤ 31) (h : f ≤ (ffs start + (2 ^ 32 - 1)) % 2 ^ 32) :
    2 ^ f ∣ start := by
  rcases Nat.eq_zero_or_pos f with rfl | hpos
  · exact one_dvd start
  -- the bit in front of the fragment is not set
  suffices hbit : start % 2 ^ (f - 1 + 1) = 0 by
    rw [Nat.sub_add_cancel hpos] at hbit
    exact Nat.dvd_of_mod_eq_zero hbit
  unfold ffs at h
  split at h
  · next i hi =>
    rw [List.find?_range_eq_some] at hi
    obtain ⟨-, hi32, hbefore⟩ := hi
    simpa using hbefore (f - 1) (by omega)
  · next hi => simpa using List.find?_eq_none.1 hi (f - 1) (List.mem_range.2 (by omega))

lemma fragCall_spec (dst : U64) (hmax : maxFrag ≤ 31) (h : start < stop) :
    let c := fragCall maxFrag stop start dst
    c.start = start ∧ c.dst = dst ∧ start < c.stop ∧ c.stop ≤ stop ∧ c.Aligned := by
  have hfit : ∀ f ≤ 31, f ≤ min ((ffs start + (2 ^ 32 - 1)) % 2 ^ 32) (stop - start).log2 →
      2 ^ f ∣ start ∧ 2 ^ f ≤ stop - start := by
    intro f hf hle
    obtain ⟨hffs, hlog⟩ := Nat.le_min.1 hle
    exact ⟨pow_dvd_of_le_ffs hf hffs,
      (Nat.pow_le_pow_right (by omega) hlog).trans (Nat.log2_self_le (by omega))⟩
  unfold fragCall
  generalize min ((ffs start + (2 ^ 32 - 1)) % 2 ^ 32) (stop - start).log2 = frag at hfit
  dsimp only
  split_ifs with hfrag
  · obtain ⟨hstart, hlen⟩ := hfit maxFrag hmax hfrag
    have hlt := Nat.lt_div_mul_add (a := stop) (Nat.two_pow_pos maxFrag)
    refine ⟨rfl, rfl, by dsimp only; omega, Nat.div_mul_le_self _ _, ?_⟩
    rintro _ ⟨⟩
    exact ⟨hstart, Nat.dvd_sub (Nat.dvd_mul_left _ _) hstart⟩
  · obtain ⟨hstart, hlen⟩ := hfit frag (by omega) le_rfl
    refine ⟨rfl, rfl, by dsimp only; omega, by dsimp only; omega, ?_⟩
    rintro _ ⟨⟩
    exact ⟨hstart, by simp⟩

lemma fragLoop_spec (hmax : maxFrag ≤ 31) (h : start ≤ stop) {turns : ℕ}
    (hturns : stop - start ≤ turns) :
    Cuts (fragLoop maxFrag stop ret turns start dst) start dst stop := by
  induction turns generalizing start dst with
  | zero =>
    obtain rfl : start = stop := by omega
    exact ⟨0, [], by simp [fragLoop], ⟨start, le_rfl, rfl, fun _ => rfl⟩, by simp⟩
  | succ turns ih =>
    rw [fragLoop]
    split_ifs with heq
    · exact ⟨0, [], rfl, ⟨start, h, rfl, fun _ => heq⟩, by simp⟩
    · obtain ⟨hstart, hdst, hlt, hle, haligned⟩ := fragCall_spec dst hmax (lt_of_le_of_ne h heq)
      generalize fragCall maxFrag stop start dst = c at *
      dsimp only
      split_ifs with hret
      · exact ⟨_, [c], rfl, ⟨c.stop, hle, ⟨hstart, hdst, hlt, rfl⟩, fun h0 => absurd h0 hret⟩,
          by simpa⟩
      · obtain ⟨r, calls, hloop, ⟨stop', hstop, htiles, hr⟩, hall⟩ :=
          @ih c.stop c.nextDst hle (by omega)
        exact ⟨r, c :: calls, by rw [hloop]; rfl, ⟨stop', hstop, ⟨hstart, hdst, hlt, htiles⟩, hr⟩,
          List.forall_mem_cons.2 ⟨haligned, hall⟩⟩

/-- **The fragments of a range.** The loop ends, and its calls cover the range in order, with the
address that the pages point to advancing by 4096 for each page; if a call fails, it was the last.
Each piece starts at a multiple of its fragment size and consists of whole fragments. -/
theorem frag_ptes_tiles (ret : UpdateCall → ℤ) (src valid : Bool) (dst : U64)
    (hmax : maxFrag ≤ 31) (h : start < stop) :
    Cuts (fragPtes maxFrag stop ret src valid start dst) start dst stop := by
  unfold fragPtes
  split_ifs
  · exact ⟨_, _, rfl, ⟨stop, le_rfl, ⟨rfl, rfl, h, rfl⟩, fun _ => rfl⟩, by
      simp [UpdateCall.Aligned]⟩
  · exact fragLoop_spec hmax h.le le_rfl

theorem frag_ptes_tiles_nine : Cuts (fragPtes 9 1024 (fun _ => 0) false true 1 0) 1 0 1024 :=
  frag_ptes_tiles (fun _ => 0) false true 0 (by decide) (by decide)

end KmsDrm.Amdgpu
