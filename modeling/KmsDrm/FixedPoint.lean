import Mathlib

/-!
# Fixed-point numbers

Numbers with binary digits behind the point: the quotients of `drm_fixed.h`, `fixpt31_32.c` and
`bw_fixed.c`, the bandwidth of a mode that is computed from the first, and the product of
`fixpt31_32.c`.

## Main results

* `calc_pbn_mode_eq_ceil` — the bandwidth is rounded up correctly.
* `from_fraction_rounds` — the quotients are rounded to the nearest number.
* `fixed31_32_mul_nearest_iff` — when the product is the nearest number.
-/

namespace KmsDrm.FixedPoint

/-! ## Quotients -/

/-- A turn of the loop of a division: the next binary digit. The lowest bit of the result is clear
before it is set. -/
def nextDigit (b : ℕ) (s : ℕ × ℕ) : ℕ × ℕ :=
  let rem := s.2 * 2 % 2 ^ 64
  let res := s.1 * 2 % 2 ^ 64
  if b ≤ rem then (res + 1, rem - b) else (res, rem)

/-- A quotient with so many digits behind the point, rounded at the last one. -/
def fromFraction (bits : ℕ) (a b : ℤ) : ℤ :=
  let s := (nextDigit b.natAbs)^[bits] (a.natAbs / b.natAbs, a.natAbs % b.natAbs)
  let res := s.1 + if b.natAbs ≤ s.2 * 2 % 2 ^ 64 then 1 else 0
  (if decide (a < 0) ^^ decide (b < 0) then -res else res : ℤ).bmod (2 ^ 64)

/-- `drm_fixp_from_fraction`. -/
def fixpFromFraction : ℤ → ℤ → ℤ := fromFraction 32

/-- `dal_fixed31_32_from_fraction`. -/
def fixed3132FromFraction : ℤ → ℤ → ℤ := fromFraction 32

/-- `bw_frc_to_fixed`. -/
def bwFrcToFixed : ℤ → ℤ → ℤ := fromFraction 24

/-- `drm_fixp2int`. -/
def fixp2int (a : ℤ) : ℤ := (a / 2 ^ 32).bmod (2 ^ 32)

/-- `drm_fixp2int_ceil`. -/
def fixp2intCeil (a : ℤ) : ℤ :=
  if 0 < a then fixp2int ((a + (2 ^ 32 - 1)).bmod (2 ^ 64))
  else fixp2int ((a - (2 ^ 32 - 1)).bmod (2 ^ 64))

/-- `drm_dp_calc_pbn_mode`. -/
def calcPbnMode (clock bpp : ℤ) : ℤ :=
  let kbps := (clock * bpp).bmod (2 ^ 32) % 2 ^ 64
  fixp2intCeil (fixpFromFraction ((kbps * (64 * 1006)).bmod (2 ^ 64)) (54 * 8 * 1000 * 1000))

/-- The digits so far and the remainder are those of a long division. -/
lemma nextDigit_iterate {b : ℕ} (hb : 0 < b) (hb' : b < 2 ^ 63) (a n : ℕ)
    (ha : a * 2 ^ n < b * 2 ^ 64) :
    (nextDigit b)^[n] (a / b, a % b) = (a * 2 ^ n / b, a * 2 ^ n % b) := by
  induction n with
  | zero => simp
  | succ n ih =>
    rw [pow_succ, ← mul_assoc] at ha ⊢
    rw [Function.iterate_succ_apply', ih (by omega)]
    generalize a * 2 ^ n = m at ha
    have hdiv := Nat.div_add_mod m b
    have hrem := Nat.mod_lt m hb
    have hres : m / b * 2 < 2 ^ 64 := by
      refine lt_of_mul_lt_mul_left (?_ : b * (m / b * 2) < b * 2 ^ 64) b.zero_le
      rw [← mul_assoc]
      omega
    have htwice : m % b * 2 < 2 ^ 64 := by omega
    simp only [nextDigit, Nat.mod_eq_of_lt hres, Nat.mod_eq_of_lt htwice]
    split_ifs with hdigit
    · obtain ⟨hq, hr⟩ := (Nat.div_mod_unique hb (a := m * 2) (d := m / b * 2 + 1)
        (c := m % b * 2 - b)).2 ⟨by rw [mul_add, ← mul_assoc]; omega, by omega⟩
      rw [hq, hr]
    · obtain ⟨hq, hr⟩ := (Nat.div_mod_unique hb (a := m * 2) (d := m / b * 2) (c := m % b * 2)).2
        ⟨by rw [← mul_assoc]; omega, by omega⟩
      rw [hq, hr]

lemma fromFraction_eq {bits : ℕ} {a b : ℤ} (hb : b ≠ 0) (hb' : b.natAbs < 2 ^ 63)
    (ha : a.natAbs * 2 ^ bits < b.natAbs * (2 ^ 63 - 1)) :
    fromFraction bits a b =
      let res : ℤ := ((a.natAbs * 2 ^ bits * 2 + b.natAbs) / (2 * b.natAbs) : ℕ)
      if decide (a < 0) ^^ decide (b < 0) then -res else res := by
  have hpos := Int.natAbs_pos.2 hb
  have ha' := ha.trans_le (Nat.mul_le_mul_left b.natAbs (by decide : 2 ^ 63 - 1 ≤ 2 ^ 64))
  rw [fromFraction, nextDigit_iterate hpos hb' _ _ ha']
  generalize b.natAbs = d at *
  generalize a.natAbs * 2 ^ bits = m at *
  have hres : (m * 2 + d) / (2 * d) = m / d + if d ≤ m % d * 2 % 2 ^ 64 then 1 else 0 := by
    have hrem := Nat.mod_lt m hpos
    have hdiv := Nat.div_add_mod m d
    have hm : m * 2 + d = m % d * 2 + d + 2 * d * (m / d) := by
      rw [mul_assoc]
      omega
    rw [hm, Nat.add_mul_div_left _ _ (by omega), add_comm,
      Nat.mod_eq_of_lt (b := 2 ^ 64) (by omega)]
    congr 1
    split_ifs
    · exact Nat.div_eq_of_lt_le (by omega) (by omega)
    · exact Nat.div_eq_of_lt (by omega)
  have hlt : (m * 2 + d) / (2 * d) < 2 ^ 63 := by
    rw [Nat.div_lt_iff_lt_mul (by omega)]
    omega
  rw [← hres]
  generalize (m * 2 + d) / (2 * d) = res at hlt
  split_ifs <;> exact Int.bmod_eq_of_le (by omega) (by omega)

/-- **The bandwidth of a mode.** It is the exact value, rounded up: a quotient that is not an
integer is so far from one that rounding to 32 digits does not reach it. -/
theorem calc_pbn_mode_eq_ceil (clock bpp : ℤ) (hclock : 0 < clock) (hbpp : 0 < bpp)
    (hlt : clock * bpp < 2 ^ 31) :
    calcPbnMode clock bpp = ⌈(clock * bpp * 64 * 1006 / (8 * 54 * 1000 * 1000) : ℚ)⌉ := by
  have hpos := mul_pos hclock hbpp
  have hceil : ⌈(clock * bpp * 64 * 1006 / (8 * 54 * 1000 * 1000) : ℚ)⌉ =
      -(-(clock * bpp * (64 * 1006)) / (54 * 8 * 1000 * 1000 : ℕ)) := by
    rw [← Rat.ceil_intCast_div_natCast]
    push_cast
    ring_nf
  obtain ⟨k, hk⟩ := Int.eq_ofNat_of_zero_le hpos.le
  have hkbps : ((k : ℤ).bmod (2 ^ 32) % 2 ^ 64 * (64 * 1006)).bmod (2 ^ 64) =
      ((k * 64384 : ℕ) : ℤ) := by
    rw [Int.bmod_eq_of_le (n := k) (by omega) (by omega), Int.bmod_eq_of_le (by omega) (by omega)]
    omega
  have hfrac : fixpFromFraction (k * 64384 : ℕ) (54 * 8 * 1000 * 1000) =
      ((k * 64384 * 2 ^ 32 * 2 + 432000000) / (2 * 432000000) : ℕ) := by
    refine (fromFraction_eq (by decide) (by decide) ?_).trans (if_neg (by simp))
    omega
  rw [calcPbnMode, hk, hkbps, hfrac, fixp2intCeil, if_pos (by omega)]
  rw [Int.bmod_eq_of_le (by omega) (by omega), fixp2int, Int.bmod_eq_of_le (by omega) (by omega)]
  omega

theorem calc_pbn_mode_eq_ceil_test :
    calcPbnMode 154000 30 = ⌈(154000 * 30 * 64 * 1006 / (8 * 54 * 1000 * 1000) : ℚ)⌉ :=
  mod_cast calc_pbn_mode_eq_ceil 154000 30 (by decide) (by decide) (by decide)

/-- The nearest integer; of two the one that is further from zero. -/
def roundAway (q : ℚ) : ℤ := if q < 0 then -⌊-q + 1 / 2⌋ else ⌊q + 1 / 2⌋

lemma roundAway_neg (q : ℚ) : roundAway (-q) = -roundAway q := by
  unfold roundAway
  rcases lt_trichotomy q 0 with h | rfl | h
  · simp [h, h.le]
  · norm_num
  · simp [h, h.le]

lemma roundAway_div (bits A : ℕ) {B : ℕ} (hB : 0 < B) :
    roundAway (A / B * 2 ^ bits) = ((A * 2 ^ bits * 2 + B) / (2 * B) : ℕ) := by
  have heq : (A / B * 2 ^ bits + 1 / 2 : ℚ) = (A * 2 ^ bits * 2 + B : ℕ) / (2 * B : ℕ) := by
    push_cast
    field_simp
  rw [roundAway, if_neg (not_lt.2 (by positivity)), heq, Rat.floor_natCast_div_natCast,
    Int.natCast_ediv]

lemma div_eq_sign (a b : ℤ) : (a / b : ℚ) =
    if decide (a < 0) ^^ decide (b < 0) then -(a.natAbs / b.natAbs : ℚ)
      else (a.natAbs / b.natAbs : ℚ) := by
  rcases lt_or_ge a 0 with ha | ha <;> rcases lt_or_ge b 0 with hb | hb <;>
    simp [ha, hb, ha.not_gt, abs_of_neg, abs_of_nonneg, neg_div, div_neg]

/-- **Quotients.** They are rounded to the nearest number with 32 and with 24 digits behind the
point, a half away from zero. -/
theorem from_fraction_rounds (a b : ℤ) (hb : b ≠ 0) (hb' : |b| < 2 ^ 63)
    (hlt : |(a / b : ℚ)| < 2 ^ 31 - 1) :
    fixed3132FromFraction a b = roundAway (a / b * 2 ^ 32) ∧
      bwFrcToFixed a b = roundAway (a / b * 2 ^ 24) := by
  have hpos := Int.natAbs_pos.2 hb
  rw [Int.abs_eq_natAbs] at hb'
  have ha : a.natAbs < (2 ^ 31 - 1) * b.natAbs := by
    rw [abs_div, div_lt_iff₀ (by positivity)] at hlt
    have h : |a| < (2 ^ 31 - 1) * |b| := by exact_mod_cast hlt
    rw [Int.abs_eq_natAbs, Int.abs_eq_natAbs] at h
    omega
  have hrounds : ∀ bits ≤ 32, fromFraction bits a b = roundAway (a / b * 2 ^ bits) := by
    intro bits hbits
    have hpow := Nat.mul_le_mul_left a.natAbs (Nat.pow_le_pow_right two_pos hbits)
    rw [fromFraction_eq hb (by omega) (by omega), ← roundAway_div bits a.natAbs hpos,
      div_eq_sign]
    split_ifs
    · rw [← roundAway_neg, neg_mul]
    · rfl
  exact ⟨hrounds 32 le_rfl, hrounds 24 (by omega)⟩

theorem from_fraction_rounds_half :
    fixed3132FromFraction (-1) (2 ^ 33) = roundAway ((-1 : ℤ) / (2 ^ 33 : ℤ) * 2 ^ 32) :=
  (from_fraction_rounds (-1) (2 ^ 33) (by decide) (by decide) (by norm_num [abs_div])).1

/-! ## Products -/

/-- The magnitude that `dal_fixed31_32_mul` computes, from the integer parts and the fractional
parts. It is rounded up if the product of the fractional parts is at least a half of the last
digit. -/
def mulAbs (a b : ℕ) : ℕ :=
  a / 2 ^ 32 * (b / 2 ^ 32) * 2 ^ 32 + a / 2 ^ 32 * (b % 2 ^ 32) + b / 2 ^ 32 * (a % 2 ^ 32) +
    (a % 2 ^ 32 * (b % 2 ^ 32) / 2 ^ 32 + if 2 ^ 31 ≤ a % 2 ^ 32 * (b % 2 ^ 32) then 1 else 0)

/-- `dal_fixed31_32_mul`. The sums are taken modulo `2 ^ 64` at the end. -/
def fixed3132Mul (a b : ℤ) : ℤ :=
  let res := mulAbs a.natAbs b.natAbs
  (if decide (a < 0) ^^ decide (b < 0) then -res else res : ℤ).bmod (2 ^ 64)

/-- `dal_fixed31_32_sqr`. -/
def fixed3132Sqr (a : ℤ) : ℤ := (mulAbs a.natAbs a.natAbs : ℤ).bmod (2 ^ 64)

/-- A number is nearest to an exact product, which has 64 digits behind the point. -/
def Nearest (res product : ℤ) : Prop := |res * 2 ^ 32 - product| ≤ 2 ^ 31

/-- The fractional parts need no rounding, or are rounded up for a reason. -/
def RoundsWell (a b : ℤ) : Prop :=
  let tmp := a.natAbs % 2 ^ 32 * (b.natAbs % 2 ^ 32)
  tmp < 2 ^ 31 ∨ 2 ^ 31 ≤ tmp % 2 ^ 32

lemma nearest_neg {res product : ℤ} : Nearest (-res) (-product) ↔ Nearest res product := by
  rw [Nearest, Nearest, ← abs_neg]
  ring_nf

/-- The magnitude fits into 63 bits, and its distance to the product is that of the rounding. -/
lemma mulAbs_spec {a b : ℕ} (hprod : a * b < 2 ^ 94) :
    mulAbs a b < 2 ^ 63 ∧ (Nearest (mulAbs a b) (a * b : ℕ) ↔ RoundsWell a b) := by
  have hsplit : a * b = (a / 2 ^ 32 * (b / 2 ^ 32) * 2 ^ 32 + a / 2 ^ 32 * (b % 2 ^ 32) +
      b / 2 ^ 32 * (a % 2 ^ 32)) * 2 ^ 32 + a % 2 ^ 32 * (b % 2 ^ 32) := by
    conv_lhs => rw [← Nat.div_add_mod a (2 ^ 32), ← Nat.div_add_mod b (2 ^ 32)]
    ring
  simp only [RoundsWell, Nearest, mulAbs, Int.natAbs_natCast, abs_le] at hprod ⊢
  split_ifs <;> omega

lemma mul_eq_sign (a b : ℤ) : a * b =
    if decide (a < 0) ^^ decide (b < 0) then -((a.natAbs * b.natAbs : ℕ) : ℤ)
      else ((a.natAbs * b.natAbs : ℕ) : ℤ) := by
  rcases lt_or_ge a 0 with ha | ha <;> rcases lt_or_ge b 0 with hb | hb <;>
    simp [ha, hb, ha.not_gt, abs_of_neg, abs_of_nonneg]

/-- **When the product is the nearest number.** For factors whose product is below `2 ^ 30`, this is
so if and only if the product of the fractional parts is less than a half of the last digit, so that
nothing is added, or what is behind the last digit is at least a half of it. -/
theorem fixed31_32_mul_nearest_iff (a b : ℤ) (hprod : |a * b| < 2 ^ 94) :
    (Nearest (fixed3132Mul a b) (a * b) ↔ RoundsWell a b) ∧
      (a = b → (Nearest (fixed3132Sqr a) (a * b) ↔ RoundsWell a b)) := by
  rw [← Int.natCast_natAbs, Int.natAbs_mul] at hprod
  obtain ⟨hlt, hnearest⟩ := mulAbs_spec (a := a.natAbs) (b := b.natAbs) (by exact_mod_cast hprod)
  have hmul : Nearest (fixed3132Mul a b) (a * b) ↔ RoundsWell a b := by
    rw [mul_eq_sign, fixed3132Mul]
    split_ifs <;> rw [Int.bmod_eq_of_le (by omega) (by omega)]
    · exact nearest_neg.trans hnearest
    · exact hnearest
  refine ⟨hmul, ?_⟩
  rintro rfl
  rwa [fixed3132Mul, if_neg (by simp)] at hmul

theorem fixed31_32_mul_nearest_iff_quarter :
    Nearest (fixed3132Mul (2 ^ 31 + 1) (2 ^ 31 + 1)) ((2 ^ 31 + 1) * (2 ^ 31 + 1)) ↔
      RoundsWell (2 ^ 31 + 1) (2 ^ 31 + 1) :=
  (fixed31_32_mul_nearest_iff (2 ^ 31 + 1) (2 ^ 31 + 1) (by norm_num)).1

/-- **One half squared is not one quarter.** -/
theorem fixed31_32_mul_half :
    fixed3132Mul (2 ^ 31) (2 ^ 31) = 2 ^ 30 + 1 ∧ fixed3132Sqr (2 ^ 31) = 2 ^ 30 + 1 ∧
      (2 ^ 30 : ℤ) * 2 ^ 32 = 2 ^ 31 * 2 ^ 31 := by
  decide

end KmsDrm.FixedPoint
