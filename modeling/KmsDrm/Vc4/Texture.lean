import KmsDrm.Vc4.Qpu

/-!
# Texture layouts

The texture parameters `p0` to `p3` that a job puts into the uniform stream describe where a
texture lies and how it is laid out. This file has the decoding of the parameters and the size
checks of `reloc_tex` and `vc4_check_tex_size`, in the 32-bit arithmetic of the source, next to
the sizes of the levels as natural numbers.

## Main definitions

* `Vc4.checkTexture` — the size checks.

## Main results

* `Vc4.faces_inside_iff` — what they say of the faces and levels.
-/

namespace KmsDrm.Vc4

open BitVec

/-! ## Rounding -/

/-- `VC4_GET_FIELD`, for the field of `width` bits from the bit `shift` on. -/
def getField (word : U32) (shift width : ℕ) : U32 := (word.extractLsb' shift width).setWidth 32

/-- `round_up`, for a power of two. -/
def roundUpPow (x y : U32) : U32 := ((x - 1) ||| (y - 1)) + 1

/-- A number rounded up to a multiple. -/
def roundUp (x y : ℕ) : ℕ := (x + (y - 1)) / y * y

/-! ## Tiles -/

/-- `utile_width`: the width in pixels of a 64-byte microtile. -/
def utileWidth (cpp : U32) : U32 :=
  if cpp = 1 ∨ cpp = 2 then 8 else if cpp = 4 then 4 else if cpp = 8 then 2 else 1

/-- `utile_height`: the height in pixels of a 64-byte microtile. -/
def utileHeight (cpp : U32) : U32 :=
  if cpp = 1 then 8 else if cpp = 2 ∨ cpp = 4 ∨ cpp = 8 then 4 else 1

/-- `size_is_lt`. -/
def sizeIsLt (width height cpp : U32) : Bool :=
  width ≤ 4 * utileWidth cpp ∨ height ≤ 4 * utileHeight cpp

/-- The tiling formats `VC4_TILING_FORMAT_*`. -/
inductive Tiling
  | linear
  | t
  | lt
  deriving DecidableEq, Repr

/-- `aligned_width`. -/
def Tiling.alignedWidth (tiling : Tiling) (width cpp : U32) : U32 :=
  match tiling with
  | .linear => roundUpPow width (utileWidth cpp)
  | .t => roundUpPow width (utileWidth cpp * 8)
  | .lt => roundUpPow width (utileWidth cpp)

/-- `aligned_height`. -/
def Tiling.alignedHeight (tiling : Tiling) (height cpp : U32) : U32 :=
  match tiling with
  | .linear => height
  | .t => roundUpPow height (utileHeight cpp * 8)
  | .lt => roundUpPow height (utileHeight cpp)

/-- `vc4_check_tex_size`, for an object of `boSize` bytes. -/
def checkTexSize (boSize : ℕ) (offset : U32) (tiling : Tiling) (width height cpp : U32) : Bool :=
  if 4096 < width ∨ 4096 < height then false
  else
    let stride := tiling.alignedWidth width cpp * cpp
    let size := stride * tiling.alignedHeight height cpp
    !(size + offset < size || boSize < (size + offset).toNat)

/-! ## Parameters -/

/-- `enum vc4_texture_data_type`. -/
inductive TextureType
  | rgba8888 | rgbx8888 | rgba4444 | rgba5551 | rgb565 | luminance | alpha | lumalpha | etc1
  | s16f | s8 | s16 | bw1 | a4 | a1 | rgba64 | rgba32r | yuv422r
  deriving DecidableEq, Repr

/-- The type of a number. -/
def TextureType.ofNat? (n : ℕ) : Option TextureType :=
  [.rgba8888, .rgbx8888, .rgba4444, .rgba5551, .rgb565, .luminance, .alpha, .lumalpha, .etc1,
    .s16f, .s8, .s16, .bw1, .a4, .a1, .rgba64, .rgba32r, .yuv422r][n]?

/-- The bytes per pixel, or per block for `etc1`; `none` for the types that are not supported. -/
def TextureType.cpp : TextureType → Option U32
  | .rgba8888 | .rgbx8888 | .rgba32r => some 4
  | .rgba4444 | .rgba5551 | .rgb565 | .lumalpha | .s16f | .s16 => some 2
  | .luminance | .alpha | .s8 => some 1
  | .etc1 => some 8
  | .bw1 | .a4 | .a1 | .rgba64 | .yuv422r => none

/-- The parameters of a texture. -/
structure TexWords where
  p0 : U32
  p1 : U32
  p2 : U32
  p3 : U32

namespace TexWords

variable (w : TexWords)

/-- `VC4_TEX_P0_OFFSET_MASK`. -/
def offsetMask : U32 := 0xfffff000

/-- `VC4_TEX_P2_CMST_MASK`. -/
def cmstMask : U32 := 0x3ffff000

/-- The offset of the base level. -/
def offset : U32 := w.p0 &&& offsetMask

/-- The number of levels above the base level. -/
def miplevels : ℕ := (getField w.p0 0 4).toNat

/-- The texture is a cube map. -/
def isCube : Bool := w.p0 &&& 0x200 ≠ 0

def type : Option TextureType :=
  TextureType.ofNat? (getField w.p0 4 4 ||| (getField w.p1 31 1 <<< 4)).toNat

def pixelWidth : U32 := if getField w.p1 8 11 = 0 then 2048 else getField w.p1 8 11

def pixelHeight : U32 := if getField w.p1 20 11 = 0 then 2048 else getField w.p1 20 11

/-- The stride that a parameter gives to a cube map; `0` where it gives none. -/
def strideOf (p : U32) : U32 := if getField p 30 2 = 1 then p &&& cmstMask else 0

/-- `cube_map_stride`; `none` where a cube map has no stride or two. -/
def cubeMapStride : Option U32 :=
  if w.isCube then
    if getField w.p3 30 2 = 1 ∧ strideOf w.p2 ≠ 0 then none
    else
      let stride := if getField w.p3 30 2 = 1 then strideOf w.p3 else strideOf w.p2
      if stride = 0 then none else some stride
  else some 0

/-- The width in pixels, or in blocks for `etc1`. -/
def width (type : TextureType) : U32 :=
  if type = .etc1 then (w.pixelWidth + 3) >>> 2 else w.pixelWidth

/-- The height in pixels, or in blocks for `etc1`. -/
def height (type : TextureType) : U32 :=
  if type = .etc1 then (w.pixelHeight + 3) >>> 2 else w.pixelHeight

/-- The tiling format of the base level. -/
def tiling (type : TextureType) (cpp : U32) : Tiling :=
  if type = .rgba32r then .linear
  else if sizeIsLt (w.width type) (w.height type) cpp then .lt
  else .t

end TexWords

/-- `max(x >> i, 1u)`. -/
def levelDim (x : U32) (i : ℕ) : U32 := if x >>> i = 0 then 1 else x >>> i

/-- The tiling format of a level: once the levels get small enough, they drop from T to LT. -/
def Tiling.level (tiling : Tiling) (width height cpp : U32) : Tiling :=
  if tiling = .t ∧ sizeIsLt width height cpp then .lt else tiling

/-- The loop of `reloc_tex` over the levels from `i` on, `n` of them; what is left of the offset,
or `none` where a level does not fit in front of the texture. -/
def checkLevels (width height cpp : U32) : ℕ → ℕ → Tiling → U32 → Option U32
  | _, 0, _, offset => some offset
  | i, n + 1, tiling, offset =>
    let levelWidth := levelDim width i
    let levelHeight := levelDim height i
    let tiling := tiling.level levelWidth levelHeight cpp
    let levelSize := tiling.alignedWidth levelWidth cpp * cpp * tiling.alignedHeight levelHeight cpp
    if offset < levelSize then none
    else checkLevels width height cpp (i + 1) n tiling (offset - levelSize)

/-- The type of the texture and its bytes per pixel, where they are supported. -/
def TexWords.format (w : TexWords) : Option (TextureType × U32) :=
  w.type.bind fun type => type.cpp.map fun cpp => (type, cpp)

/-- The checks of `reloc_tex` for a texture in an object of `boSize` bytes. -/
def checkTexture (boSize : ℕ) (w : TexWords) : Bool :=
  match w.cubeMapStride, w.format with
  | some stride, some (type, cpp) =>
    checkTexSize boSize (w.offset + stride * 5) (w.tiling type cpp) (w.width type) (w.height type)
        cpp &&
      (checkLevels (w.width type) (w.height type) cpp 1 w.miplevels (w.tiling type cpp)
        w.offset).isSome
  | _, _ => false

/-! ## Sizes as natural numbers -/

/-- The multiple of pixels that the width of a level is rounded to. -/
def Tiling.unitWidth (tiling : Tiling) (cpp : U32) : ℕ :=
  if tiling = .t then (utileWidth cpp).toNat * 8 else (utileWidth cpp).toNat

/-- The multiple of pixels that the height of a level is rounded to. -/
def Tiling.unitHeight (tiling : Tiling) (cpp : U32) : ℕ :=
  match tiling with
  | .linear => 1
  | .t => (utileHeight cpp).toNat * 8
  | .lt => (utileHeight cpp).toNat

/-- The bytes that a level takes. -/
def levelSize (tiling : Tiling) (width height cpp : U32) : ℕ :=
  roundUp width.toNat (tiling.unitWidth cpp) * cpp.toNat *
    roundUp height.toNat (tiling.unitHeight cpp)

/-- The bytes that the levels from `i` on take, `n` of them. -/
def mipSize (width height cpp : U32) : ℕ → ℕ → Tiling → ℕ
  | _, 0, _ => 0
  | i, n + 1, tiling =>
    let tiling := tiling.level (levelDim width i) (levelDim height i) cpp
    levelSize tiling (levelDim width i) (levelDim height i) cpp +
      mipSize width height cpp (i + 1) n tiling

namespace TexWords

/-- The bytes of the base level of a face. -/
def baseSize (w : TexWords) : ℕ :=
  match w.format with
  | some (type, cpp) => levelSize (w.tiling type cpp) (w.width type) (w.height type) cpp
  | none => 0

/-- The bytes of the smaller levels of a face, which lie in front of it. -/
def mipsSize (w : TexWords) : ℕ :=
  match w.format with
  | some (type, cpp) => mipSize (w.width type) (w.height type) cpp 1 w.miplevels (w.tiling type cpp)
  | none => 0

/-- The distance of the faces. -/
def stride (w : TexWords) : ℕ := (w.cubeMapStride.getD 0).toNat

/-- The number of faces. -/
def faces (w : TexWords) : ℕ := if w.isCube then 6 else 1

end TexWords

/-! ## Rounding of powers of two -/

lemma or_two_pow_sub_one (a k : ℕ) : a ||| (2 ^ k - 1) = a / 2 ^ k * 2 ^ k + (2 ^ k - 1) := by
  have hlt : 2 ^ k - 1 < 2 ^ k := Nat.sub_lt (Nat.two_pow_pos k) Nat.one_pos
  rw [← Nat.shiftRight_eq_div_pow, ← Nat.shiftLeft_eq, Nat.shiftLeft_add_eq_or_of_lt hlt]
  apply Nat.eq_of_testBit_eq
  intro i
  by_cases hi : i < k
  · simp [hi]
  · simp [show k ≤ i by omega]

lemma roundUp_succ (a k : ℕ) : roundUp (a + 1) (2 ^ k) = a / 2 ^ k * 2 ^ k + 2 ^ k := by
  have hpos := Nat.two_pow_pos k
  rw [roundUp, show a + 1 + (2 ^ k - 1) = a + 2 ^ k by omega, Nat.add_div_right _ hpos,
    Nat.succ_mul]

lemma le_roundUp {x y : ℕ} (hy : 0 < y) : x ≤ roundUp x y := by
  have hmod := Nat.div_add_mod (x + (y - 1)) y
  have hlt := Nat.mod_lt (x + (y - 1)) hy
  rw [roundUp, Nat.mul_comm]
  omega

lemma roundUp_lt {x y : ℕ} (hy : 0 < y) : roundUp x y < x + y := by
  have := Nat.div_mul_le_self (x + (y - 1)) y
  rw [roundUp]
  omega

lemma roundUpPow_toNat {x y : U32} {k : ℕ} (hy : y.toNat = 2 ^ k) (hk : k ≤ 16)
    (hx : 0 < x.toNat) (hle : x.toNat ≤ 2 ^ 16) :
    (roundUpPow x y).toNat = roundUp x.toNat (2 ^ k) := by
  have hpos := Nat.two_pow_pos k
  have hk' : 2 ^ k ≤ 2 ^ 16 := Nat.pow_le_pow_right (by decide) hk
  have hx' : (x - 1).toNat = x.toNat - 1 := by bv_omega
  have hy' : (y - 1).toNat = 2 ^ k - 1 := by bv_omega
  have hor : ((x - 1) ||| (y - 1)).toNat = (x.toNat - 1) / 2 ^ k * 2 ^ k + (2 ^ k - 1) := by
    rw [toNat_or, hx', hy', or_two_pow_sub_one]
  have hdiv := Nat.div_mul_le_self (x.toNat - 1) (2 ^ k)
  have hround := roundUp_succ (x.toNat - 1) k
  rw [show x.toNat - 1 + 1 = x.toNat by omega] at hround
  rw [roundUpPow, toNat_add, hor]
  change ((x.toNat - 1) / 2 ^ k * 2 ^ k + (2 ^ k - 1) + 1) % 2 ^ 32 = _
  omega

/-! ## What the checks establish -/

section Checks

variable {cpp width height : U32}

/-- The bytes per pixel that the source knows. -/
def IsCpp (cpp : U32) : Prop := cpp = 1 ∨ cpp = 2 ∨ cpp = 4 ∨ cpp = 8

instance : Decidable (IsCpp cpp) := inferInstanceAs (Decidable (_ ∨ _))

lemma TextureType.isCpp {type : TextureType} (h : type.cpp = some cpp) : IsCpp cpp := by
  cases type <;> cases h <;> decide

/-- The dimensions that a texture can have. -/
def IsDim (x : U32) : Prop := 0 < x.toNat ∧ x.toNat ≤ 2048

instance {x : U32} : Decidable (IsDim x) := inferInstanceAs (Decidable (_ ∧ _))

lemma utile_pow (h : IsCpp cpp) : ∃ k l, k ≤ 3 ∧ l ≤ 3 ∧
    (utileWidth cpp).toNat = 2 ^ k ∧ (utileWidth cpp * 8).toNat = 2 ^ (k + 3) ∧
    (utileHeight cpp).toNat = 2 ^ l ∧ (utileHeight cpp * 8).toNat = 2 ^ (l + 3) := by
  rcases h with rfl | rfl | rfl | rfl
  · exact ⟨3, 3, by decide⟩
  · exact ⟨3, 2, by decide⟩
  · exact ⟨2, 2, by decide⟩
  · exact ⟨1, 2, by decide⟩

section

variable (tiling : Tiling) (hcpp : IsCpp cpp)

include hcpp

lemma alignedWidth_toNat (hw : IsDim width) :
    (tiling.alignedWidth width cpp).toNat = roundUp width.toNat (tiling.unitWidth cpp) := by
  obtain ⟨hpos, hle⟩ := hw
  obtain ⟨k, -, hk, -, h1, h8, -⟩ := utile_pow hcpp
  cases tiling with
  | t =>
    rw [Tiling.alignedWidth, roundUpPow_toNat h8 (by omega) hpos (by omega), Tiling.unitWidth,
      if_pos rfl, h1, Nat.pow_add]
  | linear | lt =>
    rw [Tiling.alignedWidth, roundUpPow_toNat h1 (by omega) hpos (by omega), Tiling.unitWidth,
      if_neg (by decide), h1]

lemma alignedHeight_toNat (hh : IsDim height) :
    (tiling.alignedHeight height cpp).toNat = roundUp height.toNat (tiling.unitHeight cpp) := by
  obtain ⟨hpos, hle⟩ := hh
  obtain ⟨-, l, -, hl, -, -, h1, h8⟩ := utile_pow hcpp
  cases tiling with
  | linear => simp [Tiling.alignedHeight, Tiling.unitHeight, roundUp]
  | t =>
    rw [Tiling.alignedHeight, roundUpPow_toNat h8 (by omega) hpos (by omega), Tiling.unitHeight,
      h1, Nat.pow_add]
  | lt =>
    rw [Tiling.alignedHeight, roundUpPow_toNat h1 (by omega) hpos (by omega), Tiling.unitHeight, h1]

lemma unit_bounds :
    0 < tiling.unitWidth cpp ∧ tiling.unitWidth cpp ≤ 64 ∧
      0 < tiling.unitHeight cpp ∧ tiling.unitHeight cpp ≤ 64 := by
  rcases hcpp with rfl | rfl | rfl | rfl <;> cases tiling <;> decide

lemma levelSize_bounds (hw : IsDim width) (hh : IsDim height) :
    0 < levelSize tiling width height cpp ∧ levelSize tiling width height cpp < 2 ^ 26 := by
  obtain ⟨hw0, hw64, hh0, hh64⟩ := unit_bounds tiling hcpp
  have h1 := le_roundUp (x := width.toNat) hw0
  have h2 := roundUp_lt (x := width.toNat) hw0
  have h3 := le_roundUp (x := height.toNat) hh0
  have h4 := roundUp_lt (x := height.toNat) hh0
  have hc : 0 < cpp.toNat ∧ cpp.toNat ≤ 8 := by
    rcases hcpp with rfl | rfl | rfl | rfl <;> decide
  obtain ⟨hwpos, hwle⟩ := hw
  obtain ⟨hhpos, hhle⟩ := hh
  constructor
  · exact Nat.mul_pos (Nat.mul_pos (by omega) hc.1) (by omega)
  · calc levelSize tiling width height cpp
        ≤ 2112 * 8 * 2112 := Nat.mul_le_mul (Nat.mul_le_mul (by omega) hc.2) (by omega)
      _ < 2 ^ 26 := by decide

lemma level_toNat (hw : IsDim width) (hh : IsDim height) :
    (tiling.alignedWidth width cpp * cpp * tiling.alignedHeight height cpp).toNat =
      levelSize tiling width height cpp := by
  have hlt := (levelSize_bounds tiling hcpp hw hh).2
  rw [toNat_mul, toNat_mul, alignedWidth_toNat tiling hcpp hw,
    alignedHeight_toNat tiling hcpp hh, Nat.mod_mul_mod]
  exact Nat.mod_eq_of_lt (by rw [levelSize] at hlt; omega)

end

lemma le_of_checkTexSize {boSize : ℕ} {offset : U32} {tiling : Tiling} (hcpp : IsCpp cpp)
    (hw : IsDim width) (hh : IsDim height)
    (h : checkTexSize boSize offset tiling width height cpp = true) :
    offset.toNat + levelSize tiling width height cpp ≤ boSize := by
  have hsize := level_toNat tiling hcpp hw hh
  simp only [checkTexSize] at h
  split_ifs at h
  simp only [Bool.not_eq_true', Bool.or_eq_false_iff, decide_eq_false_iff_not] at h
  obtain ⟨hwrap, hle⟩ := h
  rw [lt_def, toNat_add] at hwrap
  rw [toNat_add] at hle
  omega

lemma isDim_levelDim {x : U32} (h : IsDim x) (i : ℕ) : IsDim (levelDim x i) := by
  obtain ⟨hpos, hle⟩ := h
  rw [levelDim]
  split_ifs with hz
  · decide
  · have hdiv : (x >>> i).toNat ≤ x.toNat := by
      rw [toNat_ushiftRight, Nat.shiftRight_eq_div_pow]
      exact Nat.div_le_self _ _
    have hne : (x >>> i).toNat ≠ 0 := fun h0 => hz (eq_of_toNat_eq h0)
    exact ⟨by omega, by omega⟩

lemma checkLevels_isSome (hcpp : IsCpp cpp) (hw : IsDim width) (hh : IsDim height) (i n : ℕ)
    (tiling : Tiling) (offset : U32) :
    (checkLevels width height cpp i n tiling offset).isSome = true ↔
      mipSize width height cpp i n tiling ≤ offset.toNat := by
  induction n generalizing i tiling offset with
  | zero => simp [checkLevels, mipSize]
  | succ n ih =>
    have hsize := level_toNat (tiling.level (levelDim width i) (levelDim height i) cpp) hcpp
      (isDim_levelDim hw i) (isDim_levelDim hh i)
    simp only [checkLevels, mipSize]
    split_ifs with hlt
    · rw [lt_def] at hlt
      simp only [Option.isSome_none, Bool.false_eq_true, false_iff]
      omega
    · rw [lt_def] at hlt
      rw [ih, toNat_sub_of_le (by rw [le_def]; omega)]
      omega

end Checks

namespace TexWords

variable {w : TexWords}

lemma getField_lt (word : U32) (shift width : ℕ) (h : width < 32) :
    (getField word shift width).toNat < 2 ^ width := by
  rw [getField, toNat_setWidth_of_le (by omega)]
  exact BitVec.isLt _

lemma isDim_field (word : U32) (shift : ℕ) :
    IsDim (if getField word shift 11 = 0 then 2048 else getField word shift 11) := by
  split_ifs with hz
  · decide
  · have hlt := getField_lt word shift 11 (by decide)
    have hne : (getField word shift 11).toNat ≠ 0 := fun h0 => hz (eq_of_toNat_eq h0)
    exact ⟨by omega, by omega⟩

lemma isDim_blocks {x : U32} (h : IsDim x) : IsDim ((x + 3) >>> 2) := by
  obtain ⟨hpos, hle⟩ := h
  have hadd : (x + 3).toNat = x.toNat + 3 := by bv_omega
  rw [IsDim, toNat_ushiftRight]
  omega

lemma isDim_width (w : TexWords) (type : TextureType) : IsDim (w.width type) := by
  have := isDim_field w.p1 8
  rw [width]
  split_ifs
  · exact isDim_blocks this
  · exact this

lemma isDim_height (w : TexWords) (type : TextureType) : IsDim (w.height type) := by
  have := isDim_field w.p1 20
  rw [height]
  split_ifs
  · exact isDim_blocks this
  · exact this

lemma isCpp_of_format {type : TextureType} {cpp : U32} (h : w.format = some (type, cpp)) :
    IsCpp cpp := by
  obtain ⟨type', -, h⟩ := Option.bind_eq_some_iff.1 h
  obtain ⟨cpp', hcpp, heq⟩ := Option.map_eq_some_iff.1 h
  cases heq
  exact TextureType.isCpp hcpp

lemma stride_eq_zero (h : w.isCube = false) : w.stride = 0 := by
  simp [stride, cubeMapStride, h]

lemma of_checkTexture {boSize : ℕ} (h : checkTexture boSize w = true) :
    0 < w.baseSize ∧ w.mipsSize ≤ w.offset.toNat ∧
      (w.offset.toNat + 5 * w.stride) % 2 ^ 32 + w.baseSize ≤ boSize := by
  rw [checkTexture] at h
  split at h
  next stride type cpp hstride hformat =>
    rw [Bool.and_eq_true] at h
    obtain ⟨hsize, hlevels⟩ := h
    have hcpp := isCpp_of_format hformat
    have hw := w.isDim_width type
    have hh := w.isDim_height type
    have hbase := (levelSize_bounds (w.tiling type cpp) hcpp hw hh).1
    have hle := le_of_checkTexSize hcpp hw hh hsize
    rw [checkLevels_isSome hcpp hw hh] at hlevels
    have hoffset : (w.offset + stride * 5).toNat = (w.offset.toNat + 5 * w.stride) % 2 ^ 32 := by
      simp only [TexWords.stride, hstride, Option.getD_some]
      bv_omega
    rw [hoffset] at hle
    simp only [baseSize, mipsSize, hformat]
    exact ⟨hbase, hlevels, hle⟩
  · cases h

/-- The faces of a texture that the checks let through lie inside of the object exactly when the
offset of the last one does not wrap around. -/
lemma faces_inside_iff {boSize : ℕ} (hbo : boSize ≤ 2 ^ 32) (h : checkTexture boSize w = true) :
    (∀ k < w.faces, w.mipsSize ≤ w.offset.toNat + k * w.stride ∧
        w.offset.toNat + k * w.stride + w.baseSize ≤ boSize) ↔
      w.offset.toNat + 5 * w.stride < 2 ^ 32 := by
  obtain ⟨hbase, hmips, hle⟩ := of_checkTexture h
  constructor
  · intro hall
    cases hcube : w.isCube with
    | false => rw [stride_eq_zero hcube]; omega
    | true =>
      have := (hall 5 (by simp [faces, hcube])).2
      omega
  · intro hlt k hk
    have hk5 : k * w.stride ≤ 5 * w.stride := by
      refine Nat.mul_le_mul_right _ ?_
      rw [faces] at hk
      split_ifs at hk <;> omega
    omega

end TexWords

end KmsDrm.Vc4
