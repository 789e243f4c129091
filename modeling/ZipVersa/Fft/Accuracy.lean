import Mathlib.Analysis.Complex.Trigonometric
import Mathlib.NumberTheory.Zsqrtd.GaussianInt
import Mathlib.Tactic.IntervalCases
import ZipVersa.Fft.Deadline
import ZipVersa.Fft.Tables
import ZipVersa.Fft.Transform
import ZipVersa.Lib.Twiddle

/-! How far the network of rounding butterflies is from the exact transform,
layer by layer, and with it the memory of the device. -/

set_option autoImplicit false

namespace ZipVersa.Fft

open Lib
open GaussianInt (toComplex)

/-! ### Rounding -/

theorem abs_roundHalfEven_sub_le (value : Int) (bits : Nat) :
    |((roundHalfEven value bits : Int) : ℝ) - value / 2 ^ bits| ≤ 1 / 2 := by
  have nearest := (roundHalfEven_nearest value bits).1
  have positive : (0 : ℝ) < 2 ^ bits := by positivity
  have cast : 2 * |2 ^ bits * ((roundHalfEven value bits : Int) : ℝ) - value| ≤ 2 ^ bits := by
    exact_mod_cast nearest
  have scaled : ((roundHalfEven value bits : Int) : ℝ) - value / 2 ^ bits =
      (2 ^ bits * ((roundHalfEven value bits : Int) : ℝ) - value) / 2 ^ bits := by
    field_simp
  rw [scaled, abs_div, abs_of_pos positive, div_le_iff₀ positive]
  linarith

/-- A value near `scale` times an exact one, which is of at most `size`. -/
structure Within (scale size error : ℝ) (value : ℤ√(-1)) (exact : ℂ) : Prop where
  bounded : ‖scale * exact‖ ≤ size
  near : ‖toComplex value - scale * exact‖ ≤ error

section Rounding

variable {scale size error : ℝ} {value : ℤ√(-1)} {exact : ℂ}

theorem Within.nonneg (within : Within scale size error value exact) : 0 ≤ error :=
  le_trans (norm_nonneg _) within.near

theorem Within.norm_le (within : Within scale size error value exact) :
    ‖toComplex value‖ ≤ size + error := by
  have triangle := norm_sub_norm_le (toComplex value) (scale * exact)
  linarith [within.bounded, within.near]

/-- Rounding adds half a unit in each part; a register with room keeps the value. -/
theorem rounded_within {bits width : Nat} (bounded : ‖scale * exact‖ ≤ size)
    (near : ‖toComplex value / 2 ^ bits - scale * exact‖ ≤ error)
    (room : size + error + 1 ≤ 2 ^ width) :
    Within scale size (error + 7072 / 10000) (rounded bits (width + 1) value) exact := by
  have shape : toComplex ⟨roundHalfEven value.re bits, roundHalfEven value.im bits⟩ -
      toComplex value / 2 ^ bits =
      ⟨(roundHalfEven value.re bits : ℝ) - value.re / 2 ^ bits,
        (roundHalfEven value.im bits : ℝ) - value.im / 2 ^ bits⟩ := by
    have units : (2 : ℂ) ^ bits = ((2 ^ bits : ℝ) : ℂ) := by push_cast; rfl
    rw [units, GaussianInt.toComplex_def₂, GaussianInt.toComplex_def₂]
    refine Complex.ext ?_ ?_
    · rw [Complex.sub_re, Complex.div_ofReal_re]
    · rw [Complex.sub_im, Complex.div_ofReal_im]
  have half : ‖toComplex ⟨roundHalfEven value.re bits, roundHalfEven value.im bits⟩ -
      toComplex value / 2 ^ bits‖ ≤ 7072 / 10000 := by
    have real := abs_le.mp (abs_roundHalfEven_sub_le value.re bits)
    have imaginary := abs_le.mp (abs_roundHalfEven_sub_le value.im bits)
    refine (abs_le_of_sq_le_sq' ?_ (by norm_num)).2
    rw [shape, ← Complex.normSq_eq_norm_sq, Complex.normSq_mk]
    nlinarith
  have moved : ‖toComplex ⟨roundHalfEven value.re bits, roundHalfEven value.im bits⟩ -
      scale * exact‖ ≤ error + 7072 / 10000 := by
    refine le_trans (norm_sub_le_norm_sub_add_norm_sub _ (toComplex value / 2 ^ bits) _) ?_
    linarith
  have small : ‖toComplex ⟨roundHalfEven value.re bits, roundHalfEven value.im bits⟩‖ < 2 ^ width := by
    have triangle := norm_sub_norm_le
      (toComplex ⟨roundHalfEven value.re bits, roundHalfEven value.im bits⟩) (scale * exact)
    linarith
  have real : |((roundHalfEven value.re bits : Int) : ℝ)| < 2 ^ width := by
    refine lt_of_le_of_lt ?_ small
    rw [← GaussianInt.re_toComplex]
    exact Complex.abs_re_le_norm _
  have imaginary : |((roundHalfEven value.im bits : Int) : ℝ)| < 2 ^ width := by
    refine lt_of_le_of_lt ?_ small
    rw [← GaussianInt.im_toComplex]
    exact Complex.abs_im_le_norm _
  obtain ⟨low, high⟩ := abs_lt.mp real
  obtain ⟨low', high'⟩ := abs_lt.mp imaginary
  have kept : rounded bits (width + 1) value =
      ⟨roundHalfEven value.re bits, roundHalfEven value.im bits⟩ := by
    rw [rounded, bmod_two_pow_of_bounds (by exact_mod_cast low.le) (by exact_mod_cast high),
      bmod_two_pow_of_bounds (by exact_mod_cast low'.le) (by exact_mod_cast high')]
  exact ⟨bounded, by rw [kept]; exact moved⟩

theorem Within.weaken {size' error' : ℝ} (within : Within scale size error value exact)
    (larger : size ≤ size') (looser : error ≤ error') : Within scale size' error' value exact :=
  ⟨le_trans within.bounded larger, le_trans within.near looser⟩

/-- Through a factor. -/
theorem gain_near {gain : ℝ} (positive : 0 ≤ gain) (near : ‖toComplex value - scale * exact‖ ≤ error) :
    ‖gain * toComplex value - (gain * scale : ℝ) * exact‖ ≤ gain * error := by
  have common : gain * toComplex value - (gain * scale : ℝ) * exact =
      gain * (toComplex value - scale * exact) := by
    push_cast
    ring
  rw [common, norm_mul, Complex.norm_real, Real.norm_of_nonneg positive]
  exact mul_le_mul_of_nonneg_left near positive

theorem gain_bounded {gain : ℝ} (positive : 0 ≤ gain) (bounded : ‖scale * exact‖ ≤ size) :
    ‖((gain * scale : ℝ) : ℂ) * exact‖ ≤ gain * size := by
  push_cast
  rw [mul_assoc, norm_mul, Complex.norm_real, Real.norm_of_nonneg positive]
  exact mul_le_mul_of_nonneg_left bounded positive

end Rounding

/-! ### Butterflies -/

section Butterflies

variable {scale size error : ℝ} {left right : ℤ√(-1)} {first second : ℂ}
variable (near : Within scale size error left first) (far : Within scale size error right second)
include near far

theorem Within.add : Within scale (2 * size) (2 * error) (left + right) (first + second) := by
  constructor
  · rw [mul_add, two_mul]
    exact le_trans (norm_add_le _ _) (add_le_add near.bounded far.bounded)
  · have parts : toComplex (left + right) - scale * (first + second) =
        (toComplex left - scale * first) + (toComplex right - scale * second) := by
      rw [GaussianInt.toComplex_add]
      ring
    rw [parts, two_mul]
    exact le_trans (norm_add_le _ _) (add_le_add near.near far.near)

theorem Within.sub : Within scale (2 * size) (2 * error) (left - right) (first - second) := by
  constructor
  · rw [mul_sub, two_mul]
    exact le_trans (norm_sub_le _ _) (add_le_add near.bounded far.bounded)
  · have parts : toComplex (left - right) - scale * (first - second) =
        (toComplex left - scale * first) - (toComplex right - scale * second) := by
      rw [GaussianInt.toComplex_sub]
      ring
    rw [parts, two_mul]
    exact le_trans (norm_sub_le _ _) (add_le_add near.near far.near)

omit far in
/-- A rounded quotient, without a coefficient. -/
theorem Within.quotient {bits width : Nat} {gain : ℝ} (divides : gain * 2 ^ bits = 1)
    (room : gain * size + gain * error + 1 ≤ 2 ^ width) :
    Within (gain * scale) (gain * size) (gain * error + 7072 / 10000) (rounded bits (width + 1) left)
      first := by
  have units : (0 : ℝ) < 2 ^ bits := by positivity
  have positive : 0 ≤ gain := by
    by_contra negative
    nlinarith
  have quotient : toComplex left / 2 ^ bits = gain * toComplex left := by
    have inverse : (gain : ℂ) * 2 ^ bits = 1 := by exact_mod_cast divides
    rw [div_eq_iff (pow_ne_zero _ two_ne_zero), mul_right_comm, inverse, one_mul]
  refine rounded_within (gain_bounded positive near.bounded) ?_ room
  rw [quotient]
  exact gain_near positive near.near

/-- What the error of a layer becomes. -/
theorem difButterfly_within {iwidth cwidth width shift : Nat} {coef : ℤ√(-1)} {root : ℂ} {gain : ℝ}
    (unit : ‖root‖ = 1) (accurate : ‖toComplex coef - 2 ^ (cwidth - 2) * root‖ ≤ 7 / 10)
    (divides : gain * 2 ^ lostBits iwidth cwidth (width + 1) shift = 2 ^ (cwidth - 2))
    (room : 2 * gain * size + (2 * gain * error + (2 * size + 2 * error) * (7 / 10) /
      2 ^ lostBits iwidth cwidth (width + 1) shift) + 1 ≤ 2 ^ width) :
    Within (gain * scale) (2 * gain * size) (2 * gain * error + (2 * size + 2 * error) * (7 / 10) /
        2 ^ lostBits iwidth cwidth (width + 1) shift + 7072 / 10000)
        (difButterfly iwidth cwidth (width + 1) shift coef left right).1 (first + second) ∧
      Within (gain * scale) (2 * gain * size) (2 * gain * error + (2 * size + 2 * error) * (7 / 10) /
        2 ^ lostBits iwidth cwidth (width + 1) shift + 7072 / 10000)
        (difButterfly iwidth cwidth (width + 1) shift coef left right).2 ((first - second) * root) := by
  have sum := near.add far
  have diff := near.sub far
  have large := diff.norm_le
  have nonneg := le_trans (norm_nonneg _) large
  rw [difButterfly]
  generalize lostBits iwidth cwidth (width + 1) shift = bits at divides room ⊢
  have units : (0 : ℝ) < 2 ^ bits := by positivity
  have positive : 0 ≤ gain := by
    have power : (0 : ℝ) < 2 ^ (cwidth - 2) := by positivity
    by_contra negative
    nlinarith
  have ratio : (2 : ℂ) ^ (cwidth - 2) = gain * 2 ^ bits := by exact_mod_cast divides.symm
  have nonzero : (2 : ℂ) ^ bits ≠ 0 := pow_ne_zero _ two_ne_zero
  have double : gain * (2 * size) = 2 * gain * size := by ring
  have double' : gain * (2 * error) = 2 * gain * error := by ring
  have slack : 0 ≤ (2 * size + 2 * error) * (7 / 10) / 2 ^ bits := by positivity
  constructor
  · refine rounded_within ?_ ?_ room
    · rw [← double]
      exact gain_bounded positive sum.bounded
    · have quotient : toComplex (((2 ^ (cwidth - 2) : Int) : ℤ√(-1)) * (left + right)) / 2 ^ bits =
          gain * toComplex (left + right) := by
        rw [GaussianInt.toComplex_mul, map_intCast]
        push_cast
        rw [ratio, mul_right_comm, mul_div_assoc, div_self nonzero, mul_one]
      have gained := gain_near positive sum.near
      rw [quotient]
      linarith
  · refine rounded_within ?_ ?_ room
    · rw [← double, ← mul_assoc, norm_mul, unit, mul_one]
      exact gain_bounded positive diff.bounded
    · have quotient : toComplex ((left - right) * coef) / 2 ^ bits - (gain * scale : ℝ) *
          ((first - second) * root) =
          toComplex (left - right) * (toComplex coef - 2 ^ (cwidth - 2) * root) / 2 ^ bits +
            (gain * toComplex (left - right) - (gain * scale : ℝ) * (first - second)) * root := by
        rw [GaussianInt.toComplex_mul, ratio]
        field_simp
        ring
      have gained := gain_near positive diff.near
      have coefficient : ‖toComplex (left - right) * (toComplex coef - 2 ^ (cwidth - 2) * root) /
          2 ^ bits‖ ≤ (2 * size + 2 * error) * (7 / 10) / 2 ^ bits := by
        rw [norm_div, norm_mul, norm_pow, Complex.norm_ofNat]
        exact div_le_div_of_nonneg_right (mul_le_mul large accurate (norm_nonneg _) nonneg) units.le
      have turned : ‖(gain * toComplex (left - right) - (gain * scale : ℝ) * (first - second)) * root‖ ≤
          gain * (2 * error) := by
        rwa [norm_mul, unit, mul_one]
      rw [quotient]
      refine le_trans (norm_add_le _ _) ?_
      linarith

end Butterflies

/-! ### The layers -/

/-- The scale, the largest size and the error of the values below a layer. -/
noncomputable def scaleAt (level : Nat) : ℝ :=
  if level = 10 then 1 else if level = 0 then 1 / 512 else (2 ^ level : ℕ) / 256

noncomputable def sizeAt (level : Nat) : ℝ :=
  if level = 10 then 16376 else if level = 0 then 32752 else 65504

noncomputable def errorAt (level : Nat) : ℝ :=
  if level = 10 then 0 else if level = 0 then 5 else 141 / 100 + (9 - level) * (8825 / 10000)

def WithinAt (level : Nat) (value : ℤ√(-1)) (exact : ℂ) : Prop :=
  Within (scaleAt level) (sizeAt level) (errorAt level) value exact

section Layers

variable {left right : ℤ√(-1)} {first second : ℂ}

theorem norm_unitRoot_pow (lg count : Nat) : ‖unitRoot lg ^ count‖ = 1 := by
  rw [norm_pow, norm_unitRoot, one_pow]

/-- The first layer doubles. -/
theorem first_layer {place : Nat} (inside : place < 2 ^ 9) (near : WithinAt 10 left first)
    (far : WithinAt 10 right second) :
    WithinAt 9 (fftBfly hexFiles.value 9 place left right).1 (exactBfly unitRoot 9 place first second).1 ∧
      WithinAt 9 (fftBfly hexFiles.value 9 place left right).2
        (exactBfly unitRoot 9 place first second).2 := by
  have accurate := @hexFiles_near 9 place (by decide) (by decide) inside
  have both := @difButterfly_within _ _ _ _ _ _ _ near far 16 18 17 0 (hexFiles.value 9 place)
    (unitRoot 10 ^ place) 2 (norm_unitRoot_pow 10 place) accurate (by norm_num [lostBits])
    (by norm_num [lostBits, sizeAt, errorAt])
  have scale : 2 * scaleAt 10 = scaleAt 9 := by norm_num [scaleAt]
  rw [scale] at both
  have larger : 2 * 2 * sizeAt 10 ≤ sizeAt 9 := by norm_num [sizeAt]
  have looser : 2 * 2 * errorAt 10 + (2 * sizeAt 10 + 2 * errorAt 10) * (7 / 10) /
      2 ^ lostBits 16 18 18 0 + 7072 / 10000 ≤ errorAt 9 := by
    norm_num [lostBits, sizeAt, errorAt]
  exact ⟨both.1.weaken larger looser, both.2.weaken larger looser⟩

/-- The layers below halve. -/
theorem middle_layer {level place : Nat} (wide : 2 ≤ level) (narrow : level ≤ 8)
    (inside : place < 2 ^ level) (near : WithinAt (level + 1) left first)
    (far : WithinAt (level + 1) right second) :
    WithinAt level (fftBfly hexFiles.value level place left right).1
        (exactBfly unitRoot level place first second).1 ∧
      WithinAt level (fftBfly hexFiles.value level place left right).2
        (exactBfly unitRoot level place first second).2 := by
  have accurate := @hexFiles_near level place wide (Nat.le_succ_of_le narrow) inside
  rw [if_neg (by omega)] at accurate
  have low : (2 : ℝ) ≤ level := by exact_mod_cast wide
  have high : (level : ℝ) ≤ 8 := by exact_mod_cast narrow
  have size : sizeAt (level + 1) = 65504 := by
    rw [sizeAt, if_neg (by omega), if_neg (by omega)]
  have size' : sizeAt level = 65504 := by rw [sizeAt, if_neg (by omega), if_neg (by omega)]
  have error : errorAt (level + 1) = 141 / 100 + (8 - level) * (8825 / 10000) := by
    rw [errorAt, if_neg (by omega), if_neg (by omega)]
    push_cast
    ring
  have error' : errorAt level = 141 / 100 + (9 - level) * (8825 / 10000) := by
    rw [errorAt, if_neg (by omega), if_neg (by omega)]
  have scale : 1 / 2 * scaleAt (level + 1) = scaleAt level := by
    rw [scaleAt, scaleAt, if_neg (by omega), if_neg (by omega), if_neg (by omega),
      if_neg (by omega), pow_succ]
    push_cast
    ring
  have bits : lostBits 18 20 18 0 = 19 := rfl
  have both := @difButterfly_within _ _ _ _ _ _ _ near far 18 20 17 0 (hexFiles.value level place)
    (unitRoot (level + 1) ^ place) (1 / 2) (norm_unitRoot_pow _ _) accurate
    (by norm_num [lostBits]) (by rw [bits, size, error]; norm_num; linarith)
  rw [scale, bits] at both
  have larger : 2 * (1 / 2) * sizeAt (level + 1) ≤ sizeAt level := by
    rw [size, size']
    norm_num
  have looser : 2 * (1 / 2) * errorAt (level + 1) + (2 * sizeAt (level + 1) +
      2 * errorAt (level + 1)) * (7 / 10) / 2 ^ 19 + 7072 / 10000 ≤ errorAt level := by
    rw [size, error, error']
    norm_num
    linarith
  have bfly : fftBfly hexFiles.value level place left right =
      difButterfly 18 20 18 0 (hexFiles.value level place) left right := by
    interval_cases level <;> rfl
  rw [bfly]
  exact ⟨both.1.weaken larger looser, both.2.weaken larger looser⟩

theorem unitRoot_two : unitRoot 2 = -Complex.I := by
  have angle : (-(2 * Real.pi * Complex.I) / 2 ^ 2 : ℂ) = -(Real.pi / 2 * Complex.I) := by ring
  rw [unitRoot, angle, Complex.exp_neg, Complex.exp_pi_div_two_mul_I, Complex.inv_I]

/-- The turn of `qtrstage` is exact. -/
theorem turned_within {scale size error : ℝ} {value : ℤ√(-1)} {exact : ℂ}
    (within : Within scale size error value exact) (room : size + error ≤ 2 ^ 17 - 1) :
    Within scale size error ⟨value.im, (-value.re).bmod (2 ^ 18)⟩ (exact * unitRoot 2) := by
  have small : |(value.re : ℝ)| ≤ 2 ^ 17 - 1 := by
    rw [← GaussianInt.re_toComplex value.re value.im]
    exact le_trans (le_trans (Complex.abs_re_le_norm _) within.norm_le) room
  obtain ⟨low, high⟩ := abs_le.mp small
  have low' : -(2 ^ 17 - 1) ≤ value.re := by exact_mod_cast low
  have high' : value.re ≤ 2 ^ 17 - 1 := by exact_mod_cast high
  have kept : (-value.re).bmod (2 ^ 18) = -value.re :=
    bmod_two_pow_of_bounds (by omega) (by omega)
  have turned : toComplex ⟨value.im, -value.re⟩ = toComplex value * unitRoot 2 := by
    rw [unitRoot_two, GaussianInt.toComplex_def, GaussianInt.toComplex_def]
    refine Complex.ext ?_ ?_ <;> simp
  rw [kept]
  constructor
  · rw [← mul_assoc, norm_mul, norm_unitRoot, mul_one]
    exact within.bounded
  · rw [turned, ← mul_assoc, ← sub_mul, norm_mul, norm_unitRoot, mul_one]
    exact within.near

theorem quarter_layer {place : Nat} (inside : place < 2 ^ 1) (near : WithinAt 2 left first)
    (far : WithinAt 2 right second) :
    WithinAt 1 (fftBfly hexFiles.value 1 place left right).1
        (exactBfly unitRoot 1 place first second).1 ∧
      WithinAt 1 (fftBfly hexFiles.value 1 place left right).2
        (exactBfly unitRoot 1 place first second).2 := by
  have scale : 1 / 2 * scaleAt 2 = scaleAt 1 := by norm_num [scaleAt]
  have sum := @Within.quotient _ _ _ _ _ (near.add far) 1 17 (1 / 2) (by norm_num)
    (by norm_num [sizeAt, errorAt])
  have diff := @Within.quotient _ _ _ _ _ (near.sub far) 1 17 (1 / 2) (by norm_num)
    (by norm_num [sizeAt, errorAt])
  rw [scale] at sum diff
  have larger : 1 / 2 * (2 * sizeAt 2) ≤ sizeAt 1 := by norm_num [sizeAt]
  have looser : 1 / 2 * (2 * errorAt 2) + 7072 / 10000 ≤ errorAt 1 := by norm_num [errorAt]
  refine ⟨sum.weaken larger looser, ?_⟩
  change WithinAt 1 (if place = 0 then rounded 1 18 (left - right) else _)
    ((first - second) * unitRoot 2 ^ place)
  split_ifs with even
  · rw [even, pow_zero, mul_one]
    exact diff.weaken larger looser
  · obtain rfl : place = 1 := by omega
    rw [pow_one]
    exact turned_within (diff.weaken larger looser) (by norm_num [sizeAt, errorAt])

theorem last_layer {place : Nat} (inside : place < 2 ^ 0) (near : WithinAt 1 left first)
    (far : WithinAt 1 right second) :
    WithinAt 0 (fftBfly hexFiles.value 0 place left right).1
        (exactBfly unitRoot 0 place first second).1 ∧
      WithinAt 0 (fftBfly hexFiles.value 0 place left right).2
        (exactBfly unitRoot 0 place first second).2 := by
  have scale : 1 / 4 * scaleAt 1 = scaleAt 0 := by norm_num [scaleAt]
  have sum := @Within.quotient _ _ _ _ _ (near.add far) 2 15 (1 / 4) (by norm_num)
    (by norm_num [sizeAt, errorAt])
  have diff := @Within.quotient _ _ _ _ _ (near.sub far) 2 15 (1 / 4) (by norm_num)
    (by norm_num [sizeAt, errorAt])
  rw [scale] at sum diff
  have larger : 1 / 4 * (2 * sizeAt 1) ≤ sizeAt 0 := by norm_num [sizeAt]
  have looser : 1 / 4 * (2 * errorAt 1) + 7072 / 10000 ≤ errorAt 0 := by norm_num [errorAt]
  refine ⟨sum.weaken larger looser, ?_⟩
  obtain rfl : place = 0 := by omega
  change WithinAt 0 (rounded 2 16 (left - right)) ((first - second) * unitRoot 1 ^ 0)
  rw [pow_zero, mul_one]
  exact diff.weaken larger looser

end Layers

/-- The network stays within five units of a 512th of the transform. -/
theorem network_within (stream : Nat → ℤ√(-1))
    (small : ∀ index, ‖toComplex (stream index)‖ ≤ 16376) (index : Nat) :
    WithinAt 0 (dif 10 (fftBfly hexFiles.value) stream index)
      (dif 10 (exactBfly unitRoot) (fun index => toComplex (stream index)) index) := by
  refine dif_relates (fun level below place inside left right left' right' near far => ?_)
    (fun index => ?_) index
  · obtain rfl | rfl | ⟨wide, narrow⟩ | rfl : level = 0 ∨ level = 1 ∨ (2 ≤ level ∧ level ≤ 8) ∨
        level = 9 := by omega
    · exact last_layer inside near far
    · exact quarter_layer inside near far
    · exact middle_layer wide narrow inside near far
    · exact first_layer inside near far
  · have one : scaleAt 10 = 1 := by norm_num [scaleAt]
    constructor
    · rw [one, Complex.ofReal_one, one_mul]
      exact le_trans (small index) (by norm_num [sizeAt])
    · rw [one, Complex.ofReal_one, one_mul, sub_self, norm_zero]
      norm_num [errorAt]

/-! ### The memory -/

/-- The exact transform of the first 1024 of some words. -/
noncomputable def fourier (words : List (BitVec 32)) (bin : Nat) : ℂ :=
  ∑ item ∈ Finset.range (2 ^ 10),
    toComplex (unpack (words[item]?.getD 0)).value * unitRoot 10 ^ (item * bin)

/-- When `o_int` is set, in a run whose data writes keep clear of the resets and whose
samples are no larger than 16376, each word of the memory is within five units of a
512th of the transform of the samples written. -/
theorem wbfft_memory_is_transform (device : Wbfft 10 FftMain) (first : FftClock 10)
    (clocks : List (FftClock 10))
    (gentle : ∀ before clock after, clocks = before ++ clock :: after →
      (clocked (FftRun.step (fftCore hexFiles) 3) (FftRun.start (fftCore hexFiles) 3 device first)
        before).Gentle clock) :
    let run := clocked (FftRun.step (fftCore hexFiles) 3)
      (FftRun.start (fftCore hexFiles) 3 device first) clocks
    run.device.fftReset = false → run.device.int = true →
      (∀ item < 2 ^ 10, ∀ word, run.written[item]? = some word →
        (unpack word).value.re ^ 2 + (unpack word).value.im ^ 2 ≤ 16376 ^ 2) →
      ∀ bin : BitVec 10,
        ‖toComplex (unpack (run.device.mem bin)).value - fourier run.written bin.toNat / 2 ^ 9‖ ≤ 5 := by
  intro run live high small bin
  have start : (FftRun.start (fftCore hexFiles) 3 device first).Sound (fftCore hexFiles) 3 :=
    FftRun.start_sound device first
  have sound : run.Sound (fftCore hexFiles) 3 := start.through (by decide) fftCore_conforms gentle
  have waiting : (FftRun.start (fftCore hexFiles) 3 device first).device.fftReset = false →
      Transforming hexFiles (FftRun.start (fftCore hexFiles) 3 device first) := fun ready => by
    cases ready
  obtain ⟨enough, memory⟩ := (Transforming.through start waiting gentle live).memory sound live high
  have place := memory bin.reverse
  rw [BitVec.reverse_reverse_eq] at place
  let block (index : Nat) : ℤ√(-1) :=
    if index < 2 ^ 10 then (unpack (run.written[index]?.getD 0)).value else 0
  have bounded (index : Nat) : ‖toComplex (block index)‖ ≤ 16376 := by
    by_cases inside : index < 2 ^ 10
    · obtain ⟨word, found⟩ : ∃ word, run.written[index]? = some word :=
        ⟨_, List.getElem?_eq_getElem (Nat.lt_of_lt_of_le inside enough)⟩
      have square := small index inside word found
      simp only [block, if_pos inside, found, Option.getD_some]
      refine (abs_le_of_sq_le_sq' ?_ (by norm_num)).2
      rw [← Complex.normSq_eq_norm_sq, GaussianInt.toComplex_def₂, Complex.normSq_mk, ← sq, ← sq]
      exact_mod_cast square
    · simp only [block, if_neg inside, GaussianInt.toComplex_zero, norm_zero]
      norm_num
  have within := network_within block bounded bin.reverse.toNat
  have origin : bin.reverse.toNat - bin.reverse.toNat % 2 ^ 10 = 0 := by
    rw [Nat.mod_eq_of_lt bin.reverse.isLt, Nat.sub_self]
  have network : dif 10 (fftBfly hexFiles.value) block bin.reverse.toNat =
      (unpack (run.device.mem bin)).value := by
    rw [place]
    refine dif_block fun item inside => ?_
    rw [origin, Nat.zero_add]
    exact if_pos inside
  have exact : dif 10 (exactBfly unitRoot) (fun index => toComplex (block index))
      bin.reverse.toNat = fourier run.written bin.toNat := by
    rw [dif_exact unitRoot_roots, bitReverse_toNat, BitVec.reverse_reverse_eq, origin, fourier]
    refine Finset.sum_congr rfl fun item inside => ?_
    rw [Finset.mem_range] at inside
    rw [Nat.zero_add]
    simp only [block, if_pos inside]
  have near := within.near
  have scale : ((scaleAt 0 : ℝ) : ℂ) = 1 / 2 ^ 9 := by norm_num [scaleAt]
  rw [network, exact, scale, one_div_mul_eq_div] at near
  exact le_trans near (by norm_num [errorAt])

theorem wave_transform :
    ‖toComplex (unpack ((clocked (FftRun.step (fftCore hexFiles) 3)
        (FftRun.start (fftCore hexFiles) 3 powerUp FftRun.nop)
        (FftRun.loading squareWave 0xe0000000 ++ List.replicate 3285 FftRun.nop)).device.mem 5)).value -
      fourier (clocked (FftRun.step (fftCore hexFiles) 3)
        (FftRun.start (fftCore hexFiles) 3 powerUp FftRun.nop)
        (FftRun.loading squareWave 0xe0000000 ++ List.replicate 3285 FftRun.nop)).written 5 / 2 ^ 9‖ ≤ 5 := by
  obtain ⟨live, done⟩ := @FftRun.loading_done hexFiles squareWave powerUp FftRun.nop 0xe0000000
    squareWave_length
  have written := (@FftRun.loading_written hexFiles squareWave powerUp FftRun.nop 0xe0000000
    squareWave_short).2
  refine wbfft_memory_is_transform powerUp FftRun.nop
    (FftRun.loading squareWave 0xe0000000 ++ List.replicate 3285 FftRun.nop) (FftRun.loading_gentle 3285) live done ?_ 5
  intro item _ word found
  have height : word = 0x20000000 ∨ word = 0xe0000000 := by
    rw [clocked_append, FftRun.written_wait, written] at found
    rcases List.mem_append.mp (List.mem_of_getElem? found) with inside | inside
    · exact mem_squareWave inside
    · exact .inr (List.mem_singleton.mp inside)
  rcases height with rfl | rfl
  · decide
  · decide

end ZipVersa.Fft
