import Mathlib.Analysis.Complex.Trigonometric
import Mathlib.Analysis.Real.Pi.Bounds
import Mathlib.Analysis.SpecialFunctions.Trigonometric.Basic
import Mathlib.NumberTheory.Zsqrtd.GaussianInt
import ZipVersa.Lib.Dif

/-! The roots of unity of a transform, and tables of their powers in fixed
point: a table is checked against powers computed in a finer one. -/

set_option autoImplicit false

namespace ZipVersa.Lib

/-! ### Roots of unity -/

/-- The root of order `2 ^ lg` that turns clockwise. -/
noncomputable def unitRoot (lg : Nat) : ℂ := Complex.exp (-(2 * Real.pi * Complex.I) / 2 ^ lg)

theorem unitRoot_succ_sq (lg : Nat) : unitRoot (lg + 1) ^ 2 = unitRoot lg := by
  rw [unitRoot, unitRoot, ← Complex.exp_nat_mul]
  congr 1
  rw [pow_succ]
  push_cast
  field_simp

theorem unitRoot_roots : Roots unitRoot where
  unit := by
    rw [unitRoot, pow_zero, div_one, Complex.exp_neg, Complex.exp_two_pi_mul_I, inv_one]
  half := by
    have turn : -(2 * Real.pi * Complex.I) / 2 ^ 1 = -(Real.pi * Complex.I) := by ring
    rw [unitRoot, turn, Complex.exp_neg, Complex.exp_pi_mul_I, inv_neg, inv_one]
  square := unitRoot_succ_sq

theorem unitRoot_pow (lg more : Nat) : unitRoot (lg + more) ^ 2 ^ more = unitRoot lg := by
  induction more with
  | zero => exact pow_one _
  | succ more ih => rw [Nat.pow_succ', pow_mul, ← Nat.add_assoc, unitRoot_succ_sq, ih]

/-- The angle of the root of order `2 ^ lg`. -/
theorem unitRoot_eq (lg : Nat) :
    unitRoot lg = Complex.exp ((-(2 * Real.pi / 2 ^ lg) : ℝ) * Complex.I) := by
  rw [unitRoot]
  congr 1
  push_cast
  ring

theorem norm_unitRoot (lg : Nat) : ‖unitRoot lg‖ = 1 := by
  rw [unitRoot_eq, Complex.norm_exp_ofReal_mul_I]

/-! ### Fixed point -/

/-- The product of two numbers with `bits` bits behind the point. -/
def fixedMul (bits : Nat) (first second : ℤ√(-1)) : ℤ√(-1) :=
  ⟨(first * second).re / 2 ^ bits, (first * second).im / 2 ^ bits⟩

noncomputable def fixedValue (bits : Nat) (number : ℤ√(-1)) : ℂ :=
  GaussianInt.toComplex number / 2 ^ bits

theorem abs_floor_div_le (number : Int) (bits : Nat) :
    |((number / 2 ^ bits : Int) : ℝ) - number / 2 ^ bits| ≤ 1 := by
  have positive : (0 : ℝ) < 2 ^ bits := by positivity
  have parts := Int.ediv_mul_add_emod number (2 ^ bits)
  have low := Int.emod_nonneg number (ne_of_gt (pow_pos (by decide : (0 : Int) < 2) bits))
  have high := Int.emod_lt_of_pos number (pow_pos (by decide : (0 : Int) < 2) bits)
  have split : (number : ℝ) = (number / 2 ^ bits : Int) * 2 ^ bits + (number % 2 ^ bits : Int) := by
    exact_mod_cast parts.symm
  have below : ((number % 2 ^ bits : Int) : ℝ) < 2 ^ bits := by exact_mod_cast high
  have above : (0 : ℝ) ≤ ((number % 2 ^ bits : Int) : ℝ) := by exact_mod_cast low
  have rest : ((number / 2 ^ bits : Int) : ℝ) - number / 2 ^ bits =
      -(((number % 2 ^ bits : Int) : ℝ) / 2 ^ bits) := by
    rw [split]
    field_simp
    ring
  rw [rest, abs_neg, abs_of_nonneg (by positivity), div_le_one positive]
  exact below.le

/-- The product is cut off by less than two units. -/
theorem fixedMul_near (bits : Nat) (first second : ℤ√(-1)) :
    ‖fixedValue bits (fixedMul bits first second) -
      fixedValue bits first * fixedValue bits second‖ ≤ 2 / 2 ^ bits := by
  have positive : (0 : ℝ) < 2 ^ bits := by positivity
  have cut : fixedValue bits (fixedMul bits first second) -
      fixedValue bits first * fixedValue bits second =
      (GaussianInt.toComplex (fixedMul bits first second) -
        GaussianInt.toComplex (first * second) / 2 ^ bits) / 2 ^ bits := by
    rw [fixedValue, fixedValue, fixedValue, GaussianInt.toComplex_mul]
    field_simp
  have parts : ‖GaussianInt.toComplex (fixedMul bits first second) -
      GaussianInt.toComplex (first * second) / 2 ^ bits‖ ≤ 2 := by
    have real := abs_floor_div_le (first * second).re bits
    have imaginary := abs_floor_div_le (first * second).im bits
    refine le_trans (Complex.norm_le_abs_re_add_abs_im _) ?_
    have shape : GaussianInt.toComplex (fixedMul bits first second) -
        GaussianInt.toComplex (first * second) / 2 ^ bits =
        ⟨(((first * second).re / 2 ^ bits : Int) : ℝ) - (first * second).re / 2 ^ bits,
          (((first * second).im / 2 ^ bits : Int) : ℝ) - (first * second).im / 2 ^ bits⟩ := by
      have scale : (2 : ℂ) ^ bits = ((2 ^ bits : ℝ) : ℂ) := by push_cast; rfl
      rw [scale, GaussianInt.toComplex_def₂, GaussianInt.toComplex_def₂]
      refine Complex.ext ?_ ?_
      · rw [Complex.sub_re, Complex.div_ofReal_re]
        rfl
      · rw [Complex.sub_im, Complex.div_ofReal_im]
        rfl
    rw [shape]
    dsimp only
    linarith
  rw [cut, norm_div, norm_pow, Complex.norm_ofNat]
  exact div_le_div_of_nonneg_right parts positive.le

/-- Powers in fixed point. -/
def fixedPower (bits : Nat) (step : ℤ√(-1)) (count : Nat) : ℤ√(-1) :=
  (fixedMul bits step)^[count] ⟨2 ^ bits, 0⟩

theorem fixedPower_succ (bits : Nat) (step : ℤ√(-1)) (count : Nat) :
    fixedPower bits step (count + 1) = fixedMul bits step (fixedPower bits step count) :=
  Function.iterate_succ_apply' _ _ _

theorem fixedPower_near {bits : Nat} {step : ℤ√(-1)} {root : ℂ} {error : ℝ} (unit : ‖root‖ = 1)
    (near : ‖fixedValue bits step - root‖ ≤ error) (count : Nat)
    (small : count * (2 * error + 2 / 2 ^ bits) ≤ 1) :
    ‖fixedValue bits (fixedPower bits step count) - root ^ count‖ ≤
      count * (2 * error + 2 / 2 ^ bits) := by
  have positive : 0 ≤ error := le_trans (norm_nonneg _) near
  have each : 0 ≤ 2 * error + 2 / 2 ^ bits := by positivity
  induction count with
  | zero =>
      have one : fixedValue bits (fixedPower bits step 0) = 1 := by
        rw [fixedPower, Function.iterate_zero_apply, fixedValue, GaussianInt.toComplex_def']
        push_cast
        field_simp
        ring
      simp [one]
  | succ count ih =>
      push_cast at small ⊢
      have before := ih (by linarith)
      have cut := fixedMul_near bits step (fixedPower bits step count)
      rw [← fixedPower_succ] at cut
      have size : ‖fixedValue bits (fixedPower bits step count)‖ ≤ 2 := by
        have triangle := norm_sub_norm_le (fixedValue bits (fixedPower bits step count)) (root ^ count)
        rw [norm_pow, unit, one_pow] at triangle
        linarith
      have exact : fixedValue bits (fixedPower bits step (count + 1)) - root ^ (count + 1) =
          (fixedValue bits (fixedPower bits step (count + 1)) -
            fixedValue bits step * fixedValue bits (fixedPower bits step count)) +
          ((fixedValue bits step - root) * fixedValue bits (fixedPower bits step count) +
            root * (fixedValue bits (fixedPower bits step count) - root ^ count)) := by
        ring
      have turned : ‖(fixedValue bits step - root) *
          fixedValue bits (fixedPower bits step count)‖ ≤ error * 2 := by
        rw [norm_mul]
        exact mul_le_mul near size (norm_nonneg _) positive
      have carried : ‖root * (fixedValue bits (fixedPower bits step count) - root ^ count)‖ ≤
          count * (2 * error + 2 / 2 ^ bits) := by
        rwa [norm_mul, unit, one_mul]
      rw [exact]
      refine le_trans (norm_add_le _ _) ?_
      have sum := norm_add_le ((fixedValue bits step - root) *
        fixedValue bits (fixedPower bits step count))
        (root * (fixedValue bits (fixedPower bits step count) - root ^ count))
      linarith

/-! ### Tables -/

/-- Whether an entry, moved up by `scale` bits, is within `tolerance`. -/
def close (scale : Nat) (tolerance : Int) (entry power : ℤ√(-1)) : Bool :=
  decide ((entry.re * 2 ^ scale - power.re) ^ 2 + (entry.im * 2 ^ scale - power.im) ^ 2 ≤
    tolerance ^ 2)

/-- The entries are close to every `stride`-th power, from `power` on. -/
def follows (bits scale stride : Nat) (tolerance : Int) (step : ℤ√(-1)) :
    List (ℤ√(-1)) → ℤ√(-1) → Bool
  | [], _ => true
  | entry :: rest, power => close scale tolerance entry power &&
      follows bits scale stride tolerance step rest ((fixedMul bits step)^[stride] power)

section Tables

variable {bits scale stride : Nat} {tolerance : Int} {step : ℤ√(-1)}

theorem follows_getElem {entries : List (ℤ√(-1))} {power : ℤ√(-1)}
    (checked : follows bits scale stride tolerance step entries power = true) {index : Nat}
    {entry : ℤ√(-1)} (found : entries[index]? = some entry) :
    close scale tolerance entry ((fixedMul bits step)^[stride * index] power) = true := by
  induction entries generalizing power index with
  | nil =>
      rw [List.getElem?_nil] at found
      cases found
  | cons first rest ih =>
      obtain ⟨here, later⟩ := Bool.and_eq_true_iff.mp checked
      cases index with
      | zero =>
          cases found
          exact here
      | succ index =>
          have next := ih later found
          rwa [← Function.iterate_add_apply] at next

/-- What `close` says of the values. -/
theorem norm_le_of_close {entry power : ℤ√(-1)} (positive : 0 ≤ tolerance)
    (checked : close scale tolerance entry power = true) :
    ‖GaussianInt.toComplex entry * 2 ^ scale - GaussianInt.toComplex power‖ ≤ tolerance := by
  have squares := of_decide_eq_true checked
  have shape : GaussianInt.toComplex entry * 2 ^ scale - GaussianInt.toComplex power =
      GaussianInt.toComplex ⟨entry.re * 2 ^ scale - power.re, entry.im * 2 ^ scale - power.im⟩ := by
    rw [GaussianInt.toComplex_def, GaussianInt.toComplex_def, GaussianInt.toComplex_def']
    push_cast
    ring
  refine abs_le_of_sq_le_sq' ?_ (by exact_mod_cast positive) |>.2
  rw [shape, ← Complex.normSq_eq_norm_sq, Complex.normSq_apply, GaussianInt.re_toComplex,
    GaussianInt.im_toComplex, ← sq, ← sq]
  exact_mod_cast squares

/-- The entries of a checked table are near the powers. -/
theorem follows_near {entries : List (ℤ√(-1))} {root : ℂ} {error : ℝ} (unit : ‖root‖ = 1)
    (near : ‖fixedValue (bits + scale) step - root‖ ≤ error) (positive : 0 ≤ tolerance)
    (checked : follows (bits + scale) scale stride tolerance step entries ⟨2 ^ (bits + scale), 0⟩ =
      true) {index : Nat} {entry : ℤ√(-1)} (found : entries[index]? = some entry)
    (small : (stride * index : Nat) * (2 * error + 2 / 2 ^ (bits + scale)) ≤ 1) :
    ‖fixedValue bits entry - (root ^ stride) ^ index‖ ≤
      tolerance / 2 ^ (bits + scale) +
        (stride * index : Nat) * (2 * error + 2 / 2 ^ (bits + scale)) := by
  have size : (0 : ℝ) < 2 ^ (bits + scale) := by positivity
  have table := norm_le_of_close positive (follows_getElem checked found)
  have power := fixedPower_near unit near (stride * index) small
  have scaled : fixedValue bits entry - fixedValue (bits + scale)
      (fixedPower (bits + scale) step (stride * index)) =
      (GaussianInt.toComplex entry * 2 ^ scale -
        GaussianInt.toComplex (fixedPower (bits + scale) step (stride * index))) /
          2 ^ (bits + scale) := by
    rw [fixedValue, fixedValue, pow_add]
    field_simp
  have entries_near : ‖fixedValue bits entry - fixedValue (bits + scale)
      (fixedPower (bits + scale) step (stride * index))‖ ≤ tolerance / 2 ^ (bits + scale) := by
    rw [scaled, norm_div, norm_pow, Complex.norm_ofNat]
    exact div_le_div_of_nonneg_right table size.le
  rw [← pow_mul]
  exact le_trans (norm_sub_le_norm_sub_add_norm_sub _ _ _) (add_le_add entries_near power)

end Tables

end ZipVersa.Lib
