import Mathlib.Algebra.Order.Ring.Abs
import Mathlib.NumberTheory.Zsqrtd.Basic
import Mathlib.Tactic.Common
import Mathlib.Tactic.Ring
import ZipVersa.Fft.HwBfly

/-! The butterfly on complex integers, and that `hwbfly` computes it: the three
products of its multiplier make the complex product, and no width cuts a value
short before the rounding. -/

set_option autoImplicit false

namespace ZipVersa.Fft

open Lib

/-! ### Complex integers -/

/-- The complex integer of a word. -/
def Sample.value {width : Nat} (sample : Sample width) : ℤ√(-1) :=
  ⟨sample.re.toInt, sample.im.toInt⟩

/-- Both parts divided by `2 ^ bits`, to the nearest, in a register of `width` bits. -/
def rounded (bits width : Nat) (value : ℤ√(-1)) : ℤ√(-1) :=
  ⟨(roundHalfEven value.re bits).bmod (2 ^ width), (roundHalfEven value.im bits).bmod (2 ^ width)⟩

/-- Bits an output of the butterfly has below its last one. -/
def lostBits (iwidth cwidth owidth shift : Nat) : Nat := iwidth + cwidth - (owidth + shift + 1)

/-- `O1 = A + B` and `O2 = (A - B) * C`, with `C` a multiple of `2 ^ -(cwidth - 2)`. -/
def difButterfly (iwidth cwidth owidth shift : Nat) (coef left right : ℤ√(-1)) :
    (ℤ√(-1)) × ℤ√(-1) :=
  (rounded (lostBits iwidth cwidth owidth shift) owidth
      (((2 ^ (cwidth - 2) : Int) : ℤ√(-1)) * (left + right)),
    rounded (lostBits iwidth cwidth owidth shift) owidth ((left - right) * coef))

/-! ### Widths -/

section Widths

variable {width more : Nat}

theorem abs_toInt_le (value : BitVec (width + 1)) : |value.toInt| ≤ 2 ^ width := by
  obtain ⟨low, high⟩ := toInt_bounds value
  exact abs_le.mpr ⟨low, Int.le_of_lt high⟩

/-- What leaves one bit to spare is kept. -/
theorem bmod_of_abs_le {value : Int} {bits : Nat} (small : |value| ≤ 2 ^ bits) :
    value.bmod (2 ^ (bits + 2)) = value := by
  obtain ⟨low, high⟩ := abs_le.mp small
  have double : (2 : Int) ^ (bits + 1) = 2 * 2 ^ bits := by ring
  have positive := two_pow_pos bits
  exact bmod_two_pow_of_bounds (by omega) (by omega)

theorem bmod_wide {value : Int} {bits : Nat} (small : |value| ≤ 2 ^ bits) (room : bits + 2 ≤ width) :
    value.bmod (2 ^ width) = value := by
  obtain ⟨more, rfl⟩ := Nat.exists_eq_add_of_le room
  have larger : |value| ≤ 2 ^ (bits + more) :=
    le_trans small (pow_le_pow_right₀ (by decide) (Nat.le_add_right bits more))
  have size : bits + 2 + more = bits + more + 2 := by omega
  rw [size]
  exact bmod_of_abs_le larger

theorem toInt_wideAdd (first second : BitVec width) :
    (HwBfly.wideAdd first second).toInt = first.toInt + second.toInt := by
  rw [HwBfly.wideAdd, BitVec.toInt_add, BitVec.toInt_signExtend_of_le (Nat.le_succ width),
    BitVec.toInt_signExtend_of_le (Nat.le_succ width)]
  cases width with
  | zero => simp [BitVec.toInt_of_zero_length]
  | succ width =>
      obtain ⟨low, high⟩ := toInt_bounds first
      obtain ⟨low', high'⟩ := toInt_bounds second
      have double : (2 : Int) ^ (width + 1) = 2 * 2 ^ width := by ring
      exact bmod_two_pow_of_bounds (by omega) (by omega)

theorem toInt_wideSub (first second : BitVec width) :
    (HwBfly.wideSub first second).toInt = first.toInt - second.toInt := by
  rw [HwBfly.wideSub, BitVec.toInt_sub, BitVec.toInt_signExtend_of_le (Nat.le_succ width),
    BitVec.toInt_signExtend_of_le (Nat.le_succ width)]
  cases width with
  | zero => simp [BitVec.toInt_of_zero_length]
  | succ width =>
      obtain ⟨low, high⟩ := toInt_bounds first
      obtain ⟨low', high'⟩ := toInt_bounds second
      have double : (2 : Int) ^ (width + 1) = 2 * 2 ^ width := by ring
      exact bmod_two_pow_of_bounds (by omega) (by omega)

theorem abs_mul_le {first second : Int} {bits more : Nat} (left : |first| ≤ 2 ^ bits)
    (right : |second| ≤ 2 ^ more) : |first * second| ≤ 2 ^ (bits + more) := by
  rw [abs_mul, pow_add]
  exact mul_le_mul left right (abs_nonneg second) (Int.le_of_lt (two_pow_pos bits))

theorem abs_add_double {first second : Int} {bits : Nat} (left : |first| ≤ 2 ^ bits)
    (right : |second| ≤ 2 ^ bits) : |first + second| ≤ 2 ^ (bits + 1) := by
  have double : (2 : Int) ^ (bits + 1) = 2 ^ bits + 2 ^ bits := by ring
  rw [double]
  exact le_trans (abs_add_le first second) (add_le_add left right)

theorem abs_sub_double {first second : Int} {bits : Nat} (left : |first| ≤ 2 ^ bits)
    (right : |second| ≤ 2 ^ bits) : |first - second| ≤ 2 ^ (bits + 1) := by
  rw [sub_eq_add_neg]
  exact abs_add_double left (by rwa [abs_neg])

end Widths

namespace HwBfly

/-! ### The values in the multiplier -/

section Values

variable {iwidth cwidth owidth shift : Nat} (input : BflyInput (iwidth + 1) (cwidth + 2))

theorem toInt_product (first : BitVec (cwidth + 2 + 1)) (second : BitVec (iwidth + 1 + 2)) :
    (product first second).toInt = first.toInt * second.toInt := by
  rw [product, BitVec.toInt_mul, BitVec.toInt_signExtend_of_le (by omega),
    BitVec.toInt_signExtend_of_le (by omega)]
  exact bmod_wide (abs_mul_le (abs_toInt_le first) (abs_toInt_le second)) (by omega)

theorem toInt_trimmed {wide : BitVec (cwidth + 2 + (iwidth + 1) + 3)}
    (small : |wide.toInt| ≤ 2 ^ (cwidth + 1 + (iwidth + 1))) :
    (trimmed wide).toInt = wide.toInt := by
  have cut : (wide.setWidth (iwidth + 1 + 1 + (cwidth + 2))).toInt = wide.toInt := by
    have whole := toInt_extract wide 0 (iwidth + 1 + 1 + (cwidth + 2)) (by omega)
    rw [← BitVec.setWidth_eq_extractLsb' (by omega), pow_zero, Int.ediv_one] at whole
    rw [whole]
    exact bmod_wide small (by omega)
  rw [trimmed, BitVec.toInt_signExtend_of_le (by omega), cut]

/-- The differences. -/
def dif : ℤ√(-1) := input.left.value - input.right.value

theorem toInt_difR : (difR input).toInt = (dif input).re := toInt_wideSub _ _

theorem toInt_difI : (difI input).toInt = (dif input).im := toInt_wideSub _ _

theorem abs_difR_le : |(dif input).re| ≤ 2 ^ (iwidth + 1) := by
  rw [← toInt_difR]
  exact abs_toInt_le _

theorem abs_difI_le : |(dif input).im| ≤ 2 ^ (iwidth + 1) := by
  rw [← toInt_difI]
  exact abs_toInt_le _

theorem toInt_one : (one input).toInt = input.coef.re.toInt * (dif input).re := by
  rw [one, toInt_product, ← toInt_difR]
  simp [pipeC, pipeD, BitVec.toInt_signExtend_of_le]

theorem toInt_two : (two input).toInt = input.coef.im.toInt * (dif input).im := by
  rw [two, toInt_product, ← toInt_difI]
  simp [pipeC, pipeD, BitVec.toInt_signExtend_of_le]

theorem toInt_three :
    (three input).toInt =
      (input.coef.im.toInt + input.coef.re.toInt) * ((dif input).re + (dif input).im) := by
  rw [three, toInt_product, ← toInt_difR, ← toInt_difI]
  simp [pipeC, pipeD, toInt_wideAdd]

theorem abs_one_le : |(one input).toInt| ≤ 2 ^ (cwidth + 1 + (iwidth + 1)) := by
  rw [toInt_one]
  exact abs_mul_le (abs_toInt_le input.coef.re) (abs_difR_le input)

theorem abs_two_le : |(two input).toInt| ≤ 2 ^ (cwidth + 1 + (iwidth + 1)) := by
  rw [toInt_two]
  exact abs_mul_le (abs_toInt_le input.coef.im) (abs_difI_le input)

theorem toInt_resultR : (resultR input).toInt = (dif input * input.coef.value).re := by
  have exact : (dif input * input.coef.value).re = (one input).toInt - (two input).toInt := by
    rw [toInt_one, toInt_two, Zsqrtd.re_mul]
    simp only [Sample.value]
    ring
  rw [exact, resultR, BitVec.toInt_sub, toInt_trimmed (abs_one_le input),
    toInt_trimmed (abs_two_le input)]
  exact bmod_wide (abs_sub_double (abs_one_le input) (abs_two_le input)) (by omega)

/-- The third product less the other two is the imaginary part. -/
theorem toInt_resultI : (resultI input).toInt = (dif input * input.coef.value).im := by
  have exact : (dif input * input.coef.value).im =
      (three input).toInt - (one input).toInt - (two input).toInt := by
    rw [toInt_one, toInt_two, toInt_three, Zsqrtd.im_mul]
    simp only [Sample.value]
    ring
  have small : |(dif input * input.coef.value).im| ≤ 2 ^ (iwidth + 1 + (cwidth + 1) + 1) := by
    rw [Zsqrtd.im_mul]
    exact abs_add_double (abs_mul_le (abs_difR_le input) (abs_toInt_le input.coef.im))
      (abs_mul_le (abs_difI_le input) (abs_toInt_le input.coef.re))
  rw [resultI, BitVec.toInt_sub, BitVec.toInt_sub, toInt_trimmed (abs_one_le input),
    toInt_trimmed (abs_two_le input), Int.sub_eq_add_neg, Int.bmod_add_bmod,
    ← Int.sub_eq_add_neg, ← exact]
  exact bmod_wide small (by omega)

theorem toInt_leftS (sum : BitVec (iwidth + 1 + 1)) :
    (leftS (cwidth + 2) sum).toInt = 2 ^ cwidth * sum.toInt := by
  have small : |2 ^ cwidth * sum.toInt| ≤ 2 ^ (cwidth + (iwidth + 1)) :=
    abs_mul_le (by rw [abs_of_pos (two_pow_pos cwidth)]) (abs_toInt_le sum)
  have wide : (sum.signExtend (iwidth + 1 + (cwidth + 2) + 1)).toInt = sum.toInt :=
    BitVec.toInt_signExtend_of_le (by omega)
  rw [leftS, BitVec.toInt_shiftLeft, Nat.shiftLeft_eq, Nat.add_sub_cancel, Int.natCast_mul,
    ← Int.bmod_mul_bmod, ← BitVec.toInt_eq_toNat_bmod, wide, Int.natCast_pow, mul_comm]
  exact bmod_wide small (by omega)

/-- What `hwbfly` shows is the butterfly of its inputs. -/
theorem result_value (positive : 0 < owidth) (drops : owidth + shift ≤ iwidth + cwidth + 2) :
    ((result input shift : BflyOutput owidth).left.value,
      (result input shift : BflyOutput owidth).right.value) =
      difButterfly (iwidth + 1) (cwidth + 2) owidth shift input.coef.value input.left.value
        input.right.value := by
  have left : iwidth + 1 + (cwidth + 2) + 1 - (shift + 2) - owidth =
      lostBits (iwidth + 1) (cwidth + 2) owidth shift := by
    unfold lostBits
    omega
  have right : cwidth + 2 + (iwidth + 1) + 3 - (shift + 4) - owidth =
      lostBits (iwidth + 1) (cwidth + 2) owidth shift := by
    unfold lostBits
    omega
  simp only [difButterfly, rounded, Nat.add_sub_cancel, Zsqrtd.re_smul, Zsqrtd.im_smul,
    Zsqrtd.re_add, Zsqrtd.im_add]
  refine Prod.ext (Zsqrtd.ext ?_ ?_) (Zsqrtd.ext ?_ ?_)
  · exact (toInt_convround positive (by omega)).trans (by rw [toInt_leftS, toInt_wideAdd, left]; rfl)
  · exact (toInt_convround positive (by omega)).trans (by rw [toInt_leftS, toInt_wideAdd, left]; rfl)
  · exact (toInt_convround positive (by omega)).trans (by rw [toInt_resultR, right]; rfl)
  · exact (toInt_convround positive (by omega)).trans (by rw [toInt_resultI, right]; rfl)

end Values

end HwBfly

/-- Given inputs three clocks apart or more, `hwbfly` shows six enables later the rounded
butterfly of each, with the mark it came with, and no mark before the first. -/
theorem hwbfly_is_butterfly (iwidth cwidth owidth shift : Nat) (positive : 0 < owidth)
    (drops : owidth + shift ≤ iwidth + cwidth + 2) :
    Relays (HwBfly.circuit (iwidth + 1) (cwidth + 2) owidth shift) 3 6
        (fun stream index => ⟨(stream index).sync, HwBfly.result (stream index).data shift⟩) ∧
      ∀ input : BflyInput (iwidth + 1) (cwidth + 2),
        ((HwBfly.result input shift : BflyOutput owidth).left.value,
          (HwBfly.result input shift : BflyOutput owidth).right.value) =
        difButterfly (iwidth + 1) (cwidth + 2) owidth shift input.coef.value input.left.value
          input.right.value :=
  ⟨HwBfly.relays _ _ owidth shift, fun input => HwBfly.result_value input positive drops⟩

theorem first_butterfly : Relays (HwBfly.circuit 16 18 18 0) 3 6
    (fun stream index => ⟨(stream index).sync, HwBfly.result (stream index).data 0⟩) :=
  (hwbfly_is_butterfly 15 16 18 0 (by decide) (by decide)).1

end ZipVersa.Fft
