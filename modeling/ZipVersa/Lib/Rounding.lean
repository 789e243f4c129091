import Mathlib.Algebra.Order.Group.Unbundled.Abs
import Mathlib.Algebra.Order.Ring.Int
import Mathlib.Tactic.Common
import Mathlib.Tactic.Ring

/-! Dividing by a power of two with rounding to the nearest integer, ties to
the even one, and the low bits that decide it. -/

set_option autoImplicit false

namespace ZipVersa.Lib

/-- `value / 2 ^ bits`, a tie to even. -/
def roundHalfEven (value : Int) (bits : Nat) : Int :=
  let floor := value / 2 ^ bits
  let rest := value % 2 ^ bits
  if 2 * rest < 2 ^ bits then floor
  else if 2 ^ bits < 2 * rest then floor + 1
  else if floor % 2 = 0 then floor
  else floor + 1

theorem two_pow_pos (bits : Nat) : (0 : Int) < 2 ^ bits := Int.pow_pos (by decide)

theorem roundHalfEven_zero (value : Int) : roundHalfEven value 0 = value := by
  simp [roundHalfEven]

/-- The top bit lost and those below it. -/
theorem emod_two_pow_succ (value : Int) (bits : Nat) :
    value % 2 ^ (bits + 1) = 2 ^ bits * (value / 2 ^ bits % 2) + value % 2 ^ bits := by
  have whole := Int.mul_ediv_add_emod value (2 ^ (bits + 1))
  have coarse := Int.mul_ediv_add_emod value (2 ^ bits)
  have parity := Int.mul_ediv_add_emod (value / 2 ^ bits) 2
  rw [Int.ediv_ediv_of_nonneg (Int.le_of_lt (two_pow_pos bits)), ← pow_succ] at parity
  rw [← parity] at coarse
  have same : (2 : Int) ^ (bits + 1) * (value / 2 ^ (bits + 1)) =
      2 ^ bits * (2 * (value / 2 ^ (bits + 1))) := by ring
  rw [mul_add] at coarse
  omega

/-- Rounding up, told by the top bit lost, the other bits lost and the last one kept. -/
theorem roundHalfEven_succ (value : Int) (bits : Nat) :
    roundHalfEven value (bits + 1) =
      if value / 2 ^ bits % 2 = 0 then value / 2 ^ (bits + 1)
      else if value % 2 ^ bits ≠ 0 then value / 2 ^ (bits + 1) + 1
      else if value / 2 ^ (bits + 1) % 2 = 0 then value / 2 ^ (bits + 1)
      else value / 2 ^ (bits + 1) + 1 := by
  have positive := two_pow_pos bits
  have small := Int.emod_lt_of_pos value positive
  have nonneg := Int.emod_nonneg value (Int.ne_of_gt positive)
  have double : (2 : Int) ^ (bits + 1) = 2 * 2 ^ bits := by ring
  simp only [roundHalfEven, emod_two_pow_succ, ne_eq]
  rcases Int.emod_two_eq_zero_or_one (value / 2 ^ bits) with even | odd
  · rw [even, mul_zero, zero_add, if_pos (by omega), if_pos rfl]
  · have past : ¬ 2 * (2 ^ bits + value % 2 ^ bits) < 2 ^ (bits + 1) := by omega
    rw [odd, mul_one, if_neg past, if_neg Int.one_ne_zero]
    by_cases exact : value % 2 ^ bits = 0
    · have tie : ¬ (2 : Int) ^ (bits + 1) < 2 * (2 ^ bits + 0) := by omega
      rw [exact, if_neg tie]
      simp only [not_true, if_false]
    · rw [if_pos (by omega), if_pos exact]

/-- It is off by half at most, and is even where it is off by half. -/
theorem roundHalfEven_nearest (value : Int) (bits : Nat) :
    2 * |2 ^ bits * roundHalfEven value bits - value| ≤ 2 ^ bits ∧
      (0 < bits → 2 * |2 ^ bits * roundHalfEven value bits - value| = 2 ^ bits →
        roundHalfEven value bits % 2 = 0) := by
  have positive := two_pow_pos bits
  have split := Int.mul_ediv_add_emod value (2 ^ bits)
  have nonneg := Int.emod_nonneg value (Int.ne_of_gt positive)
  have small := Int.emod_lt_of_pos value positive
  have up : 2 ^ bits * (value / 2 ^ bits + 1) = 2 ^ bits * (value / 2 ^ bits) + 2 ^ bits := by ring
  have down : |2 ^ bits * (value / 2 ^ bits) - value| = value % 2 ^ bits := by
    rw [abs_of_nonpos (by omega)]
    omega
  have above : |2 ^ bits * (value / 2 ^ bits + 1) - value| = 2 ^ bits - value % 2 ^ bits := by
    rw [abs_of_nonneg (by omega)]
    omega
  rw [roundHalfEven]
  split_ifs with under beyond even
  · rw [down]
    exact ⟨Int.le_of_lt under, fun _ tie => absurd tie (Int.ne_of_lt under)⟩
  · rw [above]
    exact ⟨by omega, fun _ tie => by omega⟩
  · rw [down]
    exact ⟨by omega, fun _ _ => even⟩
  · rw [above]
    exact ⟨by omega, fun _ _ => by omega⟩

end ZipVersa.Lib
