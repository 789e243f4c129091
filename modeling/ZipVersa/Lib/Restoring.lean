import Mathlib.Tactic.Ring
import Mathlib.Tactic.Common

/-! Division by shifting and subtracting. With `count` places left the quotient
is known above them, and what is left of the dividend is below the divisor
shifted up by as many places. -/

set_option autoImplicit false

namespace ZipVersa.Lib

/-- What is known when `count` places are left. -/
structure Divides (dividend divisor count remainder quotient : Nat) : Prop where
  split : dividend = quotient * divisor + remainder
  small : remainder < divisor * 2 ^ count
  aligned : 2 ^ count ∣ quotient

variable {dividend divisor count remainder quotient : Nat}

theorem Divides.start {places : Nat} (small : dividend < divisor * 2 ^ places) :
    Divides dividend divisor places dividend 0 :=
  ⟨by rw [Nat.zero_mul, Nat.zero_add], small, Nat.dvd_zero _⟩

theorem Divides.restore (divides : Divides dividend divisor (count + 1) remainder quotient)
    (below : remainder < divisor * 2 ^ count) :
    Divides dividend divisor count remainder quotient :=
  ⟨divides.split, below, Nat.dvd_trans (Nat.pow_dvd_pow 2 (Nat.le_succ count)) divides.aligned⟩

theorem Divides.subtract (divides : Divides dividend divisor (count + 1) remainder quotient)
    (fits : divisor * 2 ^ count ≤ remainder) :
    Divides dividend divisor count (remainder - divisor * 2 ^ count) (quotient + 2 ^ count) := by
  refine ⟨?_, ?_, ?_⟩
  · rw [divides.split, Nat.add_mul, Nat.mul_comm (2 ^ count)]
    omega
  · have small := divides.small
    rw [Nat.pow_succ, ← Nat.mul_assoc] at small
    omega
  · exact Nat.dvd_add (Nat.dvd_trans (Nat.pow_dvd_pow 2 (Nat.le_succ count)) divides.aligned)
      (Nat.dvd_refl _)

theorem Divides.done (divides : Divides dividend divisor 0 remainder quotient) :
    dividend / divisor = quotient := by
  have small : remainder < divisor := by
    have below := divides.small
    rwa [Nat.pow_zero, Nat.mul_one] at below
  rw [divides.split, Nat.mul_comm, Nat.mul_add_div (Nat.zero_lt_of_lt small),
    Nat.div_eq_of_lt small, Nat.add_zero]

/-- The next bit of the quotient is free. -/
theorem Divides.or (divides : Divides dividend divisor (count + 1) remainder quotient) :
    quotient ||| 2 ^ count = quotient + 2 ^ count := by
  obtain ⟨high, rfl⟩ := divides.aligned
  exact (Nat.two_pow_add_eq_or_of_lt (Nat.pow_lt_pow_right (by decide) (Nat.lt_succ_self count))
    high).symm

end ZipVersa.Lib
