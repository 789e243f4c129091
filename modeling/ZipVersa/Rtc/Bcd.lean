import Mathlib.Algebra.Ring.Nat
import Mathlib.Tactic.Common

/-! Two digits of BCD, as the clocks and the date of the RTC keep them. -/

set_option autoImplicit false

namespace ZipVersa.Rtc

structure Bcd (w : Nat) where
  tens : BitVec w
  ones : BitVec 4
  deriving DecidableEq, Repr

namespace Bcd

variable {w : Nat}

/-- The bits of both digits. -/
def word (bcd : Bcd w) : BitVec (w + 4) := bcd.tens ++ bcd.ones

def value (bcd : Bcd w) : Nat := bcd.tens.toNat * 10 + bcd.ones.toNat

theorem word_toNat (bcd : Bcd w) : bcd.word.toNat = bcd.tens.toNat * 16 + bcd.ones.toNat := by
  rw [word, BitVec.toNat_append, ← Nat.shiftLeft_add_eq_or_of_lt bcd.ones.isLt, Nat.shiftLeft_eq]

end Bcd

/-- A bit for each field of a time, in the order of `i_valid`. -/
structure Fields where
  seconds : Bool
  minutes : Bool
  hours : Bool
  deriving DecidableEq, Repr

/-- A digit of a count up: back to zero, one more, or kept. -/
def stepDigit {w : Nat} (wraps carry : Bool) (digit : BitVec w) : BitVec w :=
  if wraps then 0 else if carry then digit + 1 else digit

theorem beq_zero_eq {w : Nat} (digit : BitVec w) : (digit == 0) = decide (digit.toNat = 0) := by
  rw [Bool.eq_iff_iff, beq_iff_eq, decide_eq_true_iff, BitVec.toNat_eq]
  rfl

theorem toNat_add_one {w : Nat} {digit : BitVec w} (fits : digit.toNat + 1 < 2 ^ w) :
    (digit + 1).toNat = digit.toNat + 1 := by
  have one : (1 : BitVec w).toNat = 1 % 2 ^ w := BitVec.toNat_ofNat 1 w
  rw [BitVec.toNat_add, one, Nat.add_mod_mod, Nat.mod_eq_of_lt fits]

/-- With its own carry out a digit counts modulo its radix. -/
theorem stepDigit_counts {w : Nat} {wraps carry : Bool} {digit : BitVec w} (top : Nat)
    (wrapping : wraps = (decide (top ≤ digit.toNat) && carry)) (below : digit.toNat ≤ top)
    (fits : top < 2 ^ w) :
    (stepDigit wraps carry digit).toNat ≤ top ∧
      (stepDigit wraps carry digit).toNat + (top + 1) * wraps.toNat =
        digit.toNat + carry.toNat := by
  have zero : (0 : BitVec w).toNat = 0 := rfl
  subst wrapping
  cases carry with
  | false => simpa [stepDigit] using below
  | true =>
      by_cases last : top ≤ digit.toNat
      · simp only [last, decide_true, Bool.and_self, stepDigit, if_true, zero, Bool.toNat_true]
        omega
      · have more := toNat_add_one (show digit.toNat + 1 < 2 ^ w by omega)
        simp only [last, decide_false, Bool.false_and, stepDigit, if_true, more, Bool.toNat_true,
          Bool.toNat_false, Bool.false_eq_true, if_false]
        omega

end ZipVersa.Rtc
