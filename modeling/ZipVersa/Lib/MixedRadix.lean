import Mathlib.Tactic.Common

/-! Countdowns whose digits have radices of their own, least significant first. -/

set_option autoImplicit false

namespace ZipVersa.Lib.MixedRadix

def value : List Nat → List Nat → Nat
  | radix :: radices, digit :: digits => digit + radix * value radices digits
  | _, _ => 0

/-- One less, borrowing through the digits at zero. -/
def prev : List Nat → List Nat → List Nat
  | radix :: radices, digit :: digits =>
      if digit = 0 then (radix - 1) :: prev radices digits else (digit - 1) :: digits
  | _, digits => digits

/-- Each digit is below its radix. -/
def Below (radices digits : List Nat) : Prop :=
  List.Forall₂ (fun digit radix => digit < radix) digits radices

variable {radices digits : List Nat}

theorem Below.prev (below : Below radices digits) : Below radices (prev radices digits) := by
  induction below with
  | nil => exact .nil
  | cons first rest ih =>
      rw [MixedRadix.prev]
      split_ifs with zero
      · exact .cons (by omega) ih
      · exact .cons (by omega) rest

theorem Below.value_prev (below : Below radices digits) (positive : 0 < value radices digits) :
    value radices (MixedRadix.prev radices digits) + 1 = value radices digits := by
  induction below with
  | nil => exact absurd positive (Nat.lt_irrefl 0)
  | @cons digit radix digits radices first rest ih =>
      rw [value] at positive
      rw [MixedRadix.prev]
      split_ifs with zero
      · have more : 0 < value radices digits := by
          refine Nat.pos_of_ne_zero fun none => ?_
          rw [zero, none, Nat.mul_zero] at positive
          cases positive
        rw [value, value, ← ih more, Nat.mul_add]
        omega
      · rw [value, value]
        omega

/-- A place passes its borrow on when it is at zero. -/
def lower (borrow : Bool) (radices digits : List Nat) : List Nat :=
  if borrow then prev radices digits else digits

theorem lower_nil (borrow : Bool) : lower borrow [] [] = [] := by
  cases borrow <;> rfl

theorem lower_cons (borrow : Bool) (radix digit : Nat) (radices digits : List Nat) :
    lower borrow (radix :: radices) (digit :: digits) =
      (if borrow then if digit = 0 then radix - 1 else digit - 1 else digit) ::
        lower (decide (digit = 0) && borrow) radices digits := by
  cases borrow with
  | false => rw [Bool.and_false]; rfl
  | true =>
      rw [lower, lower, Bool.and_true, if_pos rfl, if_pos rfl, MixedRadix.prev]
      by_cases zero : digit = 0
      · rw [if_pos zero, if_pos zero, if_pos (decide_eq_true zero)]
      · rw [if_neg zero, if_neg zero, if_neg (by simpa using zero)]

end ZipVersa.Lib.MixedRadix
