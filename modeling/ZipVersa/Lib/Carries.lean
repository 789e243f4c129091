import Mathlib.Tactic.Common

/-! A chain of registered carries. A carry is set when the digit of its place is
at its largest and the carry below was set one clock before, so that a change of
the digits runs up the chain place by place. -/

set_option autoImplicit false

namespace ZipVersa.Lib

/-- The carries after a number of clocks with the same digits. -/
def pipedCarry (last start : Nat → Bool) : Nat → Nat → Bool
  | 0, place => start place
  | _ + 1, 0 => last 0
  | age + 1, place + 1 => last (place + 1) && pipedCarry last start age place

def fullCarry (last : Nat → Bool) : Nat → Bool
  | 0 => last 0
  | place + 1 => last (place + 1) && fullCarry last place

/-- Carries below the age of the digits have settled. -/
theorem pipedCarry_settled {last start : Nat → Bool} {age place : Nat} (below : place < age) :
    pipedCarry last start age place = fullCarry last place := by
  induction place generalizing age with
  | zero =>
      cases age with
      | zero => cases below
      | succ age => rfl
  | succ place ih =>
      cases age with
      | zero => cases below
      | succ age => rw [pipedCarry, fullCarry, ih (Nat.lt_of_succ_lt_succ below)]

/-- A count is short of the weight of two places by a part of the lower weight: the upper
digit is at its largest, and the lower one is short by that part. -/
theorem mod_add_eq_iff {count weight base part : Nat} (positive : 0 < part)
    (small : part ≤ weight) (some : 0 < base) :
    count % (weight * base) + part = weight * base ↔
      count / weight % base + 1 = base ∧ count % weight + part = weight := by
  have low := Nat.mod_lt count (Nat.lt_of_lt_of_le positive small)
  have digit := Nat.mod_lt (count / weight) some
  rw [Nat.mod_mul]
  constructor
  · intro whole
    have top : count / weight % base + 1 = base := by
      refine Nat.le_antisymm digit (Nat.le_of_not_lt fun less => ?_)
      have two := Nat.mul_le_mul_left weight less
      rw [Nat.mul_succ, Nat.mul_succ] at two
      omega
    refine ⟨top, ?_⟩
    rw [← top, Nat.mul_succ, top] at whole
    omega
  · rintro ⟨top, rest⟩
    have whole : weight * base = weight * (count / weight % base) + weight := by
      rw [← Nat.mul_succ, Nat.succ_eq_add_one, top]
    omega

end ZipVersa.Lib
