import Mathlib.Algebra.Ring.Nat
import Mathlib.Tactic.Common

/-! Ones-complement arithmetic on the words `0 .. top`: a sum that leaves the
range comes back with its carry added. Zero and `top` stand for the same number
but a sum of words is zero only when all of them are, so a word is known from
its residue and from whether it is zero. -/

set_option autoImplicit false

namespace ZipVersa.Lib

/-- Addition with end-around carry. -/
def onesAdd (top left right : Nat) : Nat :=
  if left + right ≤ top then left + right else left + right - top

/-- The ones-complement sum of a list of words. -/
def onesSum (top : Nat) (words : List Nat) : Nat := words.foldl (onesAdd top) 0

/-- `value` is what `total` comes to with its carries brought around, up to the
two spellings `top` and `2 * top`, .. of a nonzero multiple. -/
structure Folds (top total value : Nat) : Prop where
  residue : value % top = total % top
  zero : value = 0 ↔ total = 0

variable {top total value word : Nat}

theorem Folds.refl (top total : Nat) : Folds top total total := ⟨rfl, .rfl⟩

theorem Folds.trans {middle : Nat} (first : Folds top total middle)
    (second : Folds top middle value) : Folds top total value :=
  ⟨second.residue.trans first.residue, second.zero.trans first.zero⟩

theorem Folds.add (folds : Folds top total value) (word : Nat) :
    Folds top (total + word) (value + word) := by
  constructor
  · rw [Nat.add_mod, folds.residue, ← Nat.add_mod]
  · have zero := folds.zero
    omega

/-- Bringing the carries above the word around. -/
theorem Folds.around (top low high : Nat) : Folds top (low + (top + 1) * high) (low + high) := by
  constructor
  · rw [show low + (top + 1) * high = low + high + top * high by rw [Nat.succ_mul]; omega,
      Nat.add_mul_mod_self_left]
  · rw [Nat.succ_mul]
    constructor
    · intro empty
      simp [show low = 0 by omega, show high = 0 by omega]
    · omega

theorem Folds.onesAdd (folds : Folds top total value) :
    Folds top (total + word) (onesAdd top value word) := by
  unfold Lib.onesAdd
  split
  · exact folds.add word
  · have folded := folds.add word
    constructor
    · rw [← folded.residue, ← Nat.mod_eq_sub_mod (by omega)]
    · have zero := folded.zero
      omega

theorem onesAdd_le (small : value ≤ top) (fits : word ≤ top) : onesAdd top value word ≤ top := by
  unfold onesAdd
  split <;> omega

/-- A nonzero multiple of `top` is known by `top` alone below `2 * top`. -/
theorem Folds.eq_top_iff (folds : Folds top total value) (small : value < 2 * top) :
    value = top ↔ top ∣ total ∧ total ≠ 0 := by
  have residue := folds.residue
  have zero := folds.zero
  constructor
  · intro full
    refine ⟨Nat.dvd_of_mod_eq_zero ?_, fun empty => by omega⟩
    rw [← residue, full, Nat.mod_self]
  · rintro ⟨divides, nonzero⟩
    rw [Nat.mod_eq_zero_of_dvd divides] at residue
    obtain ⟨count, rfl⟩ := Nat.dvd_of_mod_eq_zero residue
    have one : count = 1 := by
      have some : count ≠ 0 := fun none => by simp [none] at zero; omega
      have few : count < 2 := by
        rw [Nat.mul_comm 2] at small
        exact Nat.lt_of_mul_lt_mul_left small
      omega
    rw [one, Nat.mul_one]

/-- Two words that totals come to are the same if the totals are, up to a
multiple of `top`. -/
theorem Folds.eq_iff {other second : Nat} (folds : Folds top total value)
    (others : Folds top other second) (small : value ≤ top) (fits : second ≤ top) :
    value = second ↔ total % top = other % top ∧ (total = 0 ↔ other = 0) := by
  rw [← folds.residue, ← others.residue, ← folds.zero, ← others.zero]
  constructor
  · rintro rfl
    exact ⟨rfl, .rfl⟩
  · rintro ⟨residue, zero⟩
    rcases Nat.lt_or_eq_of_le small with below | full
    · rcases Nat.lt_or_eq_of_le fits with under | whole
      · rwa [Nat.mod_eq_of_lt below, Nat.mod_eq_of_lt under] at residue
      · rw [Nat.mod_eq_of_lt below, whole, Nat.mod_self] at residue
        omega
    · rcases Nat.lt_or_eq_of_le fits with under | whole
      · rw [Nat.mod_eq_of_lt under, full, Nat.mod_self] at residue
        omega
      · exact full.trans whole.symm

theorem foldl_onesAdd {words : List Nat} (fits : ∀ word ∈ words, word ≤ top)
    (folds : Folds top total value) (small : value ≤ top) :
    Folds top (total + words.sum) (words.foldl (Lib.onesAdd top) value) ∧
      words.foldl (Lib.onesAdd top) value ≤ top := by
  induction words generalizing total value with
  | nil => exact ⟨folds, small⟩
  | cons word rest ih =>
      rw [List.sum_cons, ← Nat.add_assoc]
      exact ih (fun later member => fits later (.tail _ member))
        folds.onesAdd (onesAdd_le small (fits word (.head _)))

theorem onesSum_eq_top_iff {words : List Nat} (positive : 0 < top)
    (fits : ∀ word ∈ words, word ≤ top) :
    onesSum top words = top ↔ top ∣ words.sum ∧ words.sum ≠ 0 := by
  obtain ⟨folds, small⟩ := foldl_onesAdd fits (.refl top 0) (Nat.zero_le top)
  rw [Nat.zero_add] at folds
  exact folds.eq_top_iff (show onesSum top words < 2 * top by unfold onesSum; omega)

end ZipVersa.Lib
