import Mathlib.Algebra.Ring.Nat
import Mathlib.Tactic.Common

/-! A memory of `2 ^ lg` places that remembers a growing history, the youngest
entry just below the place written next. The place written next is scratch. -/

set_option autoImplicit false

namespace ZipVersa.Lib

variable {α : Type} {lg : Nat} {mem : BitVec lg → α} {next : BitVec lg} {past : List α}

/-- The memory still holds what was put in, as far back as it reaches; `past`
has the youngest entry first. -/
def Recalls (mem : BitVec lg → α) (next : BitVec lg) (past : List α) : Prop :=
  ∀ (age : Nat) (value : α), age + 1 < 2 ^ lg → past[age]? = some value →
    mem (next - BitVec.ofNat lg (age + 1)) = value

theorem sub_ofNat_ne (next : BitVec lg) {distance : Nat} (positive : 0 < distance)
    (inside : distance < 2 ^ lg) : next - BitVec.ofNat lg distance ≠ next := by
  intro same
  have zero : BitVec.ofNat lg distance = BitVec.ofNat lg 0 := by grind
  have := congrArg BitVec.toNat zero
  rw [BitVec.toNat_ofNat, Nat.mod_eq_of_lt inside, BitVec.toNat_zero] at this
  omega

theorem Recalls.nil : Recalls mem next [] := by
  intro age value _ found
  cases found

/-- Whatever is written to the scratch place, nothing is forgotten. -/
theorem Recalls.scratch (recalls : Recalls mem next past) (value : α) :
    Recalls (Function.update mem next value) next past := by
  intro age entry inside found
  rw [Function.update_of_ne (sub_ofNat_ne next (Nat.succ_pos age) inside)]
  exact recalls age entry inside found

theorem Recalls.push (recalls : Recalls mem next past) (value : α) :
    Recalls (Function.update mem next value) (next + 1) (value :: past) := by
  intro age entry inside found
  have back : next + 1 - BitVec.ofNat lg (age + 1) = next - BitVec.ofNat lg age := by
    rw [BitVec.ofNat_add]
    generalize BitVec.ofNat lg age = old
    have one : BitVec.ofNat lg 1 = 1 := rfl
    rw [one]
    grind
  rw [back]
  cases age with
  | zero =>
      rw [BitVec.sub_zero, Function.update_self]
      exact Option.some.inj found
  | succ age =>
      rw [Function.update_of_ne (sub_ofNat_ne next (Nat.succ_pos age) (by omega))]
      exact recalls age entry (by omega) found

end ZipVersa.Lib
