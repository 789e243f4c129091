import Mathlib.Tactic.Common

/-! Words as their slices put together: what a slice of a slice is, what is left of
an extension of the sign, and that the slices tell the word. -/

set_option autoImplicit false

namespace ZipVersa.Lib

section Slices

variable {width width' : Nat}

/-- A slice of a slice. -/
theorem extract_extract (bits : BitVec width) {start len start' len' : Nat}
    (inside : start' + len' ≤ len) :
    (bits.extractLsb' start len).extractLsb' start' len' =
      bits.extractLsb' (start + start') len' := by
  apply BitVec.eq_of_getLsbD_eq
  intro place below
  have within : start' + place < len := by omega
  simp [below, within, Nat.add_assoc]

/-- The sign stays out of a slice. -/
theorem extract_signExtend (bits : BitVec width) {start len : Nat}
    (inside : start + len ≤ width) (wider : width ≤ width') :
    (bits.signExtend width').extractLsb' start len = bits.extractLsb' start len := by
  apply BitVec.eq_of_getLsbD_eq
  intro place below
  have within : start + place < width := by omega
  have within' : start + place < width' := by omega
  simp [BitVec.getElem_signExtend, below, within, within']

/-- Zeros in front are an extension by zeros. -/
theorem zeros_append (bits : BitVec width) :
    BitVec.ofNat width' 0 ++ bits = bits.setWidth (width' + width) := by
  apply BitVec.eq_of_getLsbD_eq
  intro place below
  rw [BitVec.getLsbD_append, BitVec.getLsbD_setWidth]
  by_cases small : place < width
  · simp [small, below]
  · simp [small, BitVec.getLsbD_of_ge bits place (Nat.le_of_not_lt small)]

theorem append_inj {high high' : BitVec width} {low low' : BitVec width'}
    (same : high ++ low = high' ++ low') : high = high' ∧ low = low' := by
  have highs := congrArg (BitVec.extractLsb' width' width) same
  have lows := congrArg (BitVec.extractLsb' 0 width') same
  rw [BitVec.extractLsb'_append_eq_left, BitVec.extractLsb'_append_eq_left] at highs
  rw [BitVec.extractLsb'_append_eq_right, BitVec.extractLsb'_append_eq_right] at lows
  exact ⟨highs, lows⟩

/-- What agrees on two slices agrees on both together. -/
theorem slices_join {bits bits' : BitVec width} {start len len' : Nat}
    (low : bits.extractLsb' start len = bits'.extractLsb' start len)
    (high : bits.extractLsb' (start + len) len' = bits'.extractLsb' (start + len) len') :
    bits.extractLsb' start (len' + len) = bits'.extractLsb' start (len' + len) := by
  rw [← BitVec.extractLsb'_append_extractLsb'_eq_extractLsb' rfl, high, low,
    BitVec.extractLsb'_append_extractLsb'_eq_extractLsb' rfl]

/-- A number that has been extended by its sign, and an even one. -/
theorem signed_slice (bits : BitVec width) (wider : width ≤ width') :
    (bits.signExtend width').extractLsb' 0 width = bits := by
  rw [extract_signExtend bits (Nat.le_of_eq (Nat.zero_add width)) wider,
    BitVec.extractLsb'_eq_self]

theorem even_slice (bits : BitVec width) (wider : width + 1 ≤ width') :
    ((bits ++ 0#1).signExtend width').extractLsb' 1 width = bits := by
  rw [extract_signExtend _ (Nat.le_of_eq (Nat.add_comm 1 width)) wider,
    BitVec.extractLsb'_append_eq_left]

end Slices

end ZipVersa.Lib
