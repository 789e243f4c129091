import Mathlib.Data.Nat.Cast.Basic
import Mathlib.Tactic.Common
import ZipVersa.Lib.Rounding

/-! `convround`, the convergent rounding of the FFT, and the signed arithmetic
of its registers. -/

set_option autoImplicit false

namespace ZipVersa.Fft

open Lib

/-! ### Signed registers -/

section Signed

variable {width wide : Nat}

/-- A register as wide as its value keeps it. -/
theorem bmod_two_pow_of_bounds {value : Int} {width : Nat} (low : -2 ^ width ≤ value)
    (high : value < 2 ^ width) : value.bmod (2 ^ (width + 1)) = value := by
  have double : (2 : Nat) ^ (width + 1) = 2 * 2 ^ width := Nat.pow_succ'
  have cast : ((2 ^ width : Nat) : Int) = 2 ^ width := by simp
  refine Int.bmod_eq_of_le ?_ ?_ <;> rw [double] <;> omega

theorem toInt_bounds (value : BitVec (width + 1)) :
    -2 ^ width ≤ value.toInt ∧ value.toInt < 2 ^ width :=
  ⟨BitVec.le_toInt value, BitVec.toInt_lt⟩

/-- A part select of a signed register is a division by a power of two. -/
theorem toInt_extract (value : BitVec wide) (start width : Nat) (fits : start + width ≤ wide) :
    (value.extractLsb' start width).toInt = (value.toInt / 2 ^ start).bmod (2 ^ width) := by
  have shifted : ((value.toNat >>> start : Nat) : Int) = (value.toNat : Int) / 2 ^ start := by
    rw [Nat.shiftRight_eq_div_pow]
    simp
  rw [BitVec.toInt_extractLsb', shifted, BitVec.toInt_eq_toNat_cond]
  split
  · rfl
  · have whole : (2 : Int) ^ wide = 2 ^ start * (2 ^ width * 2 ^ (wide - start - width)) := by
      rw [← pow_add, ← pow_add]
      congr 1
      omega
    have power : ((2 ^ wide : Nat) : Int) = 2 ^ wide := by simp
    have apart : ((value.toNat : Int) - 2 ^ wide) / 2 ^ start =
        (value.toNat : Int) / 2 ^ start - 2 ^ width * 2 ^ (wide - start - width) := by
      rw [whole, Int.sub_mul_ediv_left _ _ (Int.ne_of_gt (two_pow_pos start))]
    have size : (2 : Int) ^ width = ((2 ^ width : Nat) : Int) := by simp
    rw [power, apart, size]
    exact (Int.sub_mul_bmod_self_left _ _ _).symm

theorem toInt_emod (value : BitVec wide) {bits : Nat} (fits : bits ≤ wide) :
    value.toInt % 2 ^ bits = (value.toNat : Int) % 2 ^ bits := by
  have divides : (2 : Int) ^ bits ∣ ((2 ^ wide : Nat) : Int) := by
    rw [Int.natCast_pow]
    exact pow_dvd_pow 2 fits
  rw [BitVec.toInt_eq_toNat_bmod, ← Int.emod_emod_of_dvd _ divides, Int.bmod_emod,
    Int.emod_emod_of_dvd _ divides]

/-- A bit of a signed register. -/
theorem getLsbD_eq_toInt (value : BitVec wide) {place : Nat} (inside : place < wide) :
    value.getLsbD place = decide (value.toInt / 2 ^ place % 2 = 1) := by
  have high := toInt_emod value (Nat.succ_le_of_lt inside)
  rw [emod_two_pow_succ, emod_two_pow_succ, toInt_emod value (Nat.le_of_lt inside)] at high
  have same : value.toInt / 2 ^ place % 2 = (value.toNat : Int) / 2 ^ place % 2 :=
    Int.eq_of_mul_eq_mul_left (Int.ne_of_gt (two_pow_pos place)) (by omega)
  have cast : (value.toNat : Int) / 2 ^ place % 2 = ((value.toNat / 2 ^ place % 2 : Nat) : Int) := by
    simp
  rw [BitVec.getLsbD, Nat.testBit_eq_decide_div_mod_eq, same, cast]
  exact decide_eq_decide.mpr (by omega)

theorem setWidth_eq_zero_iff (value : BitVec wide) {bits : Nat} (fits : bits ≤ wide) :
    value.setWidth bits = 0 ↔ value.toInt % 2 ^ bits = 0 := by
  have cast : (value.toNat : Int) % 2 ^ bits = ((value.toNat % 2 ^ bits : Nat) : Int) := by simp
  rw [toInt_emod value fits, cast, ← BitVec.toNat_inj, BitVec.toNat_setWidth]
  simp only [BitVec.ofNat_eq_ofNat, BitVec.toNat_ofNat, Nat.zero_mod]
  omega

end Signed

/-! ### Rounding -/

/-- `convround #(IWID, OWID, SHIFT)`, the value its register takes. -/
def convround {iwid : Nat} (owid shift : Nat) (val : BitVec iwid) : BitVec owid :=
  if iwid = owid then val.setWidth owid
  else if iwid < owid + shift then (val.setWidth (iwid - shift)).signExtend owid
  else if iwid - shift = owid then val.setWidth owid
  else
    let truncatedValue := val.extractLsb' (iwid - shift - owid) owid
    let roundedUp := truncatedValue + 1
    let lastValidBit := truncatedValue.getLsbD 0
    if iwid - shift - 1 = owid then
      let firstLostBit := val.getLsbD 0
      if !firstLostBit then truncatedValue
      else if lastValidBit then roundedUp
      else truncatedValue
    else
      let firstLostBit := val.getLsbD (iwid - shift - owid - 1)
      let otherLostBits := val.setWidth (iwid - shift - owid - 1)
      if !firstLostBit then truncatedValue
      else if otherLostBits ≠ 0 then roundedUp
      else if lastValidBit then roundedUp
      else truncatedValue

section ConvRound

variable {iwid owid shift : Nat} (val : BitVec iwid)

theorem toInt_convround_whole (whole : iwid = owid + shift) :
    (convround owid shift val).toInt = val.toInt.bmod (2 ^ owid) := by
  have same : convround owid shift val = val.setWidth owid := by
    unfold convround
    by_cases plain : iwid = owid
    · rw [if_pos plain]
    · rw [if_neg plain, if_neg (by omega), if_pos (by omega)]
  have fits : owid ≤ iwid := by omega
  rw [same, BitVec.toInt_setWidth, BitVec.toInt_eq_toNat_bmod,
    Int.bmod_bmod_of_dvd (Nat.pow_dvd_pow 2 fits)]

/-- With one bit dropped there are no others to look at. -/
theorem convround_drops {bits : Nat} (drops : iwid = owid + shift + (bits + 1)) :
    convround owid shift val =
      if val.getLsbD bits = false then val.extractLsb' (bits + 1) owid
      else if val.setWidth bits ≠ 0 then val.extractLsb' (bits + 1) owid + 1
      else if (val.extractLsb' (bits + 1) owid).getLsbD 0 then val.extractLsb' (bits + 1) owid + 1
      else val.extractLsb' (bits + 1) owid := by
  have start : iwid - shift - owid = bits + 1 := by omega
  have single : iwid - shift - 1 = owid ↔ bits = 0 := by omega
  unfold convround
  rw [if_neg (by omega), if_neg (by omega), if_neg (by omega)]
  generalize iwid - shift - owid = lost at start ⊢
  subst start
  simp only [single, Bool.not_eq_true', Nat.add_sub_cancel]
  cases bits with
  | zero =>
      have none : val.setWidth 0 = 0 := BitVec.eq_of_toNat_eq (by simp [BitVec.toNat_of_zero_length])
      rw [if_pos rfl]
      simp only [none, ne_eq, not_true, if_false]
  | succ bits =>
      rw [if_neg (Nat.succ_ne_zero bits)]
      rfl

variable {val}

/-- It rounds to the nearest, a tie to even, and wraps. -/
theorem toInt_convround (positive : 0 < owid) (drops : owid + shift ≤ iwid) :
    (convround owid shift val).toInt =
      (roundHalfEven val.toInt (iwid - shift - owid)).bmod (2 ^ owid) := by
  obtain ⟨bits, size⟩ : ∃ bits, iwid = owid + shift + bits := Nat.exists_eq_add_of_le drops
  have lost : iwid - shift - owid = bits := by omega
  rw [lost]
  cases bits with
  | zero => rw [roundHalfEven_zero, toInt_convround_whole val (by omega)]
  | succ bits =>
      have floor := toInt_extract val (bits + 1) owid (by omega)
      have up : (val.extractLsb' (bits + 1) owid + 1).toInt =
          (val.toInt / 2 ^ (bits + 1) + 1).bmod (2 ^ owid) := by
        rw [BitVec.toInt_add, floor, BitVec.ofNat_eq_ofNat, BitVec.toInt_ofNat', Int.add_bmod_bmod,
          Int.bmod_add_bmod]
        rfl
      have parity : (val.extractLsb' (bits + 1) owid).getLsbD 0 =
          decide (val.toInt / 2 ^ (bits + 1) % 2 = 1) := by
        rw [BitVec.getLsbD_extractLsb', Nat.add_zero, getLsbD_eq_toInt val (by omega)]
        simp [positive]
      have below : val.setWidth bits = 0 ↔ val.toInt % 2 ^ bits = 0 :=
        setWidth_eq_zero_iff val (by omega)
      rw [convround_drops val size, roundHalfEven_succ, getLsbD_eq_toInt val (by omega), parity]
      simp only [apply_ite BitVec.toInt, apply_ite (Int.bmod · (2 ^ owid)), floor, up, ne_eq, below,
        decide_eq_false_iff_not, decide_eq_true_eq]
      rcases Int.emod_two_eq_zero_or_one (val.toInt / 2 ^ bits) with first | first <;>
        rcases Int.emod_two_eq_zero_or_one (val.toInt / 2 ^ (bits + 1)) with last | last <;>
        simp [first, last]

end ConvRound

end ZipVersa.Fft
