import Mathlib.Algebra.Ring.Nat
import Mathlib.Tactic.Common

/-! Network byte order for 16, 32 and 48-bit quantities held in 32 or 64-bit
registers. Writers keep the selected octets; readers assemble them again. -/

set_option autoImplicit false

namespace ZipVersa.Lib

abbrev Byte := BitVec 8

/-- The octet of a register that starts `8 * index` bits up. -/
def octet {width : Nat} (value : BitVec width) (index : Nat) : Byte :=
  (value >>> (8 * index)).setWidth 8

def be16 (high low : Byte) : BitVec 32 :=
  (high.setWidth 32 <<< 8) ||| low.setWidth 32

def be32 (first second third fourth : Byte) : BitVec 32 :=
  (((((first.setWidth 32 <<< 8) ||| second.setWidth 32) <<< 8) |||
    third.setWidth 32) <<< 8) ||| fourth.setWidth 32

@[simp] theorem be32_octets (value : BitVec 32) :
    be32 (octet value 3) (octet value 2) (octet value 1) (octet value 0) = value := by
  ext position inside
  simp [be32, octet]
  grind

/-- The octets of an assembled word, from the last one up. -/
theorem octet_be32 (first second third fourth : Byte) :
    octet (be32 first second third fourth) 0 = fourth ∧
      octet (be32 first second third fourth) 1 = third ∧
      octet (be32 first second third fourth) 2 = second ∧
      octet (be32 first second third fourth) 3 = first := by
  refine ⟨?_, ?_, ?_, ?_⟩
  · ext position inside
    simp [be32, octet]
  · ext position inside
    simp [be32, octet]
    grind
  · ext position inside
    simp [be32, octet]
    grind
  · ext position inside
    simp [be32, octet]
    grind

theorem octet_be16 (high low : Byte) :
    octet (be16 high low) 0 = low ∧ octet (be16 high low) 1 = high := by
  refine ⟨?_, ?_⟩
  · ext position inside
    simp [be16, octet]
  · ext position inside
    simp [be16, octet]
    grind

/-- The octets of two words side by side. -/
theorem octet_join (high low : BitVec 32) (index : Nat) :
    octet ((high.setWidth 64 <<< 32) ||| low.setWidth 64) index =
      if index < 4 then octet low index else octet high (index - 4) := by
  split_ifs with lower
  · ext position inside
    have below : 8 * index + position < 32 := by omega
    simp [octet, below]
    omega
  · ext position inside
    have above : ¬8 * index + position < 32 := by omega
    have shifted : 8 * index + position - 32 = 8 * (index - 4) + position := by omega
    have none := BitVec.getLsbD_of_ge low (8 * index + position) (by omega)
    by_cases fits : 8 * index + position < 64
    · simp [octet, above, shifted, none, fits]
    · have beyond := BitVec.getLsbD_of_ge high (8 * (index - 4) + position) (by omega)
      simp [octet, fits, beyond]

/-- Sixteen-bit fields survive a trip through two octets of a 32-bit register. -/
@[simp] theorem be16_octets (value : BitVec 16) :
    be16 (octet (value.setWidth 32) 1) (octet (value.setWidth 32) 0) = value.setWidth 32 := by
  ext position inside
  simp [be16, octet]
  grind

theorem be16_octets_of_lt (value : BitVec 32) (small : value.toNat < 65536) :
    be16 (octet value 1) (octet value 0) = value := by
  have short : value = (value.setWidth 16).setWidth 32 := by
    apply BitVec.eq_of_toNat_eq
    simp
    omega
  rw [short]
  exact be16_octets _

theorem be16_toNat (high low : Byte) :
    (be16 high low).toNat = 256 * high.toNat + low.toNat := by
  have disjoint : (high.setWidth 32 <<< 8) &&& low.setWidth 32 = 0#32 := by
    ext position inside
    simp
    grind
  rw [be16, ← BitVec.add_eq_or_of_and_eq_zero _ _ disjoint]
  have highBound := high.isLt
  have lowBound := low.isLt
  simp [BitVec.toNat_add, Nat.shiftLeft_eq]
  omega

theorem be16_lt (high low : Byte) : (be16 high low).toNat < 65536 := by
  rw [be16_toNat]
  have highBound := high.isLt
  have lowBound := low.isLt
  omega

end ZipVersa.Lib
