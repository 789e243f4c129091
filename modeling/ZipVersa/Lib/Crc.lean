import ZipVersa.Lib.BigEndian

/-! Reflected cyclic redundancy checks. A register takes the low bit first, so
one division step shifts down and subtracts the polynomial when a one falls out.
The step is linear in exclusive or and, when the polynomial has its top bit,
loses nothing. -/

set_option autoImplicit false

namespace ZipVersa.Lib

section Division

variable {width : Nat} (poly : BitVec width)

def crcShift (register : BitVec width) : BitVec width :=
  if register.getLsbD 0 then register >>> 1 ^^^ poly else register >>> 1

def crcShifts : Nat → BitVec width → BitVec width
  | 0, register => register
  | count + 1, register => crcShift poly (crcShifts count register)

theorem crcShift_xor (left right : BitVec width) :
    crcShift poly (left ^^^ right) = crcShift poly left ^^^ crcShift poly right := by
  unfold crcShift
  rw [BitVec.getLsbD_xor, BitVec.ushiftRight_xor_distrib]
  cases left.getLsbD 0 with
  | false =>
      cases right.getLsbD 0 with
      | false => rfl
      | true => exact BitVec.xor_assoc _ _ _
  | true =>
      cases right.getLsbD 0 with
      | false =>
          simp only [Bool.xor_false, Bool.false_eq_true, if_true, if_false]
          rw [BitVec.xor_assoc, BitVec.xor_assoc, BitVec.xor_comm poly]
      | true =>
          simp only [Bool.xor_self, Bool.false_eq_true, if_true, if_false]
          rw [BitVec.xor_assoc, BitVec.xor_comm (right >>> 1), ← BitVec.xor_assoc poly,
            BitVec.xor_self, BitVec.zero_xor]

theorem crcShifts_xor (count : Nat) (left right : BitVec width) :
    crcShifts poly count (left ^^^ right) =
      crcShifts poly count left ^^^ crcShifts poly count right := by
  induction count with
  | zero => rfl
  | succ count ih => rw [crcShifts, ih, crcShift_xor, crcShifts, crcShifts]

/-- Zeros only move down. -/
theorem crcShifts_of_low {register : BitVec width} {count : Nat}
    (low : ∀ position < count, register.getLsbD position = false) :
    crcShifts poly count register = register >>> count := by
  induction count with
  | zero => exact (BitVec.ushiftRight_zero register).symm
  | succ count ih =>
      have first : (register >>> count).getLsbD 0 = false := by
        rw [BitVec.getLsbD_ushiftRight, Nat.add_zero]
        exact low count (by omega)
      rw [crcShifts, ih fun position below => low position (by omega), crcShift, first,
        BitVec.shiftRight_add]
      rfl

theorem crcShift_injective (top : poly.getLsbD (width - 1) = true) :
    Function.Injective (crcShift poly) := by
  intro left right same
  -- The top bit of the result is the bit that fell out.
  have fallen : ∀ register : BitVec width,
      (crcShift poly register).getLsbD (width - 1) = register.getLsbD 0 := by
    intro register
    have empty : (register >>> 1).getLsbD (width - 1) = false := by
      rw [BitVec.getLsbD_ushiftRight]
      exact BitVec.getLsbD_of_ge _ _ (by omega)
    unfold crcShift
    cases register.getLsbD 0 with
    | false => exact empty
    | true =>
        rw [if_pos rfl, BitVec.getLsbD_xor, empty, top]
        rfl
  have low : left.getLsbD 0 = right.getLsbD 0 := by rw [← fallen left, same, fallen right]
  have high : left >>> 1 = right >>> 1 := by
    unfold crcShift at same
    rw [low] at same
    cases out : right.getLsbD 0 with
    | false => simpa [out] using same
    | true => simpa [out] using same
  apply BitVec.eq_of_getLsbD_eq
  intro position inside
  cases position with
  | zero => exact low
  | succ position =>
      have bit := congrArg (fun register => register.getLsbD position) high
      simpa [Nat.add_comm] using bit

theorem crcShifts_injective (top : poly.getLsbD (width - 1) = true) (count : Nat) :
    Function.Injective (crcShifts poly count) := by
  induction count with
  | zero => exact fun _ _ same => same
  | succ count ih => exact fun _ _ same => ih (crcShift_injective poly top same)

/-- A byte, lowest bit first. -/
def crcByte (register : BitVec width) (byte : Byte) : BitVec width :=
  crcShifts poly 8 (register ^^^ byte.setWidth width)

theorem crcByte_injective (top : poly.getLsbD (width - 1) = true) (byte : Byte) :
    Function.Injective fun register => crcByte poly register byte := by
  intro left right same
  have folded := crcShifts_injective poly top 8 same
  exact (BitVec.xor_left_inj _).mp folded

theorem foldl_crcByte_injective (top : poly.getLsbD (width - 1) = true) (bytes : List Byte) :
    Function.Injective fun register => bytes.foldl (crcByte poly) register := by
  induction bytes with
  | nil => exact fun _ _ same => same
  | cons byte rest ih => exact fun _ _ same => crcByte_injective poly top byte (ih same)

/-- A byte by a table of the eight-step remainders of all octets. -/
theorem crcByte_table (register : BitVec width) (byte : Byte) :
    crcByte poly register byte =
      register >>> 8 ^^^ crcShifts poly 8 ((register.setWidth 8 ^^^ byte).setWidth width) := by
  have parts : register ^^^ byte.setWidth width =
      (register >>> 8 <<< 8) ^^^ (register.setWidth 8 ^^^ byte).setWidth width := by
    apply BitVec.eq_of_getLsbD_eq
    intro position inside
    simp only [BitVec.getLsbD_xor, BitVec.getLsbD_setWidth, BitVec.getLsbD_shiftLeft,
      BitVec.getLsbD_ushiftRight, inside, decide_true, Bool.true_and]
    by_cases low : position < 8
    · simp [low]
    · have place : 8 + (position - 8) = position := by omega
      simp [low, place, BitVec.getLsbD_of_ge byte position (by omega)]
  have moved : register >>> 8 <<< 8 >>> 8 = register >>> 8 := by
    apply BitVec.eq_of_getLsbD_eq
    intro position inside
    simp only [BitVec.getLsbD_ushiftRight, BitVec.getLsbD_shiftLeft]
    by_cases within : 8 + position < width
    · simp [within]
    · simp [within, BitVec.getLsbD_of_ge register (8 + position) (by omega)]
  rw [crcByte, parts, crcShifts_xor, crcShifts_of_low, moved]
  intro position below
  simp [below]

/-! #### Bit by bit -/

/-- One bit of the message, against the bit that falls out. -/
def crcBit (register : BitVec width) (bit : Bool) : BitVec width :=
  if register.getLsbD 0 ^^ bit then register >>> 1 ^^^ poly else register >>> 1

def byteBits (byte : Byte) : List Bool := (List.range 8).map byte.getLsbD

def crcSerial (register : BitVec width) (bytes : List Byte) : BitVec width :=
  (bytes.flatMap byteBits).foldl (crcBit poly) register

theorem crcShift_message (register message : BitVec width) :
    crcShift poly (register ^^^ message) =
      crcBit poly register (message.getLsbD 0) ^^^ message >>> 1 := by
  unfold crcShift crcBit
  rw [BitVec.getLsbD_xor, BitVec.ushiftRight_xor_distrib]
  cases register.getLsbD 0 ^^ message.getLsbD 0 with
  | false => rfl
  | true =>
      rw [if_pos rfl, if_pos rfl, BitVec.xor_assoc, BitVec.xor_assoc,
        BitVec.xor_comm (message >>> 1)]

/-- The bits of the message not yet taken are still above. -/
theorem crcShifts_message (register message : BitVec width) (count : Nat) :
    crcShifts poly count (register ^^^ message) =
      ((List.range count).map message.getLsbD).foldl (crcBit poly) register ^^^
        message >>> count := by
  induction count with
  | zero => rw [crcShifts, BitVec.ushiftRight_zero]; rfl
  | succ count ih =>
      have next : (message >>> count).getLsbD 0 = message.getLsbD count := by
        rw [BitVec.getLsbD_ushiftRight, Nat.add_zero]
      rw [crcShifts, ih, crcShift_message, next, ← BitVec.shiftRight_add, List.range_succ,
        List.map_append, List.foldl_append]
      rfl

theorem crcByte_bits (wide : 8 ≤ width) (register : BitVec width) (byte : Byte) :
    crcByte poly register byte = (byteBits byte).foldl (crcBit poly) register := by
  have bits : (List.range 8).map (byte.setWidth width).getLsbD = byteBits byte := by
    refine List.map_congr_left fun position member => ?_
    have below := List.mem_range.mp member
    have inside : position < width := by omega
    simp [inside]
  have gone : byte.setWidth width >>> 8 = (0 : BitVec width) := by
    apply BitVec.eq_of_getLsbD_eq
    intro position _
    simp [BitVec.getLsbD_ushiftRight, BitVec.getLsbD_setWidth]
  rw [crcByte, crcShifts_message, bits, gone]
  exact BitVec.xor_zero

end Division

/-! ### The Ethernet check -/

/-- The reflected polynomial of IEEE 802.3. -/
def ieeePoly : BitVec 32 := 0xedb88320

def crc32 (bytes : List Byte) : BitVec 32 :=
  ~~~ bytes.foldl (crcByte ieeePoly) 0xffffffff

/-- The frame check sequence, in the order it is sent. -/
def crc32Bytes (bytes : List Byte) : List Byte :=
  (List.range 4).map (octet (crc32 bytes))

example : crc32 [0x31, 0x32, 0x33, 0x34, 0x35, 0x36, 0x37, 0x38, 0x39] = 0xcbf43926 := by
  decide +kernel

end ZipVersa.Lib
