import ZipVersa.Lib.BigEndian

/-! Six bits to a character: `charenc` and `chardec` of the host and the
decoder `wbutohex` of the device. -/

set_option autoImplicit false

namespace ZipVersa.DebugBus

open Lib

abbrev Six := BitVec 6

/-- Codewords of the debug bus, as they cross it and as they are executed. -/
abbrev Word := BitVec 36

/-- `TTYBUS::charenc`. -/
def charenc (sixbitval : Six) : Byte :=
  if sixbitval < 10 then 0x30 + sixbitval.setWidth 8
  else if sixbitval < 36 then 0x41 - 10 + sixbitval.setWidth 8
  else if sixbitval < 62 then 0x61 - 36 + sixbitval.setWidth 8
  else if sixbitval = 0x3e then 0x40
  else 0x25

/-- `TTYBUS::chardec`, with `none` for the invalid code `0x0100`. -/
def chardec (b : Byte) : Option Six :=
  if 0x30 ≤ b ∧ b ≤ 0x39 then some ((b - 0x30).setWidth 6)
  else if 0x41 ≤ b ∧ b ≤ 0x5a then some ((b - 0x41 + 10).setWidth 6)
  else if 0x61 ≤ b ∧ b ≤ 0x7a then some ((b - 0x61 + 36).setWidth 6)
  else if b = 0x40 then some 0x3e
  else if b = 0x25 then some 0x3f
  else none

/-- The combinational part of `wbutohex`: `o_valid` and `o_hexbits`. -/
def toHex (byte : Byte) : Bool × Six :=
  if 0x30 ≤ byte ∧ byte ≤ 0x39 then (true, (byte.setWidth 4).setWidth 6)
  else if 0x41 ≤ byte ∧ byte ≤ 0x5a then (true, byte.setWidth 6 - 0x01 + 0x0a)
  else if 0x61 ≤ byte ∧ byte ≤ 0x7a then (true, byte.setWidth 6 + 0x03)
  else if byte = 0x40 then (true, 0x3e)
  else if byte = 0x25 then (true, 0x3f)
  else (false, 0)

def newline : Byte := 0x0a

@[simp] theorem toHex_charenc (value : Six) : toHex (charenc value) = (true, value) := by
  revert value
  decide

@[simp] theorem chardec_charenc (value : Six) : chardec (charenc value) = some value := by
  revert value
  decide +kernel

@[simp] theorem toHex_newline : toHex newline = (false, 0) := by decide

@[simp] theorem chardec_newline : chardec newline = none := by decide

end ZipVersa.DebugBus
