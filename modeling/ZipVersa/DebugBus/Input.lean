import ZipVersa.DebugBus.SixBit
import ZipVersa.Lib.Clocked

/-! The input side of the debug bus: `wbutohex`, `wbureadcw` and
`wbudecompress`, register by register, as `wbuinput` connects them. A `step`
is one rising edge. -/

set_option autoImplicit false

namespace ZipVersa.DebugBus

open Lib

/-! ### Slices of a codeword -/

/-- The six bits of a codeword that character `index` fills: `[35:30]` is
index 0. -/
def slot (word : Word) (index : Nat) : Six := word.extractLsb' (30 - 6 * index) 6

def setSlot (word : Word) (index : Nat) (value : Six) : Word :=
  match index with
  | 0 => value ++ word.extractLsb' 0 30
  | 1 => word.extractLsb' 30 6 ++ value ++ word.extractLsb' 0 24
  | 2 => word.extractLsb' 24 12 ++ value ++ word.extractLsb' 0 18
  | 3 => word.extractLsb' 18 18 ++ value ++ word.extractLsb' 0 12
  | 4 => word.extractLsb' 12 24 ++ value ++ word.extractLsb' 0 6
  | 5 => word.extractLsb' 6 30 ++ value
  | _ => word

/-- `{ word[32:31], word[29:0] }`. -/
def codData (word : Word) : BitVec 32 := word.extractLsb' 31 2 ++ word.extractLsb' 0 30

/-! ### `wbutohex` -/

structure ToHex where
  stb : Bool
  valid : Bool
  hexbits : Six
  deriving DecidableEq, Repr

def ToHex.next (iStb : Bool) (iByte : Byte) : ToHex where
  stb := iStb
  valid := (toHex iByte).1
  hexbits := (toHex iByte).2

/-! ### `wbureadcw` -/

structure ReadCw where
  rLen : BitVec 3
  cwLen : BitVec 3
  shiftreg : Word
  lastcw : BitVec 2
  stb : Bool
  codword : Word
  deriving DecidableEq, Repr

/-- The length a codeword announces with its first six bits. -/
def codwordLen (hexbits : Six) : BitVec 3 :=
  if hexbits.extractLsb' 4 2 = 0b11 then 2
  else if hexbits.extractLsb' 4 2 = 0b10 then 1
  else if hexbits.extractLsb' 3 3 = 0b010 then 2
  else if hexbits.extractLsb' 3 3 = 0b001 then 2 + (hexbits.extractLsb' 1 2).setWidth 3
  else 6

namespace ReadCw

def wStb (cw : ReadCw) (iStb iValid : Bool) : Bool :=
  (cw.rLen == cw.cwLen && cw.cwLen != 0) || (iStb && !iValid && cw.lastcw == 0b01)

def step (cw : ReadCw) (iStb iValid : Bool) (iHexbits : Six) : ReadCw where
  rLen :=
    if iStb && !iValid then 0
    else if cw.wStb iStb iValid then (if iStb then 1 else 0)
    else if iStb then cw.rLen + 1
    else cw.rLen
  cwLen :=
    if iStb && !iValid then 0
    else if iStb && (cw.cwLen == 0 || cw.wStb iStb iValid) then codwordLen iHexbits
    else if cw.wStb iStb iValid then 0
    else cw.cwLen
  shiftreg :=
    if cw.wStb iStb iValid then setSlot cw.shiftreg 0 iHexbits
    else if iStb then setSlot cw.shiftreg cw.rLen.toNat iHexbits
    else cw.shiftreg
  lastcw := if cw.stb then cw.codword.extractLsb' 34 2 else cw.lastcw
  stb := cw.wStb iStb iValid
  codword :=
    if iStb && !iValid && cw.lastcw == 0b01 then setSlot cw.codword 0 0x2e else cw.shiftreg

end ReadCw

/-! ### `wbudecompress` -/

structure Decompress where
  wrAddr : BitVec 8
  compressionTbl : BitVec 8 → BitVec 32
  rWord : Word
  cmdAddr : BitVec 8
  rAddr : BitVec 25
  rdLen : BitVec 10
  cword : BitVec 32
  rStb : BitVec 3
  stb : Bool
  word : Word

namespace Decompress

def nextAddr (iWord : Word) : BitVec 25 :=
  if iWord.extractLsb' 30 3 = 0b000 then (iWord.extractLsb' 24 6).setWidth 25
  else if iWord.extractLsb' 30 3 = 0b010 then (iWord.extractLsb' 18 12).setWidth 25
  else if iWord.extractLsb' 30 3 = 0b100 then (iWord.extractLsb' 12 18).setWidth 25
  else if iWord.extractLsb' 30 3 = 0b110 then (iWord.extractLsb' 6 24).setWidth 25
  else if iWord.extractLsb' 30 3 = 0b001 then (iWord.extractLsb' 24 6).signExtend 25
  else if iWord.extractLsb' 30 3 = 0b011 then (iWord.extractLsb' 18 12).signExtend 25
  else if iWord.extractLsb' 30 3 = 0b101 then (iWord.extractLsb' 12 18).signExtend 25
  else (iWord.extractLsb' 6 24).signExtend 25

def nextLen (iWord : Word) : BitVec 10 :=
  if iWord.extractLsb' 34 1 = 0 then 0x01 + (iWord.extractLsb' 31 3).setWidth 10
  else 0x09 + (iWord.extractLsb' 31 3 ++ iWord.extractLsb' 24 6).setWidth 10

/-- The output word, from the input word, the address it holds, the table
entry it refers to and the length it holds. -/
def unpack (rWord : Word) (rAddr : BitVec 25) (cword : BitVec 32) (rdLen : BitVec 10) : Word :=
  let wAddr : BitVec 32 := rAddr.signExtend 32
  if rWord.extractLsb' 30 6 = 0b101110 then rWord
  else if rWord.extractLsb' 33 3 = 0b001 ∧ rWord.extractLsb' 30 1 = 0 then
    (0 : BitVec 4) ++ wAddr
  else if rWord.extractLsb' 33 3 = 0b001 then
    (0b001 : BitVec 3) ++ wAddr.extractLsb' 30 2 ++ (1 : BitVec 1) ++ wAddr.extractLsb' 0 30
  else if rWord.extractLsb' 33 3 = 0b010 then
    (0b011 : BitVec 3) ++ cword.extractLsb' 30 2 ++ rWord.extractLsb' 30 1 ++
      cword.extractLsb' 0 30
  else if rWord.extractLsb' 35 1 = 1 then
    (0b11000 : BitVec 5) ++ rWord.extractLsb' 30 1 ++ (0 : BitVec 20) ++ rdLen
  else rWord

def step (dc : Decompress) (iStb : Bool) (iWord : Word) : Decompress where
  wrAddr := if iStb && iWord.extractLsb' 33 3 == 0b011 then dc.wrAddr + 1 else dc.wrAddr
  compressionTbl :=
    if iStb then Function.update dc.compressionTbl dc.wrAddr (codData iWord)
    else dc.compressionTbl
  rWord := if iStb then iWord else dc.rWord
  cmdAddr :=
    if iStb then dc.wrAddr - (iWord.extractLsb' 31 2 ++ iWord.extractLsb' 24 6) else dc.cmdAddr
  rAddr := if iStb then nextAddr iWord else dc.rAddr
  rdLen := if iStb then nextLen iWord else dc.rdLen
  cword := dc.compressionTbl dc.cmdAddr
  rStb := dc.rStb.extractLsb' 0 2 ++ BitVec.ofBool iStb
  stb := dc.rStb.getLsbD 2
  word := unpack dc.rWord dc.rAddr dc.cword dc.rdLen

end Decompress

/-! ### `wbuinput` -/

structure WbuInput where
  hex : ToHex
  cw : ReadCw
  dc : Decompress

/-- A character on the serial port, if there is one; the byte lines hold
something at every clock. -/
structure Serial where
  stb : Bool
  byte : Byte

def Serial.char (serial : Serial) : Option Byte := if serial.stb then some serial.byte else none

namespace WbuInput

def step (input : WbuInput) (serial : Serial) : WbuInput where
  hex := ToHex.next serial.stb serial.byte
  cw := input.cw.step input.hex.stb input.hex.valid input.hex.hexbits
  dc := input.dc.step input.cw.stb input.cw.codword

/-- `o_stb` and `o_codword`. -/
def output (input : WbuInput) : Option Word := if input.dc.stb then some input.dc.word else none

end WbuInput

end ZipVersa.DebugBus
