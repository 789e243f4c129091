import Mathlib.Logic.Function.Iterate
import Mathlib.Tactic.Common

/-! The 64-bit divisions of `zlib`, for a CPU that has none. What the language
leaves undefined (a shift by the width of the operand or more, or by a negative
count, and a division by zero) has no result. -/

set_option autoImplicit false

namespace ZipVersa.Zlib

abbrev ULong := BitVec 64

def shiftLeft (value : ULong) (count : Int) : Option ULong :=
  if 0 ≤ count ∧ count < 64 then some (value <<< count.toNat) else none

/-- `ia / ib` in 32 bits. -/
def divide (ia ib : BitVec 32) : Option (BitVec 32) :=
  if ib = 0 then none else some (ia / ib)

/-! ### Leading zeros -/

/-- One round of `zip_bitrev`: `r` and `b`. -/
def bitrevRound (word : BitVec 32 × BitVec 32) : BitVec 32 × BitVec 32 :=
  (word.1 <<< 1 ||| (word.2 &&& 1), word.2 >>> 1)

/-- The `BREV` instruction on a ZipCPU. -/
def zipBitrev (a : BitVec 32) : BitVec 32 := (bitrevRound^[32] (0, a)).1

/-- One test of `cltz`: if the low `width` bits are all zero they are counted
and dropped. -/
def skipZeros (width : Nat) (mask : BitVec 32) (counted : Nat × BitVec 32) : Nat × BitVec 32 :=
  if counted.2 &&& mask = 0 then (counted.1 + width, counted.2 >>> width) else counted

/-- The tests of `cltz`, the last of which drops nothing. -/
def countZeros (counted : Nat × BitVec 32) : Nat :=
  let counted := skipZeros 16 0xffff counted
  let counted := skipZeros 8 0xff counted
  let counted := skipZeros 4 0x0f counted
  let counted := skipZeros 2 0x03 counted
  if counted.2 &&& 0x01 = 0 then counted.1 + 1 else counted.1

/-- The assembly version makes the same tests. -/
def cltz (v : ULong) : Nat :=
  let hv := (v >>> 32).setWidth 32
  if hv = 0 then countZeros (32, zipBitrev ((v &&& 0xffffffff).setWidth 32))
  else countZeros (0, zipBitrev hv)

/-! ### `__udivdi3` -/

theorem half_lt {m : ULong} (some : m ≠ 0) : (m >>> 1).toNat < m.toNat := by
  have positive : m.toNat ≠ 0 := fun zero => some (BitVec.eq_of_toNat_eq zero)
  rw [BitVec.toNat_ushiftRight, Nat.shiftRight_eq_div_pow]
  omega

/-- The loop, while `m` has a bit. -/
def divisionLoop (m r a b : ULong) : ULong :=
  if m = 0 then r
  else if b ≤ a then divisionLoop (m >>> 1) (r ||| m) (a - b) (b >>> 1)
  else divisionLoop (m >>> 1) r a (b >>> 1)
termination_by m.toNat
decreasing_by all_goals exact half_lt ‹_›

/-- `((b<<la)&0x0ffffffff)==0`, tested only if `lb - la < 32`. -/
def commonShift (b : ULong) (la lb : Nat) : Option Bool :=
  if (lb : Int) - la < 32 then (shiftLeft b la).map fun shifted => shifted &&& 0xffffffff == 0
  else some false

def udivdi3 (a b : ULong) : Option ULong :=
  if a < b then some 0
  else if b >>> 32 = 0 ∧ a >>> 32 = 0 then do
    let ir ← divide (a.setWidth 32) (b.setWidth 32)
    some (ir.setWidth 64)
  else do
    let la := cltz a
    let lb := cltz b
    let a ← shiftLeft a la
    if ← commonShift b la lb then
      let b ← shiftLeft b la
      let ir ← divide ((a >>> 32).setWidth 32) ((b >>> 32).setWidth 32)
      some (ir.setWidth 64)
    else
      let b ← shiftLeft b lb
      let m ← shiftLeft 1 (lb - la)
      some (divisionLoop m 0 a b)

/-- `__divdi3`; a negation wraps. -/
def divdi3 (a b : BitVec 64) : Option (BitVec 64) := do
  let s := a.slt 0
  let a := if a.slt 0 then -a else a
  let s := if b.slt 0 then !s else s
  let b := if b.slt 0 then -b else b
  let r ← udivdi3 a b
  some (if s then -r else r)

def umoddi3 (a b : ULong) : Option ULong := do
  let r ← udivdi3 a b
  some (a - r * b)

end ZipVersa.Zlib
