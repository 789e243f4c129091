import Mathlib.Algebra.Ring.Nat
import Mathlib.Tactic.Common
import ZipVersa.Lib.Restoring
import ZipVersa.Picorv.PcpiMul

/-! `picorv32_pcpi_div`: the divisions of the core, one bit of the quotient at
each clock. -/

set_option autoImplicit false

namespace ZipVersa.Picorv

open ZipVersa.Lib (Divides)

/-- Which of `instr_div`, `instr_divu`, `instr_rem` and `instr_remu`. -/
inductive DivInstr where
  | div
  | divu
  | rem
  | remu
  deriving DecidableEq, Repr

namespace DivInstr

/-- By `pcpi_insn[14:12]`. -/
def decode (insn : BitVec 32) : Option DivInstr :=
  if isM insn then
    if insn.extractLsb' 12 3 = 0b100#3 then some div
    else if insn.extractLsb' 12 3 = 0b101#3 then some divu
    else if insn.extractLsb' 12 3 = 0b110#3 then some rem
    else if insn.extractLsb' 12 3 = 0b111#3 then some remu
    else none
  else none

/-- `instr_div || instr_rem` -/
def signed : DivInstr → Bool
  | div | rem => true
  | divu | remu => false

/-- `instr_div || instr_divu` -/
def quotient : DivInstr → Bool
  | div | divu => true
  | rem | remu => false

/-- What the instruction is to give. A division by zero gives a quotient of ones
and leaves the dividend. -/
def result (instr : DivInstr) (rs1 rs2 : BitVec 32) : BitVec 32 :=
  match instr with
  | div => if rs2 = 0 then BitVec.allOnes 32 else BitVec.ofInt 32 (rs1.toInt.tdiv rs2.toInt)
  | divu => if rs2 = 0 then BitVec.allOnes 32 else BitVec.ofNat 32 (rs1.toNat / rs2.toNat)
  | rem => if rs2 = 0 then rs1 else BitVec.ofInt 32 (rs1.toInt.tmod rs2.toInt)
  | remu => if rs2 = 0 then rs1 else BitVec.ofNat 32 (rs1.toNat % rs2.toNat)

end DivInstr

/-- `pcpi_rd` is `none` where the source leaves it undefined. -/
structure PcpiDiv where
  instr : Option DivInstr
  pcpiWait : Bool
  pcpiWaitQ : Bool
  dividend : BitVec 32
  divisor : BitVec 63
  quotient : BitVec 32
  quotientMsk : BitVec 32
  running : Bool
  outsign : Bool
  pcpiWr : Bool
  pcpiRd : Option (BitVec 32)
  pcpiReady : Bool
  deriving DecidableEq, Repr

namespace PcpiDiv

def start (unit : PcpiDiv) : Bool := unit.pcpiWait && !unit.pcpiWaitQ

/-- `instr_div || instr_rem` -/
def signed (unit : PcpiDiv) : Bool := unit.instr.any DivInstr.signed

/-- The operands are taken; the divisor is negated in its own width. -/
def load (unit : PcpiDiv) (pcpi : PcpiIn) : PcpiDiv :=
  { unit with
    running := true
    dividend := if unit.signed && pcpi.rs1.msb then -pcpi.rs1 else pcpi.rs1
    divisor :=
      (if unit.signed && pcpi.rs2.msb then -pcpi.rs2.setWidth 63 else pcpi.rs2.setWidth 63) <<< 31
    outsign :=
      (unit.instr == some .div && pcpi.rs1.msb != pcpi.rs2.msb && pcpi.rs2 != 0) ||
        (unit.instr == some .rem && pcpi.rs1.msb)
    quotient := 0
    quotientMsk := 1 <<< 31 }

/-- One bit of the quotient. -/
def divide (unit : PcpiDiv) : PcpiDiv :=
  { unit with
    dividend :=
      if unit.divisor ≤ unit.dividend.setWidth 63 then unit.dividend - unit.divisor.setWidth 32
      else unit.dividend
    quotient :=
      if unit.divisor ≤ unit.dividend.setWidth 63 then unit.quotient ||| unit.quotientMsk
      else unit.quotient
    divisor := unit.divisor >>> 1
    quotientMsk := unit.quotientMsk >>> 1 }

/-- What is given once the quotient is there. -/
def given (unit : PcpiDiv) : BitVec 32 :=
  if unit.instr.any DivInstr.quotient then
    if unit.outsign then -unit.quotient else unit.quotient
  else if unit.outsign then -unit.dividend else unit.dividend

/-- The registers of the division. -/
def work (unit : PcpiDiv) (resetn : Bool) (pcpi : PcpiIn) : PcpiDiv :=
  let unit' := { unit with pcpiReady := false, pcpiWr := false, pcpiRd := none }
  if !resetn then { unit' with running := false }
  else if unit.start then unit'.load pcpi
  else if unit.quotientMsk == 0 && unit.running then
    { unit' with running := false, pcpiReady := true, pcpiWr := true, pcpiRd := some unit.given }
  else unit'.divide

/-- One rising edge. -/
def step (unit : PcpiDiv) (resetn : Bool) (pcpi : PcpiIn) : PcpiDiv :=
  { unit.work resetn pcpi with
    instr :=
      if resetn && pcpi.valid && !unit.pcpiReady then DivInstr.decode pcpi.insn else none
    pcpiWait := unit.instr.isSome && resetn
    pcpiWaitQ := unit.pcpiWait && resetn }

end PcpiDiv

/-! ### The quotient -/

/-- With `count` bits done, those of the quotient and what is left of the
dividend. Over a divisor of zero every bit of the quotient is set. -/
structure Dividing (dividend divisor count remainder quotient : Nat) : Prop where
  divides : divisor ≠ 0 → Divides dividend divisor (32 - count) remainder quotient
  zero : divisor = 0 → remainder = dividend ∧ quotient + 2 ^ (32 - count) = 2 ^ 32

section Quotient

variable {dividend divisor count remainder quotient : Nat}

theorem Dividing.first (small : dividend < 2 ^ 32) : Dividing dividend divisor 0 dividend 0 := by
  refine ⟨fun some => ?_, fun none => ⟨rfl, rfl⟩⟩
  refine Divides.start ?_
  calc dividend < 2 ^ 32 := small
    _ ≤ divisor * 2 ^ 32 := Nat.le_mul_of_pos_left _ (Nat.pos_of_ne_zero some)

theorem Dividing.aligned (dividing : Dividing dividend divisor count remainder quotient) :
    2 ^ (32 - count) ∣ quotient := by
  rcases Nat.eq_zero_or_pos divisor with none | some
  · have whole : 2 ^ (32 - count) ∣ quotient + 2 ^ (32 - count) := by
      rw [(dividing.zero none).2]
      exact Nat.pow_dvd_pow 2 (Nat.sub_le 32 count)
    exact (Nat.dvd_add_left (Nat.dvd_refl _)).mp whole
  · exact (dividing.divides (Nat.ne_of_gt some)).aligned

/-- One bit. -/
theorem Dividing.next (more : count < 32)
    (dividing : Dividing dividend divisor count remainder quotient) :
    Dividing dividend divisor (count + 1)
      (if divisor * 2 ^ (31 - count) ≤ remainder then remainder - divisor * 2 ^ (31 - count)
        else remainder)
      (if divisor * 2 ^ (31 - count) ≤ remainder then quotient + 2 ^ (31 - count)
        else quotient) := by
  have places : 32 - count = 31 - count + 1 := by omega
  have places' : 32 - (count + 1) = 31 - count := by omega
  refine ⟨fun some => ?_, fun none => ?_⟩
  · have divides := dividing.divides some
    rw [places] at divides
    rw [places']
    split
    · exact divides.subtract ‹_›
    · exact divides.restore (Nat.lt_of_not_le ‹_›)
  · obtain ⟨rfl, ones⟩ := dividing.zero none
    subst none
    rw [places, Nat.pow_succ] at ones
    rw [places', Nat.zero_mul, if_pos (Nat.zero_le _), if_pos (Nat.zero_le _)]
    omega

theorem Dividing.done (dividing : Dividing dividend divisor 32 remainder quotient) :
    if divisor = 0 then remainder = dividend ∧ quotient = 2 ^ 32 - 1
    else quotient = dividend / divisor ∧ remainder = dividend % divisor := by
  split
  · obtain ⟨same, ones⟩ := dividing.zero ‹_›
    exact ⟨same, by omega⟩
  · have divides := dividing.divides ‹_›
    have quotient_eq := divides.done
    have split := divides.split
    have whole := Nat.div_add_mod dividend divisor
    rw [quotient_eq, Nat.mul_comm] at whole
    exact ⟨quotient_eq.symm, by omega⟩

end Quotient

/-- The operand without its sign. -/
def magnitude (signed : Bool) (value : BitVec 32) : BitVec 32 :=
  if signed && value.msb then -value else value

section Signs

variable {rs1 rs2 : BitVec 32}

theorem ofInt_tdiv (rs1 rs2 : BitVec 32) :
    BitVec.ofInt 32 (rs1.toInt.tdiv rs2.toInt) = rs1.sdiv rs2 := by
  apply BitVec.eq_of_toInt_eq
  rw [BitVec.toInt_ofInt, BitVec.toInt_sdiv]

theorem ofInt_tmod (rs1 rs2 : BitVec 32) :
    BitVec.ofInt 32 (rs1.toInt.tmod rs2.toInt) = rs1.srem rs2 := by
  rw [← BitVec.toInt_srem, BitVec.ofInt_toInt]

theorem magnitude_eq_zero (signed : Bool) (value : BitVec 32) :
    magnitude signed value = 0 ↔ value = 0 := by
  rw [magnitude]
  split
  · exact BitVec.neg_eq_zero_iff
  · exact Iff.rfl

/-- The sign that `outsign` keeps. -/
def resultSign (instr : DivInstr) (rs1 rs2 : BitVec 32) : Bool :=
  (instr == .div && rs1.msb != rs2.msb && rs2 != 0) || (instr == .rem && rs1.msb)

/-- The sign is put back. -/
def signedAs (sign : Bool) (value : BitVec 32) : BitVec 32 := if sign then -value else value

/-- Over a divisor of zero. -/
theorem result_zero (instr : DivInstr) (rs1 : BitVec 32) :
    instr.result rs1 0 = signedAs (resultSign instr rs1 0)
      (if instr.quotient then BitVec.allOnes 32 else magnitude instr.signed rs1) := by
  cases instr with
  | div => simp [DivInstr.result, signedAs, resultSign, DivInstr.quotient]
  | divu => simp [DivInstr.result, signedAs, resultSign, DivInstr.quotient]
  | rem =>
      cases sign : rs1.msb <;>
        simp [DivInstr.result, signedAs, resultSign, DivInstr.quotient, DivInstr.signed, magnitude, sign]
  | remu => simp [DivInstr.result, signedAs, resultSign, DivInstr.quotient, DivInstr.signed, magnitude]

/-- Over any other. -/
theorem result_nonzero (instr : DivInstr) (some : rs2 ≠ 0) :
    instr.result rs1 rs2 = signedAs (resultSign instr rs1 rs2)
      (if instr.quotient then magnitude instr.signed rs1 / magnitude instr.signed rs2
        else magnitude instr.signed rs1 % magnitude instr.signed rs2) := by
  cases instr with
  | div =>
      have nonzero : (rs2 != 0) = true := bne_iff_ne.mpr some
      rw [DivInstr.result, if_neg some, ofInt_tdiv, BitVec.sdiv_eq, resultSign, nonzero]
      cases sign : rs1.msb <;> cases sign' : rs2.msb <;>
        simp [signedAs, DivInstr.quotient, DivInstr.signed, magnitude, sign, sign']
  | divu =>
      rw [DivInstr.result, if_neg some]
      simp [signedAs, resultSign, DivInstr.quotient, DivInstr.signed, magnitude, BitVec.udiv_def]
  | rem =>
      rw [DivInstr.result, if_neg some, ofInt_tmod, BitVec.srem_eq]
      cases sign : rs1.msb <;> cases sign' : rs2.msb <;>
        simp [signedAs, resultSign, DivInstr.quotient, DivInstr.signed, magnitude, sign, sign']
  | remu =>
      rw [DivInstr.result, if_neg some]
      simp [signedAs, resultSign, DivInstr.quotient, DivInstr.signed, magnitude, BitVec.umod_def]

/-- What is given once all bits are there is the result. -/
theorem result_of_dividing {instr : DivInstr} {dividend quotient : BitVec 32}
    (dividing : Dividing (magnitude instr.signed rs1).toNat (magnitude instr.signed rs2).toNat 32
      dividend.toNat quotient.toNat) :
    signedAs (resultSign instr rs1 rs2) (if instr.quotient then quotient else dividend) =
      instr.result rs1 rs2 := by
  have done := dividing.done
  split at done
  · have none : rs2 = 0 := (magnitude_eq_zero instr.signed rs2).mp (BitVec.eq_of_toNat_eq ‹_›)
    have ones : quotient = BitVec.allOnes 32 := by
      apply BitVec.eq_of_toNat_eq
      rw [done.2, BitVec.toNat_allOnes]
    have same : dividend = magnitude instr.signed rs1 := BitVec.eq_of_toNat_eq done.1
    subst none
    rw [result_zero, ones, same]
  · have some : rs2 ≠ 0 := by
      rintro rfl
      refine ‹¬ _› ?_
      rw [(magnitude_eq_zero instr.signed 0).mpr rfl]
      rfl
    have quotient_eq : quotient =
        magnitude instr.signed rs1 / magnitude instr.signed rs2 := BitVec.eq_of_toNat_eq done.1
    have dividend_eq : dividend =
        magnitude instr.signed rs1 % magnitude instr.signed rs2 := BitVec.eq_of_toNat_eq done.2
    rw [result_nonzero instr some, quotient_eq, dividend_eq]

end Signs

/-! ### The unit at work -/

namespace PcpiDiv

variable {unit : PcpiDiv} {pcpi : PcpiIn} {instr : DivInstr} {count : Nat} {rs1 rs2 : BitVec 32}

/-- Nothing is asked of the unit, and it has nothing to give. -/
structure Quiet (unit : PcpiDiv) : Prop where
  running : unit.running = false
  ready : unit.pcpiReady = false

/-- Nothing is left of the last request but `pcpi_wait`. -/
structure Fallen (unit : PcpiDiv) : Prop extends Quiet unit where
  instr : unit.instr = none
  waitQ : unit.pcpiWait = true → unit.pcpiWaitQ = true

/-- A request starts the unit. -/
structure Idle (unit : PcpiDiv) : Prop extends Quiet unit where
  instr : unit.instr = none
  wait : unit.pcpiWait = false

theorem Idle.fallen (idle : Idle unit) : Fallen unit :=
  ⟨idle.toQuiet, idle.instr, fun wait => by simp [idle.wait] at wait⟩

theorem Quiet.step (quiet : Quiet unit) (calm : unit.start = false) (pcpi : PcpiIn) :
    Quiet (unit.step true pcpi) := by
  obtain ⟨running, ready⟩ := quiet
  refine ⟨?_, ?_⟩
  · simp [PcpiDiv.step, work, divide, calm, running]
  · simp [PcpiDiv.step, work, divide, calm, running]

theorem Fallen.calm (fallen : Fallen unit) : unit.start = false := by
  cases wait : unit.pcpiWait with
  | false => simp [start, wait]
  | true => simp [start, fallen.waitQ wait]

theorem Fallen.step (fallen : Fallen unit) (silent : pcpi.valid = false) :
    Idle (unit.step true pcpi) :=
  ⟨fallen.toQuiet.step fallen.calm pcpi, by simp [PcpiDiv.step, silent],
    by simp [PcpiDiv.step, fallen.instr]⟩

/-- A request for another unit is let pass. -/
theorem Idle.pass (idle : Idle unit) (other : pcpi.valid = true → DivInstr.decode pcpi.insn = none) :
    Idle (unit.step true pcpi) := by
  refine ⟨idle.toQuiet.step idle.fallen.calm pcpi, ?_, by simp [PcpiDiv.step, idle.instr]⟩
  cases valid : pcpi.valid with
  | false => simp [PcpiDiv.step, valid]
  | true => simp [PcpiDiv.step, other valid]

/-- The request has been decoded. -/
structure Decoded (unit : PcpiDiv) (instr : DivInstr) : Prop extends Quiet unit where
  decoded : unit.instr = some instr
  wait : unit.pcpiWait = false

/-- The unit takes the operands and starts. -/
structure Starting (unit : PcpiDiv) (instr : DivInstr) : Prop extends Quiet unit where
  decoded : unit.instr = some instr
  wait : unit.pcpiWait = true
  waitQ : unit.pcpiWaitQ = false

/-- `count` bits are done. -/
structure Working (unit : PcpiDiv) (instr : DivInstr) (rs1 rs2 : BitVec 32) (count : Nat) :
    Prop where
  decoded : unit.instr = some instr
  wait : unit.pcpiWait = true
  waitQ : unit.pcpiWaitQ = true
  running : unit.running = true
  ready : unit.pcpiReady = false
  sign : unit.outsign = resultSign instr rs1 rs2
  divisor : unit.divisor.toNat = (magnitude instr.signed rs2).toNat * 2 ^ 31 / 2 ^ count
  mask : unit.quotientMsk.toNat = 2 ^ 31 / 2 ^ count
  dividing : Dividing (magnitude instr.signed rs1).toNat (magnitude instr.signed rs2).toNat count
    unit.dividend.toNat unit.quotient.toNat

/-- `pcpi_ready` -/
structure Ready (unit : PcpiDiv) (instr : DivInstr) (rs1 rs2 : BitVec 32) : Prop where
  decoded : unit.instr = some instr
  wait : unit.pcpiWait = true
  waitQ : unit.pcpiWaitQ = true
  running : unit.running = false
  ready : unit.pcpiReady = true
  wr : unit.pcpiWr = true
  rd : unit.pcpiRd = some (instr.result rs1 rs2)

/-- The request is held, with what it was made with. -/
structure Asks (pcpi : PcpiIn) (instr : DivInstr) (rs1 rs2 : BitVec 32) : Prop where
  valid : pcpi.valid = true
  insn : DivInstr.decode pcpi.insn = some instr
  rs1 : pcpi.rs1 = rs1
  rs2 : pcpi.rs2 = rs2

theorem Asks.decodes (asks : Asks pcpi instr rs1 rs2) (calm : unit.pcpiReady = false) :
    (unit.step true pcpi).instr = some instr := by
  simp [PcpiDiv.step, asks.valid, asks.insn, calm]

theorem Idle.decode (idle : Idle unit) (asks : Asks pcpi instr rs1 rs2) :
    Decoded (unit.step true pcpi) instr :=
  ⟨idle.toQuiet.step idle.fallen.calm pcpi, asks.decodes idle.ready,
    by simp [PcpiDiv.step, idle.instr]⟩

theorem Decoded.start (decoded : Decoded unit instr) (asks : Asks pcpi instr rs1 rs2) :
    Starting (unit.step true pcpi) instr := by
  have calm : unit.start = false := by simp [PcpiDiv.start, decoded.wait]
  exact ⟨decoded.toQuiet.step calm pcpi, asks.decodes decoded.ready,
    by simp [PcpiDiv.step, decoded.decoded], by simp [PcpiDiv.step, decoded.wait]⟩

/-- The divisor starts 31 places up. -/
theorem toNat_load_divisor (signed : Bool) (value : BitVec 32) :
    ((if signed && value.msb then -value.setWidth 63 else value.setWidth 63) <<< 31).toNat =
      (magnitude signed value).toNat * 2 ^ 31 := by
  have bound := value.isLt
  rw [magnitude]
  split
  · rw [BitVec.toNat_shiftLeft, BitVec.toNat_neg, BitVec.toNat_neg, BitVec.toNat_setWidth,
      Nat.shiftLeft_eq]
    omega
  · rw [BitVec.toNat_shiftLeft, BitVec.toNat_setWidth, Nat.shiftLeft_eq]
    omega

theorem Starting.work (starting : Starting unit instr) (asks : Asks pcpi instr rs1 rs2) :
    Working (unit.step true pcpi) instr rs1 rs2 0 := by
  have start : unit.start = true := by simp [PcpiDiv.start, starting.wait, starting.waitQ]
  refine ⟨asks.decodes starting.ready, ?_, ?_, ?_, ?_, ?_, ?_, ?_, ?_⟩
  · simp [PcpiDiv.step, starting.decoded]
  · simp [PcpiDiv.step, starting.wait]
  · simp [PcpiDiv.step, PcpiDiv.work, load, start]
  · simp [PcpiDiv.step, PcpiDiv.work, load, start]
  · simp [PcpiDiv.step, PcpiDiv.work, load, start, starting.decoded, resultSign, asks.rs1, asks.rs2]
  · have loaded : (unit.step true pcpi).divisor =
        (if instr.signed && rs2.msb then -rs2.setWidth 63 else rs2.setWidth 63) <<< 31 := by
      simp [PcpiDiv.step, PcpiDiv.work, load, start, signed, starting.decoded, asks.rs2]
    rw [loaded, toNat_load_divisor, Nat.pow_zero, Nat.div_one]
  · have loaded : (unit.step true pcpi).quotientMsk = 1 <<< 31 := by
      simp [PcpiDiv.step, PcpiDiv.work, load, start]
    rw [loaded]
    rfl
  · have first := @Dividing.first _ (magnitude instr.signed rs2).toNat
      (magnitude instr.signed rs1).isLt
    simpa [PcpiDiv.step, PcpiDiv.work, load, start, signed, starting.decoded, asks.rs1, magnitude]
      using first

/-- One bit of the quotient. -/
theorem Working.divided (working : Working unit instr rs1 rs2 count) (more : count < 32) :
    Dividing (magnitude instr.signed rs1).toNat (magnitude instr.signed rs2).toNat (count + 1)
      unit.divide.dividend.toNat unit.divide.quotient.toNat := by
  obtain ⟨-, -, -, -, -, -, divisor, mask, dividing⟩ := working
  have next := dividing.next more
  have places : 2 ^ 31 / 2 ^ count = 2 ^ (31 - count) := Nat.pow_div (by omega) (by decide)
  have whole : 2 ^ 31 = 2 ^ (31 - count) * 2 ^ count := by
    rw [← Nat.pow_add]
    congr 1
    omega
  rw [whole, ← Nat.mul_assoc, Nat.mul_div_cancel _ (Nat.two_pow_pos count)] at divisor
  rw [places] at mask
  have bound := unit.dividend.isLt
  have fits : unit.divisor ≤ unit.dividend.setWidth 63 ↔
      (magnitude instr.signed rs2).toNat * 2 ^ (31 - count) ≤ unit.dividend.toNat := by
    rw [BitVec.le_def, divisor, BitVec.toNat_setWidth, Nat.mod_eq_of_lt (by omega)]
  rw [← divisor] at fits next
  have set : unit.quotient.toNat ||| 2 ^ (31 - count) = unit.quotient.toNat + 2 ^ (31 - count) := by
    obtain ⟨high, aligned⟩ := dividing.aligned
    rw [aligned]
    exact (Nat.two_pow_add_eq_or_of_lt (Nat.pow_lt_pow_right (by decide) (by omega)) high).symm
  by_cases subtract : unit.divisor.toNat ≤ unit.dividend.toNat
  · have dividend_eq : unit.divide.dividend = unit.dividend - unit.divisor.setWidth 32 :=
      if_pos (fits.mpr subtract)
    have quotient_eq : unit.divide.quotient = unit.quotient ||| unit.quotientMsk :=
      if_pos (fits.mpr subtract)
    have less : (unit.dividend - unit.divisor.setWidth 32).toNat =
        unit.dividend.toNat - unit.divisor.toNat := by
      rw [BitVec.toNat_sub, BitVec.toNat_setWidth]
      omega
    rw [if_pos subtract, if_pos subtract] at next
    rw [dividend_eq, quotient_eq, less, BitVec.toNat_or, mask, set]
    exact next
  · have dividend_eq : unit.divide.dividend = unit.dividend := if_neg (mt fits.mp subtract)
    have quotient_eq : unit.divide.quotient = unit.quotient := if_neg (mt fits.mp subtract)
    rw [if_neg subtract, if_neg subtract] at next
    rw [dividend_eq, quotient_eq]
    exact next

theorem Working.step (working : Working unit instr rs1 rs2 count)
    (asks : Asks pcpi instr rs1 rs2) (more : count < 32) :
    Working (unit.step true pcpi) instr rs1 rs2 (count + 1) := by
  have calm : unit.start = false := by simp [PcpiDiv.start, working.waitQ]
  have mask : unit.quotientMsk ≠ 0#32 := by
    intro none
    have places := working.mask
    rw [Nat.pow_div (by omega) (by decide), none] at places
    exact absurd places.symm (Nat.ne_of_gt (Nat.two_pow_pos _))
  refine ⟨asks.decodes working.ready, ?_, ?_, ?_, ?_, ?_, ?_, ?_, ?_⟩
  · simp [PcpiDiv.step, working.decoded]
  · simp [PcpiDiv.step, working.wait]
  · simp [PcpiDiv.step, PcpiDiv.work, divide, calm, mask, working.running]
  · simp [PcpiDiv.step, PcpiDiv.work, divide, calm, mask]
  · simp [PcpiDiv.step, PcpiDiv.work, divide, calm, mask, working.sign]
  · have shifted : (unit.step true pcpi).divisor = unit.divisor >>> 1 := by
      simp [PcpiDiv.step, PcpiDiv.work, divide, calm, mask]
    rw [shifted, BitVec.toNat_ushiftRight, Nat.shiftRight_eq_div_pow, working.divisor,
      Nat.div_div_eq_div_mul, ← Nat.pow_add]
  · have shifted : (unit.step true pcpi).quotientMsk = unit.quotientMsk >>> 1 := by
      simp [PcpiDiv.step, PcpiDiv.work, divide, calm, mask]
    rw [shifted, BitVec.toNat_ushiftRight, Nat.shiftRight_eq_div_pow, working.mask,
      Nat.div_div_eq_div_mul, ← Nat.pow_add]
  · have divided := working.divided more
    simpa [PcpiDiv.step, PcpiDiv.work, calm, mask, divide] using divided

theorem Working.finishes (working : Working unit instr rs1 rs2 32)
    (asks : Asks pcpi instr rs1 rs2) : Ready (unit.step true pcpi) instr rs1 rs2 := by
  have calm : unit.start = false := by simp [PcpiDiv.start, working.waitQ]
  have mask : unit.quotientMsk = 0#32 := BitVec.eq_of_toNat_eq working.mask
  refine ⟨asks.decodes working.ready, ?_, ?_, ?_, ?_, ?_, ?_⟩
  · simp [PcpiDiv.step, working.decoded]
  · simp [PcpiDiv.step, working.wait]
  · simp [PcpiDiv.step, PcpiDiv.work, calm, mask, working.running]
  · simp [PcpiDiv.step, PcpiDiv.work, calm, mask, working.running]
  · simp [PcpiDiv.step, PcpiDiv.work, calm, mask, working.running]
  · have result := result_of_dividing working.dividing
    have given : (unit.step true pcpi).pcpiRd = some unit.given := by
      simp [PcpiDiv.step, PcpiDiv.work, calm, mask, working.running]
    rw [given, ← result, PcpiDiv.given, working.decoded, working.sign, Option.any_some, signedAs]
    cases instr.quotient <;> rfl

theorem Ready.falls (ready : Ready unit instr rs1 rs2) (pcpi : PcpiIn) :
    Fallen (unit.step true pcpi) := by
  have calm : unit.start = false := by simp [start, ready.waitQ]
  refine ⟨⟨?_, ?_⟩, ?_, ?_⟩
  · simp [PcpiDiv.step, PcpiDiv.work, divide, calm, ready.running]
  · simp [PcpiDiv.step, PcpiDiv.work, divide, calm, ready.running]
  · simp [PcpiDiv.step, ready.ready]
  · intro
    simp [PcpiDiv.step, ready.wait]

end PcpiDiv

end ZipVersa.Picorv
