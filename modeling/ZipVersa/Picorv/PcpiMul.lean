import Mathlib.Algebra.Ring.Nat
import Mathlib.Tactic.Common
import ZipVersa.Lib.CarrySave

/-! `picorv32_pcpi_mul`, with `STEPS_AT_ONCE` 1 and `CARRY_CHAIN` 4: the
multiplications of the core, one bit of `rs1` at each clock. -/

set_option autoImplicit false

namespace ZipVersa.Picorv

open ZipVersa.Lib (carrySave Multiplies)

/-- The co-processor interface, from the core: `pcpi_valid`, `pcpi_insn`,
`pcpi_rs1`, `pcpi_rs2`. -/
structure PcpiIn where
  valid : Bool
  insn : BitVec 32
  rs1 : BitVec 32
  rs2 : BitVec 32
  deriving DecidableEq, Repr

/-- An instruction of the M extension: `pcpi_insn[6:0]`, `pcpi_insn[31:25]`. -/
def isM (insn : BitVec 32) : Bool :=
  insn.extractLsb' 0 7 == 0b0110011#7 && insn.extractLsb' 25 7 == 0b0000001#7

/-- Which of `instr_mul`, `instr_mulh`, `instr_mulhsu` and `instr_mulhu`. -/
inductive MulInstr where
  | mul
  | mulh
  | mulhsu
  | mulhu
  deriving DecidableEq, Repr

namespace MulInstr

/-- By `pcpi_insn[14:12]`. -/
def decode (insn : BitVec 32) : Option MulInstr :=
  if isM insn then
    if insn.extractLsb' 12 3 = 0b000#3 then some mul
    else if insn.extractLsb' 12 3 = 0b001#3 then some mulh
    else if insn.extractLsb' 12 3 = 0b010#3 then some mulhsu
    else if insn.extractLsb' 12 3 = 0b011#3 then some mulhu
    else none
  else none

/-- `instr_any_mulh` -/
def anyMulh : MulInstr → Bool
  | mul => false
  | mulh | mulhsu | mulhu => true

/-- `instr_rs1_signed` -/
def rs1Signed : MulInstr → Bool
  | mul | mulhu => false
  | mulh | mulhsu => true

/-- `instr_rs2_signed` -/
def rs2Signed : MulInstr → Bool
  | mulh => true
  | mul | mulhsu | mulhu => false

/-- What the instruction is to give: the low half of a product, or its high half
with the signs that the instruction names. -/
def result (instr : MulInstr) (rs1 rs2 : BitVec 32) : BitVec 32 :=
  match instr with
  | mul => BitVec.ofInt 32 (rs1.toInt * rs2.toInt)
  | mulh => BitVec.ofInt 32 (rs1.toInt * rs2.toInt / 2 ^ 32)
  | mulhsu => BitVec.ofInt 32 (rs1.toInt * (rs2.toNat : Int) / 2 ^ 32)
  | mulhu => BitVec.ofNat 32 (rs1.toNat * rs2.toNat / 2 ^ 32)

end MulInstr

/-- `$signed(value)` or `$unsigned(value)` in 64 bits. -/
def extend (signed : Bool) (value : BitVec 32) : BitVec 64 :=
  if signed then value.signExtend 64 else value.setWidth 64

structure PcpiMul where
  instr : Option MulInstr
  pcpiWait : Bool
  pcpiWaitQ : Bool
  rs1 : BitVec 64
  rs2 : BitVec 64
  rd : BitVec 64
  rdx : BitVec 64
  mulCounter : BitVec 7
  mulWaiting : Bool
  mulFinish : Bool
  pcpiWr : Bool
  pcpiRd : BitVec 32
  pcpiReady : Bool
  deriving DecidableEq, Repr

namespace PcpiMul

def mulStart (unit : PcpiMul) : Bool := unit.pcpiWait && !unit.pcpiWaitQ

/-- `instr_any_mulh`, none of the registers being set otherwise. -/
def anyMulh (unit : PcpiMul) : Bool := unit.instr.any MulInstr.anyMulh

/-- `this_rs2` -/
def thisRs2 (unit : PcpiMul) : BitVec 64 := if unit.rs1.getLsbD 0 then unit.rs2 else 0

/-- The carry save accumulator: `next_rd` and `next_rdx`. -/
def accumulated (unit : PcpiMul) : BitVec 64 × BitVec 64 :=
  let next := carrySave 4 16 unit.rd.toNat unit.rdx.toNat unit.thisRs2.toNat
  (BitVec.ofNat 64 next.1, BitVec.ofNat 64 next.2)

/-- The accumulator takes one step. -/
def accumulate (unit : PcpiMul) : PcpiMul :=
  { unit with
    rs1 := unit.rs1 >>> 1
    rs2 := unit.rs2 <<< 1
    rd := unit.accumulated.1
    rdx := unit.accumulated.2 }

/-- The operands are taken at every clock at which the unit waits. -/
def load (unit : PcpiMul) (pcpi : PcpiIn) : PcpiMul :=
  { unit with
    rs1 := extend (unit.instr.any MulInstr.rs1Signed) pcpi.rs1
    rs2 := extend (unit.instr.any MulInstr.rs2Signed) pcpi.rs2
    rd := 0
    rdx := 0
    mulCounter := if unit.anyMulh then 62 else 30
    mulWaiting := !unit.mulStart }

/-- `mul_counter[6]` -/
def counterTop (unit : PcpiMul) : Bool := unit.mulCounter.getLsbD 6

/-- The registers of the multiplication. -/
def work (unit : PcpiMul) (resetn : Bool) (pcpi : PcpiIn) : PcpiMul :=
  if !resetn then { unit with mulFinish := false, mulWaiting := true }
  else if unit.mulWaiting then { unit.load pcpi with mulFinish := false }
  else
    { unit.accumulate with
      mulCounter := unit.mulCounter - 1
      mulFinish := unit.counterTop
      mulWaiting := unit.counterTop }

/-- One rising edge. -/
def step (unit : PcpiMul) (resetn : Bool) (pcpi : PcpiIn) : PcpiMul :=
  { unit.work resetn pcpi with
    instr := if resetn && pcpi.valid then MulInstr.decode pcpi.insn else none
    pcpiWait := unit.instr.isSome
    pcpiWaitQ := unit.pcpiWait
    pcpiWr := unit.mulFinish && resetn
    pcpiReady := unit.mulFinish && resetn
    pcpiRd :=
      if unit.mulFinish && resetn then
        if unit.anyMulh then (unit.rd >>> 32).setWidth 32 else unit.rd.setWidth 32
      else unit.pcpiRd }

end PcpiMul

/-! ### The product -/

section Product

variable {rd : BitVec 64} {rs1 rs2 : BitVec 32} {signed : Bool}

theorem toInt_extend_signed (value : BitVec 32) : (extend true value).toInt = value.toInt := by
  rw [extend, if_pos rfl, BitVec.toInt_signExtend_of_le (by decide)]

theorem toNat_extend_unsigned (value : BitVec 32) : (extend false value).toNat = value.toNat := by
  have bound := value.isLt
  rw [extend, if_neg Bool.false_ne_true, BitVec.toNat_setWidth, Nat.mod_eq_of_lt (by omega)]

theorem toInt_extend_unsigned (value : BitVec 32) :
    (extend false value).toInt = (value.toNat : Int) := by
  have bound := value.isLt
  rw [BitVec.toInt_eq_toNat_of_lt] <;> rw [toNat_extend_unsigned]
  omega

theorem high_half {product : Int} (equal : rd = BitVec.ofInt 64 product) :
    (rd >>> 32).setWidth 32 = BitVec.ofInt 32 (product / 2 ^ 32) := by
  subst equal
  apply BitVec.eq_of_toNat_eq
  rw [BitVec.toNat_setWidth, BitVec.toNat_ushiftRight, Nat.shiftRight_eq_div_pow, BitVec.toNat_ofInt,
    BitVec.toNat_ofInt]
  omega

theorem ofInt_mul_extend (signed signed' : Bool) (rs1 rs2 : BitVec 32) :
    extend signed rs1 * extend signed' rs2 =
      BitVec.ofInt 64 ((extend signed rs1).toInt * (extend signed' rs2).toInt) := by
  rw [BitVec.ofInt_mul, BitVec.ofInt_toInt, BitVec.ofInt_toInt]

/-- The half of `rd` that is given. -/
def half (instr : MulInstr) (rd : BitVec 64) : BitVec 32 :=
  if instr.anyMulh then (rd >>> 32).setWidth 32 else rd.setWidth 32

/-- The steps that an instruction takes. -/
def steps (instr : MulInstr) : Nat := if instr.anyMulh then 64 else 32

/-- The places of the product that the steps have gone through hold the result. -/
theorem half_of_product {instr : MulInstr}
    (product : rd.toNat % 2 ^ steps instr =
      (extend instr.rs1Signed rs1).toNat * (extend instr.rs2Signed rs2).toNat % 2 ^ steps instr) :
    half instr rd = instr.result rs1 rs2 := by
  have whole (signed signed' : Bool) (high : rd.toNat % 2 ^ 64 =
      (extend signed rs1).toNat * (extend signed' rs2).toNat % 2 ^ 64) :
      rd = BitVec.ofInt 64 ((extend signed rs1).toInt * (extend signed' rs2).toInt) := by
    rw [← ofInt_mul_extend]
    apply BitVec.eq_of_toNat_eq
    rw [BitVec.toNat_mul, ← high, Nat.mod_eq_of_lt rd.isLt]
  cases instr with
  | mul =>
      have low : rd.setWidth 32 = rs1 * rs2 := by
        apply BitVec.eq_of_toNat_eq
        rw [BitVec.toNat_setWidth, BitVec.toNat_mul]
        refine product.trans ?_
        rw [MulInstr.rs1Signed, MulInstr.rs2Signed, toNat_extend_unsigned, toNat_extend_unsigned]
        rfl
      calc rd.setWidth 32 = rs1 * rs2 := low
        _ = BitVec.ofInt 32 (rs1.toInt * rs2.toInt) := by
            rw [BitVec.ofInt_mul, BitVec.ofInt_toInt, BitVec.ofInt_toInt]
  | mulh =>
      have high := high_half (whole true true product)
      rw [toInt_extend_signed, toInt_extend_signed] at high
      exact high
  | mulhsu =>
      have high := high_half (whole true false product)
      rw [toInt_extend_signed, toInt_extend_unsigned] at high
      exact high
  | mulhu =>
      have high := high_half (whole false false product)
      rw [toInt_extend_unsigned, toInt_extend_unsigned] at high
      refine high.trans ?_
      rw [MulInstr.result, ← BitVec.ofInt_natCast]
      rfl

end Product

/-! ### The unit at work -/

namespace PcpiMul

variable {unit : PcpiMul} {pcpi : PcpiIn} {instr : MulInstr} {count : Nat}

/-- Nothing is asked of the unit, and it has nothing to give. -/
structure Quiet (unit : PcpiMul) : Prop where
  waiting : unit.mulWaiting = true
  finish : unit.mulFinish = false
  ready : unit.pcpiReady = false

/-- What is left of the last request does not start the unit again. -/
structure Falling (unit : PcpiMul) : Prop extends Quiet unit where
  wait : unit.instr.isSome = true → unit.pcpiWait = true
  waitQ : unit.pcpiWait = true → unit.pcpiWaitQ = true

/-- Nothing is left of the last request but `pcpi_wait`. -/
structure Fallen (unit : PcpiMul) : Prop extends Quiet unit where
  instr : unit.instr = none
  waitQ : unit.pcpiWait = true → unit.pcpiWaitQ = true

/-- A request starts the unit. -/
structure Idle (unit : PcpiMul) : Prop extends Quiet unit where
  instr : unit.instr = none
  wait : unit.pcpiWait = false

theorem Idle.fallen (idle : Idle unit) : Fallen unit :=
  ⟨idle.toQuiet, idle.instr, fun wait => by simp [idle.wait] at wait⟩

theorem Fallen.falling (fallen : Fallen unit) : Falling unit :=
  ⟨fallen.toQuiet, fun wait => by simp [fallen.instr] at wait, fallen.waitQ⟩

/-- A unit that has not been started keeps waiting. -/
theorem Quiet.step (quiet : Quiet unit) (calm : unit.mulStart = false) (pcpi : PcpiIn) :
    Quiet (unit.step true pcpi) := by
  obtain ⟨waiting, finish, ready⟩ := quiet
  refine ⟨?_, ?_, ?_⟩
  · simp [PcpiMul.step, work, load, waiting, calm]
  · simp [PcpiMul.step, work, waiting]
  · simp [PcpiMul.step, finish]

theorem Falling.calm (falling : Falling unit) : unit.mulStart = false := by
  cases wait : unit.pcpiWait with
  | false => simp [mulStart, wait]
  | true => simp [mulStart, falling.waitQ wait]

theorem Falling.step (falling : Falling unit) (silent : pcpi.valid = false) :
    Fallen (unit.step true pcpi) :=
  ⟨falling.toQuiet.step falling.calm pcpi, by simp [PcpiMul.step, silent],
    by simpa [PcpiMul.step] using falling.wait⟩

theorem Fallen.step (fallen : Fallen unit) (silent : pcpi.valid = false) :
    Idle (unit.step true pcpi) :=
  ⟨fallen.toQuiet.step fallen.falling.calm pcpi, by simp [PcpiMul.step, silent],
    by simp [PcpiMul.step, fallen.instr]⟩

/-- A request for another unit is let pass. -/
theorem Idle.pass (idle : Idle unit) (other : pcpi.valid = true → MulInstr.decode pcpi.insn = none) :
    Idle (unit.step true pcpi) := by
  refine ⟨idle.toQuiet.step idle.fallen.falling.calm pcpi, ?_, by simp [PcpiMul.step, idle.instr]⟩
  cases valid : pcpi.valid with
  | false => simp [PcpiMul.step, valid]
  | true => simp [PcpiMul.step, other valid]

/-- The request has been decoded. -/
structure Decoded (unit : PcpiMul) (instr : MulInstr) : Prop extends Quiet unit where
  decoded : unit.instr = some instr
  wait : unit.pcpiWait = false

/-- The unit takes the operands and starts. -/
structure Starting (unit : PcpiMul) (instr : MulInstr) : Prop extends Quiet unit where
  decoded : unit.instr = some instr
  wait : unit.pcpiWait = true
  waitQ : unit.pcpiWaitQ = false

/-- `count` steps have been taken. -/
structure Working (unit : PcpiMul) (instr : MulInstr) (rs1 rs2 : BitVec 32) (count : Nat) :
    Prop where
  decoded : unit.instr = some instr
  wait : unit.pcpiWait = true
  waitQ : unit.pcpiWaitQ = true
  waiting : unit.mulWaiting = false
  finish : unit.mulFinish = false
  ready : unit.pcpiReady = false
  counter : unit.mulCounter = BitVec.ofNat 7 (126 + steps instr - count)
  multiplies : Multiplies 4 16 (extend instr.rs1Signed rs1).toNat (extend instr.rs2Signed rs2).toNat
    count unit.rs1.toNat unit.rs2.toNat unit.rd.toNat unit.rdx.toNat

/-- The product is there. -/
structure Finished (unit : PcpiMul) (instr : MulInstr) (rs1 rs2 : BitVec 32) : Prop where
  decoded : unit.instr = some instr
  wait : unit.pcpiWait = true
  waitQ : unit.pcpiWaitQ = true
  waiting : unit.mulWaiting = true
  finish : unit.mulFinish = true
  ready : unit.pcpiReady = false
  product : half instr unit.rd = instr.result rs1 rs2

/-- `pcpi_ready` -/
structure Ready (unit : PcpiMul) (instr : MulInstr) (rs1 rs2 : BitVec 32) : Prop where
  decoded : unit.instr = some instr
  wait : unit.pcpiWait = true
  waitQ : unit.pcpiWaitQ = true
  waiting : unit.mulWaiting = true
  finish : unit.mulFinish = false
  ready : unit.pcpiReady = true
  wr : unit.pcpiWr = true
  rd : unit.pcpiRd = instr.result rs1 rs2

/-- The request is held, with what it was made with. -/
structure Asks (pcpi : PcpiIn) (instr : MulInstr) (rs1 rs2 : BitVec 32) : Prop where
  valid : pcpi.valid = true
  insn : MulInstr.decode pcpi.insn = some instr
  rs1 : pcpi.rs1 = rs1
  rs2 : pcpi.rs2 = rs2

variable {rs1 rs2 : BitVec 32}

theorem Asks.decodes (asks : Asks pcpi instr rs1 rs2) (unit : PcpiMul) :
    (unit.step true pcpi).instr = some instr := by
  simp [PcpiMul.step, asks.valid, asks.insn]

theorem Idle.decode (idle : Idle unit) (asks : Asks pcpi instr rs1 rs2) :
    Decoded (unit.step true pcpi) instr :=
  ⟨idle.toQuiet.step idle.fallen.falling.calm pcpi, asks.decodes unit,
    by simp [PcpiMul.step, idle.instr]⟩

theorem Decoded.start (decoded : Decoded unit instr) (asks : Asks pcpi instr rs1 rs2) :
    Starting (unit.step true pcpi) instr := by
  have calm : unit.mulStart = false := by simp [mulStart, decoded.wait]
  exact ⟨decoded.toQuiet.step calm pcpi, asks.decodes unit, by simp [PcpiMul.step, decoded.decoded],
    by simp [PcpiMul.step, decoded.wait]⟩

theorem Starting.work (starting : Starting unit instr) (asks : Asks pcpi instr rs1 rs2) :
    Working (unit.step true pcpi) instr rs1 rs2 0 := by
  have start : unit.mulStart = true := by simp [mulStart, starting.wait, starting.waitQ]
  have any : unit.anyMulh = instr.anyMulh := by simp [anyMulh, starting.decoded]
  refine ⟨asks.decodes unit, ?_, ?_, ?_, ?_, ?_, ?_, ?_⟩
  · simp [PcpiMul.step, starting.decoded]
  · simp [PcpiMul.step, starting.wait]
  · simp [PcpiMul.step, PcpiMul.work, load, starting.waiting, start]
  · simp [PcpiMul.step, PcpiMul.work, starting.waiting]
  · simp [PcpiMul.step, starting.finish]
  · cases high : instr.anyMulh <;>
      simp [PcpiMul.step, PcpiMul.work, load, starting.waiting, steps, any, high]
  · have small := (extend instr.rs2Signed rs2).isLt
    simpa [PcpiMul.step, PcpiMul.work, load, starting.waiting, starting.decoded, asks.rs1, asks.rs2]
      using @Multiplies.start 4 16 (extend instr.rs1Signed rs1).toNat _ small

/-- One step of the accumulator. -/
theorem Working.multiplied (working : Working unit instr rs1 rs2 count) (more : count < 64) :
    Multiplies 4 16 (extend instr.rs1Signed rs1).toNat (extend instr.rs2Signed rs2).toNat
      (count + 1) unit.accumulate.rs1.toNat unit.accumulate.rs2.toNat unit.accumulate.rd.toNat
      unit.accumulate.rdx.toNat := by
  have next := working.multiplies.next (by decide) more
  have bit : (if unit.rs1.toNat % 2 = 1 then unit.rs2.toNat else 0) = unit.thisRs2.toNat := by
    rw [thisRs2, BitVec.getLsbD, Nat.testBit_zero]
    rcases Nat.mod_two_eq_zero_or_one unit.rs1.toNat with bit | bit <;> simp [bit]
  rw [bit] at next
  have half : unit.accumulate.rs1.toNat = unit.rs1.toNat / 2 := by
    simp [accumulate, Nat.shiftRight_eq_div_pow]
  have double : unit.accumulate.rs2.toNat = unit.rs2.toNat * 2 % 2 ^ (4 * 16) := by
    simp [accumulate, Nat.shiftLeft_eq]
  rw [half, double]
  exact next

theorem steps_le (instr : MulInstr) : steps instr ≤ 64 := by
  cases instr <;> decide

/-- The top bit of the counter is set by the last step alone. -/
theorem getLsbD_counter (within : count < steps instr) :
    (BitVec.ofNat 7 (126 + steps instr - count)).getLsbD 6 = decide (count + 1 = steps instr) := by
  have bound := steps_le instr
  rw [BitVec.getLsbD_ofNat, Nat.testBit_eq_decide_div_mod_eq]
  rw [show decide (6 < 7) = true from rfl, Bool.true_and, decide_eq_decide]
  omega

theorem Working.step (working : Working unit instr rs1 rs2 count)
    (asks : Asks pcpi instr rs1 rs2) (more : count + 1 < steps instr) :
    Working (unit.step true pcpi) instr rs1 rs2 (count + 1) := by
  have top : unit.counterTop = false := by
    rw [counterTop, working.counter, getLsbD_counter (by omega), decide_eq_false (by omega)]
  have bound := steps_le instr
  refine ⟨asks.decodes unit, ?_, ?_, ?_, ?_, ?_, ?_, ?_⟩
  · simp [PcpiMul.step, working.decoded]
  · simp [PcpiMul.step, working.wait]
  · simp [PcpiMul.step, PcpiMul.work, working.waiting, top]
  · simp [PcpiMul.step, PcpiMul.work, working.waiting, top]
  · simp [PcpiMul.step, working.finish]
  · have counter : (unit.step true pcpi).mulCounter = unit.mulCounter - 1 := by
      simp [PcpiMul.step, PcpiMul.work, working.waiting]
    rw [counter, working.counter]
    apply BitVec.eq_of_toNat_eq
    have one : (1 : BitVec 7).toNat = 1 := rfl
    rw [BitVec.toNat_sub, BitVec.toNat_ofNat, BitVec.toNat_ofNat, one]
    omega
  · have taken := working.multiplied (by omega)
    simpa [PcpiMul.step, PcpiMul.work, working.waiting] using taken

theorem Working.finishes (working : Working unit instr rs1 rs2 count)
    (asks : Asks pcpi instr rs1 rs2) (last : count + 1 = steps instr) :
    Finished (unit.step true pcpi) instr rs1 rs2 := by
  have top : unit.counterTop = true := by
    rw [counterTop, working.counter, getLsbD_counter (by omega), decide_eq_true last]
  have bound := steps_le instr
  refine ⟨asks.decodes unit, ?_, ?_, ?_, ?_, ?_, ?_⟩
  · simp [PcpiMul.step, working.decoded]
  · simp [PcpiMul.step, working.wait]
  · simp [PcpiMul.step, PcpiMul.work, working.waiting, top]
  · simp [PcpiMul.step, PcpiMul.work, working.waiting, top]
  · simp [PcpiMul.step, working.finish]
  · have product := (working.multiplied (by omega)).low (by omega)
    rw [last] at product
    simpa [PcpiMul.step, PcpiMul.work, working.waiting] using half_of_product product

theorem Finished.step (finished : Finished unit instr rs1 rs2) (asks : Asks pcpi instr rs1 rs2) :
    Ready (unit.step true pcpi) instr rs1 rs2 := by
  have calm : unit.mulStart = false := by simp [mulStart, finished.waitQ]
  refine ⟨asks.decodes unit, ?_, ?_, ?_, ?_, ?_, ?_, ?_⟩
  · simp [PcpiMul.step, finished.decoded]
  · simp [PcpiMul.step, finished.wait]
  · simp [PcpiMul.step, PcpiMul.work, load, finished.waiting, calm]
  · simp [PcpiMul.step, PcpiMul.work, finished.waiting]
  · simp [PcpiMul.step, finished.finish]
  · simp [PcpiMul.step, finished.finish]
  · simpa [PcpiMul.step, finished.finish, anyMulh, finished.decoded, half] using finished.product

theorem Ready.falls (ready : Ready unit instr rs1 rs2) (pcpi : PcpiIn) :
    Falling (unit.step true pcpi) := by
  have calm : unit.mulStart = false := by simp [mulStart, ready.waitQ]
  refine ⟨⟨?_, ?_, ?_⟩, ?_, ?_⟩
  · simp [PcpiMul.step, PcpiMul.work, load, ready.waiting, calm]
  · simp [PcpiMul.step, PcpiMul.work, ready.waiting]
  · simp [PcpiMul.step, ready.finish]
  · intro
    simp [PcpiMul.step, ready.decoded]
  · intro
    simp [PcpiMul.step, ready.wait]

end PcpiMul

end ZipVersa.Picorv
