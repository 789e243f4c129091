import ZipVersa.Lib.Clocked
import Mathlib.Data.Nat.Init

/-! `enetctrl`, the master of the management interface of the PHY. A clock of the
interface is `2 ^ CLKBITS` clocks long, and all that is on its wires changes at the `zclk`
with which it begins. -/

set_option autoImplicit false

namespace ZipVersa.Enet

open Lib

inductive CtrlState where
  | reset
  | idle
  | address
  | read
  | write
  deriving DecidableEq, Repr

/-- The registers of `enetctrl`; `cb` is `CLKBITS`. -/
structure Enetctrl (cb : Nat) where
  clkCounter : BitVec cb
  zclk : Bool
  readReg : BitVec 16
  zregPos : Bool
  oMdio : Bool
  oMdwe : Bool
  inIdle : Bool
  oWbStall : Bool
  oWbAck : Bool
  rAddr : BitVec 5
  rData : BitVec 16
  readPending : Bool
  writePending : Bool
  preAck : Bool
  regPos : BitVec 6
  ctrlState : CtrlState
  writeReg : BitVec 16
  deriving DecidableEq

namespace Enetctrl

/-- The inputs at a clock. -/
structure Clock where
  iReset : Bool
  iWbCyc : Bool
  iWbStb : Bool
  iWbWe : Bool
  iWbAddr : BitVec 5
  iWbData : BitVec 16
  iMdio : Bool
  deriving DecidableEq, Repr

variable {cb : Nat}

section Model

variable (phyaddr : BitVec 5)

def oMdclk (ctrl : Enetctrl cb) : Bool := ctrl.clkCounter.msb

def oWbData (ctrl : Enetctrl cb) : BitVec 32 := 0#16 ++ ctrl.readReg

/-- `{ reg[14:0], bit }`. -/
def shiftIn (reg : BitVec 16) (bit : Bool) : BitVec 16 := reg.shiftConcat bit

/-- A request is taken at this clock. -/
def accepts (ctrl : Enetctrl cb) (clock : Clock) : Bool := clock.iWbStb && !ctrl.oWbStall

/-- `write_reg` while idle, with the request if there is one. -/
def idleReg (ctrl : Enetctrl cb) : BitVec 16 :=
  let op : BitVec 4 := if ctrl.writePending then 5 else if ctrl.readPending then 6 else 0xe
  (if ctrl.zclk then op else op ||| 8) ++ phyaddr ++ ctrl.rAddr ++
    (if ctrl.writePending then 2#2 else 3#2)

def shifted (ctrl : Enetctrl cb) : BitVec 16 :=
  if ctrl.zclk then shiftIn ctrl.writeReg true else ctrl.writeReg

def counted (ctrl : Enetctrl cb) : BitVec 6 :=
  if ctrl.zclk && !ctrl.zregPos then ctrl.regPos - 1 else ctrl.regPos

def nextWriteReg (ctrl : Enetctrl cb) : BitVec 16 :=
  match ctrl.ctrlState with
  | .reset => 0xffff
  | .idle => ctrl.idleReg phyaddr
  | .address => if ctrl.zregPos && ctrl.zclk then ctrl.rData else ctrl.shifted
  | .read => ctrl.shifted
  | .write => ctrl.shifted

def nextRegPos (ctrl : Enetctrl cb) : BitVec 6 :=
  match ctrl.ctrlState with
  | .reset => ctrl.counted
  | .idle => 0x0f
  | .address => if ctrl.zregPos && ctrl.zclk then 0x10 else ctrl.counted
  | .read => ctrl.counted
  | .write => ctrl.counted

def nextState (ctrl : Enetctrl cb) : CtrlState :=
  match ctrl.ctrlState with
  | .reset => if ctrl.zclk && ctrl.zregPos then .idle else .reset
  | .idle => if ctrl.zclk && (ctrl.readPending || ctrl.writePending) then .address else .idle
  | .address =>
      if ctrl.zregPos && ctrl.zclk then (if ctrl.readPending then .read else .write)
      else .address
  | .read => if ctrl.zregPos && ctrl.zclk then .idle else .read
  | .write => if ctrl.zregPos && ctrl.zclk then .idle else .write

def nextMdwe (ctrl : Enetctrl cb) : Bool :=
  match ctrl.ctrlState with
  | .reset => true
  | .idle => true
  | .address => if ctrl.zclk then ctrl.writePending || decide (1 < ctrl.regPos) else ctrl.oMdwe
  | .read => false
  | .write => true

def nextAck (ctrl : Enetctrl cb) (clock : Clock) : Bool :=
  match ctrl.ctrlState with
  | .reset | .idle | .address => false
  | .read | .write => ctrl.zregPos && ctrl.zclk && ctrl.preAck && clock.iWbCyc

def nextStall (ctrl : Enetctrl cb) (clock : Clock) : Bool :=
  if ctrl.ctrlState ≠ .idle then true
  else if ctrl.oWbAck then false
  else clock.iWbStb && ctrl.inIdle || ctrl.readPending || ctrl.writePending

/-- The states in which a request is no longer pending. -/
def clears (ctrl : Enetctrl cb) (clock : Clock) : Bool :=
  clock.iReset || ctrl.ctrlState == .read || ctrl.ctrlState == .write

def step (ctrl : Enetctrl cb) (clock : Clock) : Enetctrl cb where
  clkCounter := if clock.iReset then 0 else ctrl.clkCounter + 1
  zclk :=
    if clock.iReset then false
    else ctrl.clkCounter >>> 1 == BitVec.allOnes cb >>> 1 && !ctrl.clkCounter.getLsbD 0
  readReg := if ctrl.zclk && !ctrl.zregPos then shiftIn ctrl.readReg clock.iMdio else ctrl.readReg
  zregPos := ctrl.regPos == 0
  oMdio := if ctrl.zclk then ctrl.writeReg.msb else ctrl.oMdio
  oMdwe := if clock.iReset then true else ctrl.nextMdwe
  inIdle := ctrl.ctrlState == .idle
  oWbStall := if clock.iReset then true else ctrl.nextStall clock
  oWbAck := if clock.iReset then false else ctrl.nextAck clock
  rAddr := if !ctrl.oWbStall then clock.iWbAddr else ctrl.rAddr
  rData := if !ctrl.oWbStall then clock.iWbData else ctrl.rData
  readPending :=
    if ctrl.clears clock then false
    else if ctrl.accepts clock then !clock.iWbWe
    else ctrl.readPending
  writePending :=
    if ctrl.clears clock then false
    else if ctrl.accepts clock then clock.iWbWe
    else ctrl.writePending
  preAck :=
    if clock.iReset || !clock.iWbCyc then false
    else if ctrl.accepts clock then true
    else if ctrl.oWbAck then false
    else ctrl.preAck
  regPos := if clock.iReset then 0x3f else ctrl.nextRegPos
  ctrlState := if clock.iReset then .reset else ctrl.nextState
  writeReg := if clock.iReset then 0xffff else ctrl.nextWriteReg phyaddr

end Model

/-- The registers that have an initial value have it. -/
structure Initial (ctrl : Enetctrl cb) : Prop where
  clkCounter : ctrl.clkCounter = 0
  zclk : ctrl.zclk = false
  inIdle : ctrl.inIdle = false
  oWbStall : ctrl.oWbStall = true
  readPending : ctrl.readPending = false
  writePending : ctrl.writePending = false
  preAck : ctrl.preAck = false
  regPos : ctrl.regPos = 0x3f
  ctrlState : ctrl.ctrlState = .reset
  writeReg : ctrl.writeReg = 0xffff
  oWbAck : ctrl.oWbAck = false

variable {phyaddr : BitVec 5}

/-- `i` clocks of the interface clock have gone by. -/
structure Divided (i : Nat) (ctrl : Enetctrl cb) : Prop where
  inside : i < 2 ^ cb
  count : ctrl.clkCounter.toNat = i
  strobe : ctrl.zclk = decide (i + 1 = 2 ^ cb)

/-- The clock of the divider after the one at `i`. -/
def following (cb i : Nat) : Nat := if i + 1 = 2 ^ cb then 0 else i + 1

theorem four_le (wide : 2 ≤ cb) : 4 ≤ 2 ^ cb :=
  (Nat.pow_le_pow_right (by decide) wide : 2 ^ 2 ≤ 2 ^ cb)

theorem strobe_eq (wide : 2 ≤ cb) (count : BitVec cb) :
    (count >>> 1 == BitVec.allOnes cb >>> 1 && !count.getLsbD 0) =
      decide (count.toNat + 2 = 2 ^ cb) := by
  have even : 2 ^ cb = 2 * 2 ^ (cb - 1) := by
    rw [← Nat.pow_succ', Nat.succ_eq_add_one, Nat.sub_add_cancel (by omega)]
  have low : count.getLsbD 0 = decide (count.toNat % 2 = 1) := by
    rw [← BitVec.testBit_toNat, Nat.testBit_zero]
  have upper : (count >>> 1 == BitVec.allOnes cb >>> 1) =
      decide (count.toNat / 2 = (2 ^ cb - 1) / 2) := by
    rw [Bool.eq_iff_iff, beq_iff_eq, decide_eq_true_iff, ← BitVec.toNat_inj,
      BitVec.toNat_ushiftRight, BitVec.toNat_ushiftRight, BitVec.toNat_allOnes, Nat.shiftRight_eq_div_pow,
      Nat.shiftRight_eq_div_pow]
  have small := count.isLt
  rw [upper, low, Bool.eq_iff_iff, Bool.and_eq_true, Bool.not_eq_true', decide_eq_true_iff,
    decide_eq_false_iff_not, decide_eq_true_iff]
  omega

theorem Divided.step (wide : 2 ≤ cb) {i : Nat} {ctrl : Enetctrl cb} (divided : ctrl.Divided i)
    {clock : Clock} (running : clock.iReset = false) :
    (ctrl.step phyaddr clock).Divided (following cb i) := by
  obtain ⟨inside, count, strobe⟩ := divided
  have four := four_le wide
  have counted : (ctrl.clkCounter + 1).toNat = following cb i := by
    have one : (1 : BitVec cb).toNat = 1 := by
      change (BitVec.ofNat cb 1).toNat = 1
      rw [BitVec.toNat_ofNat, Nat.mod_eq_of_lt (by omega)]
    rw [BitVec.toNat_add, count, one, following]
    split
    · next last => rw [last, Nat.mod_self]
    · exact Nat.mod_eq_of_lt (by omega)
  refine ⟨?_, ?_, ?_⟩
  · rw [following]
    split <;> omega
  · simp only [Enetctrl.step, running, Bool.false_eq_true, if_false]
    exact counted
  · simp only [Enetctrl.step, running, Bool.false_eq_true, if_false]
    rw [strobe_eq wide, count, following]
    rw [Bool.eq_iff_iff, decide_eq_true_iff, decide_eq_true_iff]
    split <;> omega

/-! ### The frame -/

/-- `01 01 PPPPP RRRRR 10` for a write, `01 10 PPPPP RRRRR` and two clocks for a read. -/
def header (phyaddr : BitVec 5) (request : Clock) : BitVec 16 :=
  (if request.iWbWe then 5#4 else 6#4) ++ phyaddr ++ request.iWbAddr ++
    (if request.iWbWe then 2#2 else 3#2)

/-- A request is held, and no other can be taken. -/
structure Held (request : Clock) (ctrl : Enetctrl cb) : Prop where
  stall : ctrl.oWbStall = true
  ack : ctrl.oWbAck = false
  rAddr : ctrl.rAddr = request.iWbAddr
  rData : ctrl.rData = request.iWbData

structure Pending (request : Clock) (ctrl : Enetctrl cb) : Prop where
  read : ctrl.readPending = !request.iWbWe
  write : ctrl.writePending = request.iWbWe

/-- The request waits for the interface clock. -/
structure Waiting (request : Clock) (i : Nat) (ctrl : Enetctrl cb) : Prop where
  divided : ctrl.Divided i
  held : ctrl.Held request
  pending : ctrl.Pending request
  state : ctrl.ctrlState = .idle

/-- The bits of `word` after the first `k` are next to go out. -/
def Left (word : BitVec 16) (k : Nat) (ctrl : Enetctrl cb) : Prop :=
  ∀ j, j + k < 16 → ctrl.writeReg.getLsbD (15 - j) = word.getLsbD (15 - j - k)

/-- `k` bits of the header have gone out. -/
structure Sending (phyaddr : BitVec 5) (request : Clock) (k i : Nat) (ctrl : Enetctrl cb) :
    Prop where
  divided : ctrl.Divided i
  bound : k < 16
  held : ctrl.Held request
  pending : ctrl.Pending request
  state : ctrl.ctrlState = .address
  position : ctrl.regPos = BitVec.ofNat 6 (15 - k)
  aligned : 0 < i → ctrl.zregPos = decide (k = 15)
  left : ctrl.Left (header phyaddr request) k
  line : 0 < k → ctrl.oMdio = (header phyaddr request).getLsbD (16 - k)
  enable : ctrl.oMdwe = (request.iWbWe || decide (k < 15))

/-- The header and `m` bits of the data have gone out, or have come in. -/
structure Moving (phyaddr : BitVec 5) (request : Clock) (sampled : Nat → Bool) (m i : Nat)
    (ctrl : Enetctrl cb) : Prop where
  divided : ctrl.Divided i
  bound : m < 17
  held : ctrl.Held request
  cleared : 0 < i → ctrl.readPending = false ∧ ctrl.writePending = false
  state : ctrl.ctrlState = if request.iWbWe then .write else .read
  position : ctrl.regPos = BitVec.ofNat 6 (16 - m)
  aligned : 0 < i → ctrl.zregPos = decide (m = 16)
  left : ctrl.Left request.iWbData m
  line : ctrl.oMdio =
    if m = 0 then (header phyaddr request).getLsbD 0 else request.iWbData.getLsbD (16 - m)
  enable : ctrl.oMdwe = request.iWbWe
  samples : ∀ j < m, ctrl.readReg.getLsbD j = sampled (m - 1 - j)

section Step

variable {request clock : Clock} {ctrl : Enetctrl cb} {i : Nat}
variable (wide : 2 ≤ cb) (running : clock.iReset = false)

theorem accepts_held (held : ctrl.Held request) : ctrl.accepts clock = false := by
  rw [accepts, held.stall, Bool.not_true, Bool.and_false]

include running

theorem Held.step (held : ctrl.Held request) (stall : ctrl.nextStall clock = true)
    (ack : ctrl.nextAck clock = false) : (ctrl.step phyaddr clock).Held request where
  stall := by simp only [Enetctrl.step, running, stall, Bool.false_eq_true, if_false]
  ack := by simp only [Enetctrl.step, running, ack, Bool.false_eq_true, if_false]
  rAddr := by
    simp only [Enetctrl.step, held.stall, Bool.not_true, Bool.false_eq_true, if_false, held.rAddr]
  rData := by
    simp only [Enetctrl.step, held.stall, Bool.not_true, Bool.false_eq_true, if_false, held.rData]

theorem Pending.step (pending : ctrl.Pending request) (held : ctrl.Held request)
    (state : ctrl.ctrlState = .idle ∨ ctrl.ctrlState = .address) :
    (ctrl.step phyaddr clock).Pending request := by
  have kept : ctrl.clears clock = false := by
    rcases state with idle | address
    · rw [clears, running, idle]
      rfl
    · rw [clears, running, address]
      rfl
  refine ⟨?_, ?_⟩
  · simp only [Enetctrl.step, kept, accepts_held held, Bool.false_eq_true, if_false, pending.read]
  · simp only [Enetctrl.step, kept, accepts_held held, Bool.false_eq_true, if_false, pending.write]

theorem step_ctrlState : (ctrl.step phyaddr clock).ctrlState = ctrl.nextState := by
  simp only [Enetctrl.step, running, Bool.false_eq_true, if_false]

theorem step_regPos : (ctrl.step phyaddr clock).regPos = ctrl.nextRegPos := by
  simp only [Enetctrl.step, running, Bool.false_eq_true, if_false]

theorem step_writeReg : (ctrl.step phyaddr clock).writeReg = ctrl.nextWriteReg phyaddr := by
  simp only [Enetctrl.step, running, Bool.false_eq_true, if_false]

theorem step_oMdwe : (ctrl.step phyaddr clock).oMdwe = ctrl.nextMdwe := by
  simp only [Enetctrl.step, running, Bool.false_eq_true, if_false]

theorem step_oWbStall : (ctrl.step phyaddr clock).oWbStall = ctrl.nextStall clock := by
  simp only [Enetctrl.step, running, Bool.false_eq_true, if_false]

theorem step_oWbAck : (ctrl.step phyaddr clock).oWbAck = ctrl.nextAck clock := by
  simp only [Enetctrl.step, running, Bool.false_eq_true, if_false]

omit running in
theorem step_oMdio (strobe : ctrl.zclk = true) :
    (ctrl.step phyaddr clock).oMdio = ctrl.writeReg.getLsbD 15 := by
  simp only [Enetctrl.step, strobe, if_true]
  rfl

omit running in
theorem step_quiet (quiet : ctrl.zclk = false) :
    (ctrl.step phyaddr clock).oMdio = ctrl.oMdio ∧
      (ctrl.step phyaddr clock).readReg = ctrl.readReg := by
  simp only [Enetctrl.step, quiet, Bool.false_and, Bool.false_eq_true, if_false, and_self]

omit running in
theorem Divided.quiet (divided : ctrl.Divided i) (more : i + 1 < 2 ^ cb) :
    ctrl.zclk = false ∧ following cb i = i + 1 :=
  ⟨divided.strobe.trans (decide_eq_false (Nat.ne_of_lt more)), if_neg (Nat.ne_of_lt more)⟩

omit running in
theorem Divided.strobes (divided : ctrl.Divided i) (last : i + 1 = 2 ^ cb) :
    ctrl.zclk = true ∧ following cb i = 0 :=
  ⟨divided.strobe.trans (decide_eq_true last), if_pos last⟩

omit running in
theorem step_zregPos {left : Nat} (position : ctrl.regPos = BitVec.ofNat 6 left)
    (small : left < 64) : (ctrl.step phyaddr clock).zregPos = decide (left = 0) := by
  change (ctrl.regPos == 0) = _
  rw [position, Bool.eq_iff_iff, beq_iff_eq, decide_eq_true_iff, ← BitVec.toNat_inj,
    BitVec.toNat_ofNat, Nat.mod_eq_of_lt small]
  rfl

omit running in
theorem counted_eq {left : Nat} (position : ctrl.regPos = BitVec.ofNat 6 left)
    (strobe : ctrl.zclk = true) (more : ctrl.zregPos = false) (some : 0 < left) :
    ctrl.counted = BitVec.ofNat 6 (left - 1) := by
  obtain ⟨less, rfl⟩ := Nat.exists_eq_add_of_le' some
  rw [counted, strobe, more, Bool.not_false, Bool.and_self, if_pos rfl, position,
    Nat.add_sub_cancel, BitVec.ofNat_add]
  exact BitVec.add_sub_cancel _ _

omit running in
/-- The first of the bits left goes out. -/
theorem Left.shift {word : BitVec 16} {k : Nat} (left : ctrl.Left word k) {next : Enetctrl cb}
    (shifts : next.writeReg = shiftIn ctrl.writeReg true) : next.Left word (k + 1) := by
  intro j within
  have place : 15 - j = 15 - (j + 1) + 1 := by omega
  rw [shifts, shiftIn, BitVec.getLsbD_shiftConcat, if_neg (by omega), decide_eq_true (by omega),
    Bool.true_and, place, Nat.add_sub_cancel, left (j + 1) (by omega)]
  congr 1
  omega

omit running in
theorem Waiting.blocks (waiting : ctrl.Waiting request i) (clock : Clock) :
    (ctrl.readPending || ctrl.writePending) = true ∧ ctrl.nextStall clock = true ∧
      ctrl.nextAck clock = false := by
  have some : (ctrl.readPending || ctrl.writePending) = true := by
    rw [waiting.pending.read, waiting.pending.write]
    exact Bool.not_or_self _
  refine ⟨some, ?_, ?_⟩
  · rw [nextStall, waiting.state, if_neg (not_not_intro rfl), waiting.held.ack,
      if_neg Bool.false_ne_true, Bool.or_assoc, some, Bool.or_true]
  · rw [nextAck, waiting.state]

include wide

theorem Waiting.hold (waiting : ctrl.Waiting request i) (more : i + 1 < 2 ^ cb) :
    (ctrl.step phyaddr clock).Waiting request (i + 1) := by
  obtain ⟨_, stall, ack⟩ := waiting.blocks clock
  obtain ⟨divided, held, pending, state⟩ := waiting
  obtain ⟨quiet, next⟩ := divided.quiet more
  refine ⟨next ▸ divided.step wide running, held.step running stall ack,
    pending.step running held (.inl state), ?_⟩
  rw [step_ctrlState running, nextState, state, quiet]
  rfl

theorem Waiting.tick (waiting : ctrl.Waiting request i) (last : i + 1 = 2 ^ cb) :
    (ctrl.step phyaddr clock).Sending phyaddr request 0 0 := by
  obtain ⟨some, stall, ack⟩ := waiting.blocks clock
  obtain ⟨divided, held, pending, state⟩ := waiting
  obtain ⟨strobe, next⟩ := divided.strobes last
  have loaded : (ctrl.step phyaddr clock).writeReg = header phyaddr request := by
    rw [step_writeReg running, nextWriteReg, state]
    change ctrl.idleReg phyaddr = _
    rw [idleReg, header, strobe, if_pos rfl, held.rAddr, pending.read, pending.write]
    cases request.iWbWe <;> rfl
  refine ⟨next ▸ divided.step wide running, by decide, held.step running stall ack,
    pending.step running held (.inl state), ?_, ?_, nofun, ?_, nofun, ?_⟩
  · rw [step_ctrlState running, nextState, state, strobe, some]
    rfl
  · rw [step_regPos running, nextRegPos, state]
    rfl
  · intro j _
    rw [loaded, Nat.sub_zero]
  · rw [step_oMdwe running, nextMdwe, state]
    exact (Bool.or_true _).symm

omit wide running in
/-- Away from idle nothing is taken, and an acknowledgement waits for the strobe. -/
theorem away_blocks (clock : Clock) (away : ctrl.ctrlState ≠ .idle)
    (wait : (ctrl.zregPos && ctrl.zclk) = false ∨ ctrl.ctrlState = .address) :
    ctrl.nextStall clock = true ∧ ctrl.nextAck clock = false := by
  refine ⟨by rw [nextStall, if_pos away], ?_⟩
  rw [nextAck]
  rcases wait with early | address
  · rw [early]
    cases ctrl.ctrlState <;> rfl
  · rw [address]

theorem Sending.hold {k : Nat} (sending : ctrl.Sending phyaddr request k i)
    (more : i + 1 < 2 ^ cb) : (ctrl.step phyaddr clock).Sending phyaddr request k (i + 1) := by
  obtain ⟨divided, bound, held, pending, state, position, aligned, left, line, enable⟩ := sending
  obtain ⟨quiet, next⟩ := divided.quiet more
  obtain ⟨stall, ack⟩ := away_blocks clock (state ▸ nofun) (.inr state)
  refine ⟨next ▸ divided.step wide running, bound, held.step running stall ack,
    pending.step running held (.inr state), ?_, ?_, fun _ => ?_, ?_, ?_, ?_⟩
  · rw [step_ctrlState running, nextState, state, quiet, Bool.and_false]
    rfl
  · rw [step_regPos running, nextRegPos, state, counted, quiet, Bool.and_false, Bool.false_and]
    exact position
  · rw [step_zregPos position (by omega)]
    exact decide_eq_decide.mpr (by omega)
  · intro j within
    rw [step_writeReg running, nextWriteReg, state, shifted, quiet, Bool.and_false]
    exact left j within
  · rw [(step_quiet quiet).1]
    exact line
  · rw [step_oMdwe running, nextMdwe, state, quiet]
    exact enable

theorem Sending.tick {k : Nat} (sending : ctrl.Sending phyaddr request k i)
    (last : i + 1 = 2 ^ cb) (started : 0 < i) (more : k + 1 < 16) :
    (ctrl.step phyaddr clock).Sending phyaddr request (k + 1) 0 := by
  obtain ⟨divided, bound, held, pending, state, position, aligned, left, line, enable⟩ := sending
  obtain ⟨strobe, next⟩ := divided.strobes last
  obtain ⟨stall, ack⟩ := away_blocks clock (state ▸ nofun) (.inr state)
  have early : ctrl.zregPos = false := (aligned started).trans (decide_eq_false (by omega))
  refine ⟨next ▸ divided.step wide running, more, held.step running stall ack,
    pending.step running held (.inr state), ?_, ?_, nofun, ?_, fun _ => ?_, ?_⟩
  · rw [step_ctrlState running, nextState, state, early]
    rfl
  · have fewer := counted_eq position strobe early (Nat.sub_pos_of_lt (Nat.lt_of_succ_lt_succ more))
    rw [step_regPos running, nextRegPos, state, early]
    exact fewer
  · refine left.shift ?_
    rw [step_writeReg running, nextWriteReg, state, shifted, strobe, early]
    rfl
  · rw [step_oMdio strobe, left 0 (by omega)]
    congr 1
    omega
  · have front : decide (1 < ctrl.regPos) = decide (k + 1 < 15) := by
      rw [position, decide_eq_decide, BitVec.lt_def, BitVec.toNat_ofNat, Nat.mod_eq_of_lt (by omega)]
      change 1 < 15 - k ↔ _
      omega
    rw [step_oMdwe running, nextMdwe, state, strobe, pending.write, front]
    rfl

/-- With its last bit the header gives way to the data. -/
theorem Sending.turn {sampled : Nat → Bool} (sending : ctrl.Sending phyaddr request 15 i)
    (last : i + 1 = 2 ^ cb) (started : 0 < i) :
    (ctrl.step phyaddr clock).Moving phyaddr request sampled 0 0 := by
  obtain ⟨divided, bound, held, pending, state, position, aligned, left, line, enable⟩ := sending
  obtain ⟨strobe, next⟩ := divided.strobes last
  obtain ⟨stall, ack⟩ := away_blocks clock (state ▸ nofun) (.inr state)
  have due : ctrl.zregPos = true := aligned started
  refine ⟨next ▸ divided.step wide running, by decide, held.step running stall ack, nofun, ?_, ?_,
    nofun, ?_, ?_, ?_, nofun⟩
  · rw [step_ctrlState running, nextState, state, strobe, due, pending.read]
    cases request.iWbWe <;> rfl
  · rw [step_regPos running, nextRegPos, state, strobe, due]
    rfl
  · intro j within
    rw [step_writeReg running, nextWriteReg, state, strobe, due]
    change ctrl.rData.getLsbD _ = _
    rw [held.rData, Nat.sub_zero]
  · rw [step_oMdio strobe, left 0 (by decide)]
    rfl
  · rw [step_oMdwe running, nextMdwe, state, strobe, pending.write, position]
    exact Bool.or_false _

omit wide in
theorem step_cleared (phyaddr : BitVec 5) {we : Bool}
    (state : ctrl.ctrlState = if we then .write else .read) :
    (ctrl.step phyaddr clock).readPending = false ∧
      (ctrl.step phyaddr clock).writePending = false := by
  have clear : ctrl.clears clock = true := by
    rw [clears, running, state]
    cases we <;> rfl
  simp only [Enetctrl.step, clear, if_true, and_self]

omit wide running in
theorem moving_next (phyaddr : BitVec 5) {we : Bool}
    (state : ctrl.ctrlState = if we then .write else .read) :
    ctrl.ctrlState ≠ .idle ∧ ctrl.nextMdwe = we ∧ ctrl.nextRegPos = ctrl.counted ∧
      ctrl.nextWriteReg phyaddr = ctrl.shifted ∧
      ctrl.nextState = if ctrl.zregPos && ctrl.zclk then .idle else ctrl.ctrlState := by
  rw [nextMdwe, nextRegPos, nextWriteReg, nextState, state]
  cases we with
  | false => exact ⟨nofun, rfl, rfl, rfl, rfl⟩
  | true => exact ⟨nofun, rfl, rfl, rfl, rfl⟩

theorem Moving.hold {sampled : Nat → Bool} {m : Nat}
    (moving : ctrl.Moving phyaddr request sampled m i) (more : i + 1 < 2 ^ cb) :
    (ctrl.step phyaddr clock).Moving phyaddr request sampled m (i + 1) := by
  obtain ⟨divided, bound, held, cleared, state, position, aligned, left, line, enable, samples⟩ :=
    moving
  obtain ⟨quiet, next⟩ := divided.quiet more
  obtain ⟨away, enabled, counts, shifts, onward⟩ := moving_next phyaddr state
  obtain ⟨stall, ack⟩ := away_blocks clock away (.inl (by rw [quiet, Bool.and_false]))
  refine ⟨next ▸ divided.step wide running, bound, held.step running stall ack,
    fun _ => step_cleared running phyaddr state, ?_, ?_, fun _ => ?_, ?_, ?_, ?_, ?_⟩
  · rw [step_ctrlState running, onward, quiet, Bool.and_false, if_neg Bool.false_ne_true, state]
  · rw [step_regPos running, counts, counted, quiet, Bool.false_and, if_neg Bool.false_ne_true,
      position]
  · rw [step_zregPos position (by omega)]
    exact decide_eq_decide.mpr (by omega)
  · intro j within
    rw [step_writeReg running, shifts, shifted, quiet]
    exact left j within
  · rw [(step_quiet quiet).1, line]
  · rw [step_oMdwe running, enabled]
  · rw [(step_quiet quiet).2]
    exact samples

theorem Moving.tick {sampled : Nat → Bool} {m : Nat}
    (moving : ctrl.Moving phyaddr request sampled m i) (last : i + 1 = 2 ^ cb) (started : 0 < i)
    (more : m < 16) (sample : clock.iMdio = sampled m) :
    (ctrl.step phyaddr clock).Moving phyaddr request sampled (m + 1) 0 := by
  obtain ⟨divided, bound, held, cleared, state, position, aligned, left, line, enable, samples⟩ :=
    moving
  obtain ⟨strobe, next⟩ := divided.strobes last
  obtain ⟨away, enabled, counts, shifts, onward⟩ := moving_next phyaddr state
  have early : ctrl.zregPos = false := (aligned started).trans (decide_eq_false (by omega))
  obtain ⟨stall, ack⟩ := away_blocks clock away (.inl (by rw [early, Bool.false_and]))
  refine ⟨next ▸ divided.step wide running, by omega, held.step running stall ack,
    nofun, ?_, ?_, nofun, ?_, ?_, ?_, ?_⟩
  · rw [step_ctrlState running, onward, early, Bool.false_and, if_neg Bool.false_ne_true, state]
  · rw [step_regPos running, counts]
    exact counted_eq position strobe early (Nat.sub_pos_of_lt more)
  · refine left.shift ?_
    rw [step_writeReg running, shifts, shifted, strobe, if_pos rfl]
  · rw [step_oMdio strobe, left 0 (by omega), if_neg (Nat.succ_ne_zero m)]
    congr 1
    omega
  · rw [step_oMdwe running, enabled]
  · intro j within
    change (if ctrl.zclk && !ctrl.zregPos then shiftIn ctrl.readReg clock.iMdio
      else ctrl.readReg).getLsbD j = _
    rw [strobe, early, Bool.not_false, Bool.and_self, if_pos rfl, shiftIn,
      BitVec.getLsbD_shiftConcat, decide_eq_true (by omega), Bool.true_and]
    cases j with
    | zero => rw [if_pos rfl, sample, Nat.add_sub_cancel, Nat.sub_zero]
    | succ j =>
        rw [if_neg (Nat.succ_ne_zero j), Nat.add_sub_cancel, samples j (by omega)]
        congr 1
        omega

/-- Nothing is pending. -/
structure Resting (ctrl : Enetctrl cb) : Prop where
  state : ctrl.ctrlState = .idle
  read : ctrl.readPending = false
  write : ctrl.writePending = false

omit wide in
/-- The last strobe of a frame. -/
theorem step_done {we : Bool} (state : ctrl.ctrlState = if we then .write else .read)
    (due : ctrl.zregPos = true) (strobe : ctrl.zclk = true) :
    (ctrl.step phyaddr clock).Resting ∧ (ctrl.step phyaddr clock).oWbStall = true := by
  obtain ⟨away, _, _, _, onward⟩ := moving_next phyaddr state
  obtain ⟨read, write⟩ := step_cleared running phyaddr state
  refine ⟨⟨?_, read, write⟩, ?_⟩
  · rw [step_ctrlState running, onward, due, strobe, Bool.and_self, if_pos rfl]
  · simp only [Enetctrl.step, running, Bool.false_eq_true, if_false, nextStall, if_pos away]

omit wide in
/-- A request ends with its acknowledgement, if it is still wanted. -/
theorem Moving.done {sampled : Nat → Bool} (moving : ctrl.Moving phyaddr request sampled 16 i)
    (last : i + 1 = 2 ^ cb) (started : 0 < i) :
    ((ctrl.step phyaddr clock).Resting ∧ (ctrl.step phyaddr clock).oWbStall = true) ∧
      (ctrl.step phyaddr clock).oWbAck = (ctrl.preAck && clock.iWbCyc) ∧
      (ctrl.step phyaddr clock).readReg = ctrl.readReg := by
  obtain ⟨strobe, _⟩ := moving.divided.strobes last
  have due : ctrl.zregPos = true := moving.aligned started
  refine ⟨step_done running moving.state due strobe, ?_, ?_⟩
  · simp only [Enetctrl.step, running, Bool.false_eq_true, if_false, nextAck, moving.state, due,
      strobe, Bool.true_and]
    cases request.iWbWe <;> rfl
  · simp only [Enetctrl.step, due, Bool.not_true, Bool.and_false, Bool.false_eq_true, if_false]

omit wide in
theorem Resting.step (resting : ctrl.Resting) (phyaddr : BitVec 5)
    (free : ctrl.accepts clock = false) :
    (ctrl.step phyaddr clock).Resting ∧ (ctrl.step phyaddr clock).oWbAck = false := by
  have kept : ctrl.clears clock = false := by
    rw [clears, running, resting.state]
    rfl
  refine ⟨⟨?_, ?_, ?_⟩, ?_⟩
  · rw [step_ctrlState running, nextState, resting.state, resting.read, resting.write, Bool.or_self,
      Bool.and_false]
    rfl
  · simp only [Enetctrl.step, kept, free, Bool.false_eq_true, if_false, resting.read]
  · simp only [Enetctrl.step, kept, free, Bool.false_eq_true, if_false, resting.write]
  · simp only [Enetctrl.step, running, Bool.false_eq_true, if_false, nextAck, resting.state]

end Step

/-! ### Requests -/

/-- What holds of the registers at any time. -/
structure Sound (ctrl : Enetctrl cb) : Prop where
  divided : ∃ i, ctrl.Divided i
  free : ctrl.oWbStall = false → ctrl.Resting ∧ ctrl.inIdle = true ∧ ctrl.oWbAck = false
  acked : ctrl.oWbAck = true → ctrl.Resting ∧ ctrl.oWbStall = true

theorem Initial.sound {ctrl : Enetctrl cb} (initial : ctrl.Initial) (wide : 2 ≤ cb) :
    ctrl.Sound where
  divided := by
    have four := four_le wide
    refine ⟨0, by omega, ?_, ?_⟩
    · rw [initial.clkCounter]
      exact BitVec.toNat_zero
    · rw [initial.zclk, decide_eq_false (by omega)]
  free free := by
    rw [initial.oWbStall] at free
    cases free
  acked acked := by
    rw [initial.oWbAck] at acked
    cases acked

theorem step_reset (phyaddr : BitVec 5) (ctrl : Enetctrl cb) {clock : Clock} (held : clock.iReset = true) :
    (ctrl.step phyaddr clock).clkCounter = 0 ∧ (ctrl.step phyaddr clock).zclk = false ∧
      (ctrl.step phyaddr clock).oWbStall = true ∧ (ctrl.step phyaddr clock).oWbAck = false := by
  simp only [step, held, if_true, and_self]

/-- The stall only falls while nothing is pending and nothing is taken. -/
theorem Sound.resting {ctrl : Enetctrl cb} (sound : ctrl.Sound) {clock : Clock}
    (free : ctrl.nextStall clock = false) : ctrl.Resting ∧ ctrl.accepts clock = false := by
  have idle : ctrl.ctrlState = .idle := by
    by_contra away
    rw [nextStall, if_pos away] at free
    cases free
  cases acked : ctrl.oWbAck with
  | true =>
      obtain ⟨resting, stall⟩ := sound.acked acked
      exact ⟨resting, by rw [accepts, stall, Bool.not_true, Bool.and_false]⟩
  | false =>
      rw [nextStall, if_neg (not_not_intro idle), acked, if_neg Bool.false_ne_true,
        Bool.or_eq_false_iff, Bool.or_eq_false_iff] at free
      obtain ⟨⟨unasked, read⟩, write⟩ := free
      refine ⟨⟨idle, read, write⟩, ?_⟩
      cases stall : ctrl.oWbStall with
      | true => rw [accepts, stall, Bool.not_true, Bool.and_false]
      | false =>
          rw [(sound.free stall).2.1, Bool.and_true] at unasked
          rw [accepts, unasked, Bool.false_and]

theorem Sound.step {ctrl : Enetctrl cb} (sound : ctrl.Sound) (wide : 2 ≤ cb) (clock : Clock) :
    (ctrl.step phyaddr clock).Sound := by
  cases running : clock.iReset with
  | true =>
      obtain ⟨count, strobe, stall, ack⟩ := step_reset phyaddr ctrl running
      have four := four_le wide
      refine ⟨⟨0, by omega, ?_, ?_⟩, fun free => ?_, fun acked => ?_⟩
      · rw [count]
        exact BitVec.toNat_zero
      · rw [strobe, decide_eq_false (by omega)]
      · cases stall.symm.trans free
      · cases ack.symm.trans acked
  | false =>
      obtain ⟨i, divided⟩ := sound.divided
      refine ⟨⟨_, divided.step wide running⟩, fun free => ?_, fun acked => ?_⟩
      · obtain ⟨resting, untaken⟩ := sound.resting (step_oWbStall running ▸ free)
        obtain ⟨rests, unacked⟩ := resting.step running phyaddr untaken
        refine ⟨rests, ?_, unacked⟩
        change (ctrl.ctrlState == .idle) = true
        rw [resting.state]
        rfl
      · have acks : ctrl.nextAck clock = true := step_oWbAck running ▸ acked
        obtain ⟨we, state⟩ : ∃ we : Bool, ctrl.ctrlState = if we then .write else .read := by
          cases state : ctrl.ctrlState with
          | reset | idle | address =>
              rw [nextAck, state] at acks
              cases acks
          | read => exact ⟨false, rfl⟩
          | write => exact ⟨true, rfl⟩
        have both : (ctrl.zregPos && ctrl.zclk && ctrl.preAck && clock.iWbCyc) = true := by
          rw [nextAck, state] at acks
          cases we <;> exact acks
        rw [Bool.and_eq_true, Bool.and_eq_true, Bool.and_eq_true] at both
        exact step_done running state both.1.1.1 both.1.1.2

/-- A request taken is held until its frame begins. -/
theorem Sound.accept {ctrl : Enetctrl cb} (sound : ctrl.Sound) (wide : 2 ≤ cb) (phyaddr : BitVec 5)
    {clock : Clock} (running : clock.iReset = false) (taken : ctrl.accepts clock = true) :
    ∃ i, (ctrl.step phyaddr clock).Waiting clock i := by
  obtain ⟨i, divided⟩ := sound.divided
  have both := taken
  rw [accepts, Bool.and_eq_true, Bool.not_eq_true'] at both
  obtain ⟨strobe, free⟩ := both
  obtain ⟨resting, idle, unacked⟩ := sound.free free
  have kept : ctrl.clears clock = false := by
    rw [clears, running, resting.state]
    rfl
  refine ⟨_, divided.step wide running, ⟨?_, ?_, ?_, ?_⟩, ⟨?_, ?_⟩, ?_⟩
  · simp only [Enetctrl.step, running, Bool.false_eq_true, if_false, nextStall, resting.state,
      unacked, strobe, idle]
    rfl
  · simp only [Enetctrl.step, running, Bool.false_eq_true, if_false, nextAck, resting.state]
  · simp only [Enetctrl.step, free, Bool.not_false, if_true]
  · simp only [Enetctrl.step, free, Bool.not_false, if_true]
  · simp only [Enetctrl.step, kept, taken, Bool.false_eq_true, if_false, if_true]
  · simp only [Enetctrl.step, kept, taken, Bool.false_eq_true, if_false, if_true]
  · rw [step_ctrlState running, nextState, resting.state, resting.read, resting.write, Bool.or_self,
      Bool.and_false]
    rfl

/-- The registers at a time. -/
def after (phyaddr : BitVec 5) (start : Enetctrl cb) (inputs : Nat → Clock) (time : Nat) : Enetctrl cb :=
  streamed (step phyaddr) start inputs time

/-- The time at which the bit times of a request taken at `t` begin. -/
def frameStart (phyaddr : BitVec 5) (start : Enetctrl cb) (inputs : Nat → Clock) (t : Nat) : Nat :=
  t + 1 + (2 ^ cb - (start.after phyaddr inputs (t + 1)).clkCounter.toNat)

section Run

variable {start : Enetctrl cb} {inputs : Nat → Clock} {t finish : Nat}
variable (wide : 2 ≤ cb) (initial : start.Initial)
variable (taken : (start.after phyaddr inputs t).accepts (inputs t) = true)
variable (quiet : ∀ time, t ≤ time → time < finish → (inputs time).iReset = false)
variable (long : start.frameStart phyaddr inputs t + 33 * 2 ^ cb ≤ finish)

theorem after_succ (time : Nat) : start.after phyaddr inputs (time + 1) =
    (start.after phyaddr inputs time).step phyaddr (inputs time) := rfl

include wide initial

theorem sound_after (phyaddr : BitVec 5) (inputs : Nat → Clock) (time : Nat) :
    (start.after phyaddr inputs time).Sound := by
  induction time with
  | zero => exact initial.sound wide
  | succ time ih => exact ih.step wide (inputs time)

include taken quiet long

theorem waiting_at : ∀ d, (start.after phyaddr inputs (t + 1)).clkCounter.toNat + d < 2 ^ cb →
    (start.after phyaddr inputs (t + 1 + d)).Waiting (inputs t)
      ((start.after phyaddr inputs (t + 1)).clkCounter.toNat + d) := by
  have sound := sound_after wide initial phyaddr inputs t
  rw [frameStart] at long
  intro d
  induction d with
  | zero =>
      intro _
      obtain ⟨i, waiting⟩ := sound.accept wide phyaddr
        (quiet t (Nat.le_refl _) (by omega)) taken
      have count : (start.after phyaddr inputs (t + 1)).clkCounter.toNat = i := waiting.divided.count
      rw [count]
      exact waiting
  | succ d ih =>
      intro inside
      exact (ih (by omega)).hold wide (quiet (t + 1 + d) (by omega) (by omega)) (by omega)

theorem sending_start : (start.after phyaddr inputs (start.frameStart phyaddr inputs t)).Sending
    phyaddr (inputs t) 0 0 := by
  have small := (start.after phyaddr inputs (t + 1)).clkCounter.isLt
  obtain ⟨rest, split⟩ := Nat.exists_eq_add_of_lt small
  have place : start.frameStart phyaddr inputs t = t + 1 + rest + 1 := by
    rw [frameStart]
    omega
  have last := waiting_at wide initial taken quiet long rest (by omega)
  rw [place, after_succ]
  exact last.tick wide (quiet (t + 1 + rest) (by omega) (by omega)) split.symm

omit wide initial taken quiet long in
theorem frameStart_after (phyaddr : BitVec 5) (start : Enetctrl cb) (inputs : Nat → Clock) (t : Nat) :
    t < start.frameStart phyaddr inputs t := by
  have small := (start.after phyaddr inputs (t + 1)).clkCounter.isLt
  rw [frameStart]
  omega

omit wide initial taken in
/-- There is no reset during the frame. -/
theorem frame_quiet {k i : Nat} (within : k ≤ 32) (below : i < 2 ^ cb) :
    (inputs (start.frameStart phyaddr inputs t + k * 2 ^ cb + i)).iReset = false := by
  have later := frameStart_after phyaddr start inputs t
  have most : k * 2 ^ cb ≤ 32 * 2 ^ cb := Nat.mul_le_mul_right _ within
  exact quiet _ (by omega) (by omega)

theorem sending_at : ∀ k ≤ 15, ∀ i < 2 ^ cb,
    (start.after phyaddr inputs (start.frameStart phyaddr inputs t + k * 2 ^ cb + i)).Sending phyaddr
      (inputs t) k i := by
  have four := four_le wide
  refine periodic ?_ ?_ ?_
  · rw [Nat.zero_mul]
    exact sending_start wide initial taken quiet long
  · intro k i within more sending
    exact sending.hold wide (frame_quiet quiet long (by omega) (by omega)) more
  · intro k i within last sending
    have place : start.frameStart phyaddr inputs t + (k + 1) * 2 ^ cb + 0 =
        start.frameStart phyaddr inputs t + k * 2 ^ cb + i + 1 := by
      rw [Nat.succ_mul]
      omega
    rw [place, after_succ]
    exact sending.tick wide (frame_quiet quiet long (by omega) (by omega)) last (by omega)
      (by omega)

/-- The bit on the line at the end of the `n`th of the bit times that follow the header. -/
def sampledBit (phyaddr : BitVec 5) (start : Enetctrl cb) (inputs : Nat → Clock) (t n : Nat) : Bool :=
  (inputs (start.frameStart phyaddr inputs t + (17 + n) * 2 ^ cb - 1)).iMdio

theorem moving_at : ∀ m ≤ 16, ∀ i < 2 ^ cb,
    (start.after phyaddr inputs (start.frameStart phyaddr inputs t + (16 + m) * 2 ^ cb + i)).Moving
      phyaddr (inputs t) (start.sampledBit phyaddr inputs t) m i := by
  have four := four_le wide
  refine periodic ?_ ?_ ?_
  · have turning := sending_at wide initial taken quiet long 15 (Nat.le_refl _) (2 ^ cb - 1) (by omega)
    have place : start.frameStart phyaddr inputs t + (16 + 0) * 2 ^ cb + 0 =
        start.frameStart phyaddr inputs t + 15 * 2 ^ cb + (2 ^ cb - 1) + 1 := by
      omega
    rw [place, after_succ]
    exact turning.turn wide (frame_quiet quiet long (by omega) (by omega)) (by omega) (by omega)
  · intro m i within more moving
    exact moving.hold wide (frame_quiet quiet long (by omega) (by omega)) more
  · intro m i within last moving
    have next : (16 + (m + 1)) * 2 ^ cb = (16 + m) * 2 ^ cb + 2 ^ cb := Nat.succ_mul _ _
    have place : start.frameStart phyaddr inputs t + (16 + (m + 1)) * 2 ^ cb + 0 =
        start.frameStart phyaddr inputs t + (16 + m) * 2 ^ cb + i + 1 := by
      omega
    have sample : (inputs (start.frameStart phyaddr inputs t + (16 + m) * 2 ^ cb + i)).iMdio =
        start.sampledBit phyaddr inputs t m := by
      rw [sampledBit]
      congr 2
      have same : 17 + m = 16 + (m + 1) := by omega
      rw [same]
      omega
    rw [place, after_succ]
    exact moving.tick wide (frame_quiet quiet long (by omega) (by omega)) last (by omega) within
      sample

/-- The time of the acknowledgement. -/
def frameEnd (phyaddr : BitVec 5) (start : Enetctrl cb) (inputs : Nat → Clock) (t : Nat) : Nat :=
  start.frameStart phyaddr inputs t + 33 * 2 ^ cb

/-- Until its frame has ended the request is held. -/
theorem held_at {time : Nat} (after : t < time) (before : time < start.frameEnd phyaddr inputs t) :
    (start.after phyaddr inputs time).Held (inputs t) := by
  have four := four_le wide
  have small := (start.after phyaddr inputs (t + 1)).clkCounter.isLt
  rw [frameEnd] at before
  by_cases early : time < start.frameStart phyaddr inputs t
  · obtain ⟨d, rfl⟩ := Nat.exists_eq_add_of_le after
    rw [frameStart] at early
    exact (waiting_at wide initial taken quiet long d (by omega)).held
  · obtain ⟨d, rfl⟩ := Nat.exists_eq_add_of_le (Nat.le_of_not_lt early)
    have part : d % 2 ^ cb < 2 ^ cb := Nat.mod_lt _ (by omega)
    have whole : d / 2 ^ cb < 33 := Nat.div_lt_of_lt_mul (by omega)
    rw [← Nat.div_add_mod' d (2 ^ cb), ← Nat.add_assoc]
    by_cases first : d / 2 ^ cb ≤ 15
    · exact (sending_at wide initial taken quiet long _ first _ part).held
    · obtain ⟨m, same⟩ := Nat.exists_eq_add_of_le (Nat.lt_of_not_le first)
      rw [same]
      exact (moving_at wide initial taken quiet long m (by omega) _ part).held

theorem divided_at {k i : Nat} (within : k ≤ 32) (part : i < 2 ^ cb) :
    (start.after phyaddr inputs (start.frameStart phyaddr inputs t + k * 2 ^ cb + i)).Divided i := by
  by_cases first : k ≤ 15
  · exact (sending_at wide initial taken quiet long k first i part).divided
  · obtain ⟨m, same⟩ := Nat.exists_eq_add_of_le (Nat.lt_of_not_le first)
    rw [show k = 16 + m from same]
    exact (moving_at wide initial taken quiet long m (by omega) i part).divided

/-- The line in the bit time after the one in which bit `k` is the next to go out. -/
theorem line_at {k i : Nat} (within : k < 32) (part : i < 2 ^ cb) :
    (start.after phyaddr inputs (start.frameStart phyaddr inputs t + (k + 1) * 2 ^ cb + i)).oMdio =
        (header phyaddr (inputs t) ++ (inputs t).iWbData).getLsbD (31 - k) ∧
      (start.after phyaddr inputs (start.frameStart phyaddr inputs t + (k + 1) * 2 ^ cb + i)).oMdwe =
        ((inputs t).iWbWe || decide (k < 14)) := by
  rw [BitVec.getLsbD_append]
  by_cases first : k + 1 ≤ 15
  · have sending := sending_at wide initial taken quiet long _ first i part
    rw [sending.line (Nat.succ_pos k), sending.enable, if_neg (by omega)]
    refine ⟨?_, ?_⟩
    · congr 1
      omega
    · congr 1
      exact decide_eq_decide.mpr (by omega)
  · obtain ⟨m, same⟩ := Nat.exists_eq_add_of_le (Nat.lt_of_not_le first)
    have place : k + 1 = 16 + m := same
    rw [place]
    have moving := moving_at wide initial taken quiet long m (by omega) i part
    rw [moving.line, moving.enable, decide_eq_false (by omega), Bool.or_false]
    refine ⟨?_, rfl⟩
    by_cases last : m = 0
    · rw [if_pos last, if_neg (by omega)]
      congr 1
      omega
    · rw [if_neg last, if_pos (by omega)]
      congr 1
      omega

theorem done_at :
    ((start.after phyaddr inputs (start.frameEnd phyaddr inputs t)).Resting ∧
      (start.after phyaddr inputs (start.frameEnd phyaddr inputs t)).oWbStall = true) ∧
      (start.after phyaddr inputs (start.frameEnd phyaddr inputs t)).oWbAck =
        ((start.after phyaddr inputs (start.frameEnd phyaddr inputs t - 1)).preAck &&
          (inputs (start.frameEnd phyaddr inputs t - 1)).iWbCyc) ∧
      ∀ n < 16, (start.after phyaddr inputs (start.frameEnd phyaddr inputs t)).readReg.getLsbD
        (15 - n) = start.sampledBit phyaddr inputs t n := by
  have four := four_le wide
  have last := moving_at wide initial taken quiet long 16 (Nat.le_refl _) (2 ^ cb - 1) (by omega)
  have place : start.frameEnd phyaddr inputs t =
      start.frameStart phyaddr inputs t + (16 + 16) * 2 ^ cb + (2 ^ cb - 1) + 1 := by
    rw [frameEnd]
    omega
  have running := frame_quiet quiet long (Nat.le_refl 32) (show 2 ^ cb - 1 < 2 ^ cb by omega)
  obtain ⟨rests, ack, kept⟩ := last.done running (by omega) (by omega)
  rw [place, after_succ, Nat.add_sub_cancel]
  refine ⟨rests, ack, ?_⟩
  intro n within
  rw [kept, last.samples (15 - n) (by omega)]
  congr 1
  omega

/-- `pre_ack` stays up as long as `i_wb_cyc` does. -/
theorem preAck_at {time : Nat} (after : t < time) (before : time < start.frameEnd phyaddr inputs t) :
    (start.after phyaddr inputs time).preAck = true ↔
      ∀ u, t ≤ u → u < time → (inputs u).iWbCyc = true := by
  have inside : start.frameEnd phyaddr inputs t ≤ finish := long
  induction time, after using Nat.le_induction with
  | base =>
      have running := quiet t (Nat.le_refl _) (by omega)
      have now : (start.after phyaddr inputs (t + 1)).preAck = (inputs t).iWbCyc := by
        rw [after_succ]
        simp only [step, running, taken, Bool.false_or, if_true]
        cases (inputs t).iWbCyc <;> rfl
      rw [now]
      refine ⟨fun cyc u from' upto => ?_, fun cyc => cyc t (Nat.le_refl _) (Nat.lt_succ_self t)⟩
      obtain rfl : u = t := by omega
      exact cyc
  | succ time after ih =>
      have held := held_at wide initial taken quiet long after (Nat.lt_of_succ_lt before)
      have running := quiet time (by omega) (by omega)
      have now : (start.after phyaddr inputs (time + 1)).preAck =
          ((inputs time).iWbCyc && (start.after phyaddr inputs time).preAck) := by
        rw [after_succ]
        simp only [step, running, accepts_held held, held.ack, Bool.false_or, Bool.false_eq_true,
          if_false]
        cases (inputs time).iWbCyc <;> rfl
      have soFar := ih (Nat.lt_of_succ_lt before)
      rw [now, Bool.and_eq_true]
      refine ⟨fun ⟨last, up⟩ u from' upto => ?_, fun cyc => ⟨cyc time (by omega) (by omega),
        soFar.mpr fun u from' upto => cyc u from' (by omega)⟩⟩
      rcases Nat.lt_or_eq_of_le (Nat.le_of_lt_succ upto) with earlier | rfl
      · exact soFar.mp up u from' earlier
      · exact last

/-- Nothing is acknowledged after the frame until a request is taken. -/
theorem resting_at {time : Nat} (late : start.frameEnd phyaddr inputs t ≤ time)
    (before : time ≤ finish)
    (free : ∀ u, start.frameEnd phyaddr inputs t ≤ u → u < time →
      (start.after phyaddr inputs u).accepts (inputs u) = false) :
    (start.after phyaddr inputs time).Resting ∧
      (start.frameEnd phyaddr inputs t < time →
        (start.after phyaddr inputs time).oWbAck = false) := by
  have later := frameStart_after phyaddr start inputs t
  induction time, late using Nat.le_induction with
  | base =>
      obtain ⟨⟨rests, _⟩, _⟩ := done_at wide initial taken quiet long
      exact ⟨rests, fun past => absurd past (Nat.lt_irrefl _)⟩
  | succ time late ih =>
      obtain ⟨rests, _⟩ := ih (by omega) (fun u from' upto => free u from' (by omega))
      have past : t ≤ time := by
        rw [frameEnd] at late
        omega
      have next := rests.step (quiet time past (by omega)) phyaddr
        (free time late (Nat.lt_succ_self _))
      exact ⟨next.1, fun _ => next.2⟩

end Run

/-- How a request taken at `t` is served; there is no reset until `finish`. -/
structure Served (phyaddr : BitVec 5) (start : Enetctrl cb) (inputs : Nat → Clock)
    (t finish : Nat) : Prop where
  soon : t < start.frameStart phyaddr inputs t ∧
    start.frameStart phyaddr inputs t ≤ t + 1 + 2 ^ cb
  mdclk : ∀ k ≤ 32, ∀ i < 2 ^ cb,
    (start.after phyaddr inputs (start.frameStart phyaddr inputs t + k * 2 ^ cb + i)).oMdclk =
      decide (2 ^ (cb - 1) ≤ i)
  write : (inputs t).iWbWe = true → ∀ k < 32, ∀ i < 2 ^ cb,
    (start.after phyaddr inputs (start.frameStart phyaddr inputs t + (k + 1) * 2 ^ cb + i)).oMdio =
        (1#2 ++ 1#2 ++ phyaddr ++ (inputs t).iWbAddr ++ 2#2 ++ (inputs t).iWbData).getLsbD
          (31 - k) ∧
      (start.after phyaddr inputs
        (start.frameStart phyaddr inputs t + (k + 1) * 2 ^ cb + i)).oMdwe = true
  read : (inputs t).iWbWe = false → ∀ k < 14, ∀ i < 2 ^ cb,
    (start.after phyaddr inputs (start.frameStart phyaddr inputs t + (k + 1) * 2 ^ cb + i)).oMdio =
        (1#2 ++ 2#2 ++ phyaddr ++ (inputs t).iWbAddr).getLsbD (13 - k) ∧
      (start.after phyaddr inputs
        (start.frameStart phyaddr inputs t + (k + 1) * 2 ^ cb + i)).oMdwe = true
  released : (inputs t).iWbWe = false → ∀ k, 14 ≤ k → k < 32 → ∀ i < 2 ^ cb,
    (start.after phyaddr inputs
      (start.frameStart phyaddr inputs t + (k + 1) * 2 ^ cb + i)).oMdwe = false
  data : (inputs t).iWbWe = false →
    ∃ word : BitVec 16,
      (start.after phyaddr inputs (start.frameEnd phyaddr inputs t)).oWbData = 0#16 ++ word ∧
        ∀ n < 16, word.getLsbD (15 - n) =
          (inputs (start.frameStart phyaddr inputs t + (17 + n) * 2 ^ cb - 1)).iMdio
  blocked : ∀ time, t < time → time ≤ start.frameEnd phyaddr inputs t →
    (start.after phyaddr inputs time).accepts (inputs time) = false
  acked : ∀ time, t < time → time ≤ finish →
    (∀ u, t < u → u < time → (start.after phyaddr inputs u).accepts (inputs u) = false) →
      ((start.after phyaddr inputs time).oWbAck = true ↔
        time = start.frameEnd phyaddr inputs t ∧
          ∀ u, t ≤ u → u < time → (inputs u).iWbCyc = true)

/-- Every request is served, whenever it comes. -/
theorem request_served (wide : 2 ≤ cb) {start : Enetctrl cb} (initial : start.Initial)
    (inputs : Nat → Clock) {t finish : Nat}
    (taken : (start.after phyaddr inputs t).accepts (inputs t) = true)
    (quiet : ∀ time, t ≤ time → time < finish → (inputs time).iReset = false)
    (long : start.frameEnd phyaddr inputs t ≤ finish) :
    Served phyaddr start inputs t finish where
  soon := ⟨frameStart_after _ _ _ _, by rw [frameStart]; omega⟩
  mdclk := by
    intro k within i part
    rw [oMdclk, BitVec.msb_eq_decide,
      (divided_at wide initial taken quiet long within part).count]
  write := by
    intro writes k within i part
    obtain ⟨line, enable⟩ := line_at wide initial taken quiet long within part
    rw [line, enable, header, writes]
    exact ⟨rfl, rfl⟩
  read := by
    intro reads k within i part
    obtain ⟨line, enable⟩ := line_at wide initial taken quiet long (show k < 32 by omega) part
    rw [line, enable, header, reads, decide_eq_true within, BitVec.getLsbD_append,
      if_neg (by omega), BitVec.getLsbD_append, if_neg (by omega)]
    refine ⟨?_, rfl⟩
    have place : 31 - k - 16 - 2 = 13 - k := by omega
    rw [place]
    rfl
  released := by
    intro reads k from' within i part
    obtain ⟨_, enable⟩ := line_at wide initial taken quiet long within part
    rw [enable, reads, decide_eq_false (by omega)]
    rfl
  data := fun _ => ⟨_, rfl, (done_at wide initial taken quiet long).2.2⟩
  blocked := by
    intro time after before
    rcases Nat.lt_or_eq_of_le before with during | rfl
    · exact accepts_held (held_at wide initial taken quiet long after during)
    · obtain ⟨⟨_, stall⟩, _⟩ := done_at wide initial taken quiet long
      rw [accepts, stall, Bool.not_true, Bool.and_false]
  acked := by
    intro time after upto free
    have later := frameStart_after phyaddr start inputs t
    have place : start.frameEnd phyaddr inputs t = start.frameStart phyaddr inputs t + 33 * 2 ^ cb :=
      rfl
    rcases Nat.lt_trichotomy time (start.frameEnd phyaddr inputs t) with during | rfl | past
    · rw [(held_at wide initial taken quiet long after during).ack]
      exact ⟨nofun, fun ⟨same, _⟩ => absurd same (Nat.ne_of_lt during)⟩
    · have four := four_le wide
      obtain ⟨_, acks, _⟩ := done_at wide initial taken quiet long
      have before := preAck_at wide initial taken quiet long
        (show t < start.frameEnd phyaddr inputs t - 1 by omega) (by omega)
      rw [acks, Bool.and_eq_true]
      refine ⟨fun ⟨up, last⟩ => ⟨rfl, fun u from' upto => ?_⟩, fun ⟨_, cyc⟩ =>
        ⟨before.mpr fun u from' upto => cyc u from' (by omega), cyc _ (by omega) (by omega)⟩⟩
      rcases Nat.lt_or_eq_of_le (Nat.le_sub_one_of_lt upto) with earlier | rfl
      · exact before.mp up u from' earlier
      · exact last
    · have silent := (resting_at wide initial taken quiet long (Nat.le_of_lt past) upto
        fun u from' below => free u (by omega) below).2 past
      rw [silent]
      exact ⟨nofun, fun ⟨same, _⟩ => absurd same (Nat.ne_of_gt past)⟩

def powerUp : Enetctrl 2 :=
  ⟨0, false, 0, false, false, false, false, true, false, 0, 0, false, false, false, 0x3f, .reset, 0xffff⟩

/-- One read of register 2 after the other, with the line up at every fifth clock. -/
def readsOnly (time : Nat) : Clock := ⟨false, true, true, false, 2, 0, time % 5 = 0⟩

/-- The first of the reads. -/
theorem first_read_served : Served 1 powerUp readsOnly 257 400 :=
  request_served (by decide) ⟨rfl, rfl, rfl, rfl, rfl, rfl, rfl, rfl, rfl, rfl, rfl⟩ readsOnly
    (by decide +kernel) (fun _ _ _ => rfl) (by decide +kernel)

end Enetctrl

end ZipVersa.Enet
