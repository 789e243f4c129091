import ZipVersa.DebugBus.Input

/-! The bus master `wbuexec`: one Wishbone transaction after another from the
codewords of the input side, one codeword back for each result. -/

set_option autoImplicit false

namespace ZipVersa.DebugBus

open Lib

inductive WbState where
  | idle
  | readRequest
  | writeRequest
  | ack
  | waitOnNextWrite
  | flushWriteRequests
  deriving DecidableEq, Repr

structure Exec where
  state : WbState
  cyc : Bool
  stb : Bool
  we : Bool
  addr : BitVec 32
  data : BitVec 32
  outStb : Bool
  outCodword : Word
  acksNeeded : BitVec 10
  len : BitVec 10
  inc : Bool
  newAddr : Bool
  lastReadRequest : Bool
  singleReadRequest : Bool
  lastAck : Bool
  zeroAcks : Bool
  deriving DecidableEq, Repr

/-- The bus side of one clock. -/
structure Bus where
  stall : Bool
  ack : Bool
  err : Bool
  data : BitVec 32
  deriving DecidableEq, Repr

namespace Exec

def busy (exec : Exec) : Bool :=
  exec.state != .idle && exec.state != .waitOnNextWrite && exec.state != .flushWriteRequests

/-- `{ 6'h2, i_wb_data[29:0] }` and the like: a six-bit code and padding. -/
def report (code : Six) (data : BitVec 32) : Word := code ++ data.extractLsb' 0 30

/-- `{ 3'h7, i_wb_data[31:30], r_inc, i_wb_data[29:0] }`. -/
def readData (inc : Bool) (data : BitVec 32) : Word :=
  (0b111 : BitVec 3) ++ data.extractLsb' 30 2 ++ BitVec.ofBool inc ++ data.extractLsb' 0 30

/-- `{ 4'h2, o_wb_addr }`. -/
def addressWord (addr : BitVec 32) : Word := (2 : BitVec 4) ++ addr

def newWr (exec : Exec) (iStb : Bool) (iCodword : Word) : Bool :=
  iStb && !exec.busy && iCodword.extractLsb' 34 2 == 0b01

def eow (exec : Exec) (iStb : Bool) (iCodword : Word) : Bool :=
  iStb && !exec.busy && iCodword.extractLsb' 30 6 == 0x2e

def newErr (exec : Exec) (iStb : Bool) (iCodword : Word) : Bool :=
  iStb && !exec.busy && iCodword.extractLsb' 33 3 != 0b011 && iCodword.extractLsb' 30 6 != 0x2e

/-- The registers outside the state machine, the same in every state. -/
def counters (exec : Exec) (iStb : Bool) (iCodword : Word) (bus : Bus) : Exec :=
  { exec with
    newAddr :=
      if !exec.cyc && iStb && iCodword.extractLsb' 35 1 == 0 then true
      else if exec.cyc then false
      else exec.newAddr
    acksNeeded :=
      if !exec.cyc then 0
      else if exec.stb && !bus.stall && !bus.ack then exec.acksNeeded + 1
      else if (!exec.stb || bus.stall) && bus.ack then exec.acksNeeded - 1
      else exec.acksNeeded
    lastAck := !exec.stb && exec.acksNeeded == 1 || exec.stb && exec.acksNeeded == 0
    zeroAcks := !exec.stb && exec.acksNeeded == 0
    len :=
      if !exec.stb then iCodword.extractLsb' 0 10
      else if !bus.stall && exec.len != 0 then exec.len - 1
      else exec.len
    singleReadRequest := !exec.cyc && iCodword.extractLsb' 0 10 == 1
    lastReadRequest :=
      exec.stb && exec.len.extractLsb' 2 8 == 0 &&
        (!exec.len.getLsbD 1 || !exec.len.getLsbD 0 && !bus.stall) }

/-- What `WB_IDLE` does to its registers whatever comes. -/
def idling (exec next : Exec) (iCodword : Word) : Exec :=
  { next with
    cyc := false
    stb := false
    outStb := false
    inc := iCodword.getLsbD 30
    we := iCodword.extractLsb' 34 2 != 0b11
    outCodword := addressWord exec.addr
    data := codData iCodword }

/-- The state machine in `WB_IDLE`, on top of the other registers. -/
def fromIdle (exec next : Exec) (iStb : Bool) (iCodword : Word) : Exec :=
  let idling := exec.idling next iCodword
  if !iStb then idling
  else if iCodword.extractLsb' 32 4 = 0b0000 then
    { idling with addr := iCodword.extractLsb' 0 32 }
  else if iCodword.extractLsb' 33 3 = 0b001 then
    { idling with addr := exec.addr + codData iCodword }
  else if iCodword.extractLsb' 34 2 = 0b01 then
    { idling with state := .writeRequest, cyc := true, stb := true }
  else if iCodword.extractLsb' 34 2 = 0b11 then
    { idling with state := .readRequest, cyc := true, stb := true, outStb := exec.newAddr }
  else idling

def fromRead (exec next : Exec) (bus : Bus) : Exec :=
  let last := !bus.stall && (exec.singleReadRequest || exec.lastReadRequest)
  { next with
    state := if last then .ack else if bus.err then .idle else .readRequest
    cyc := true
    stb := !last
    outStb := bus.err || bus.ack
    outCodword := if bus.err then report 5 bus.data else readData exec.inc bus.data
    addr := if exec.inc && !bus.stall then exec.addr + 1 else exec.addr }

def fromWrite (exec next : Exec) (bus : Bus) : Exec :=
  { next with
    state :=
      if bus.err then .flushWriteRequests
      else if !bus.stall then .waitOnNextWrite
      else .writeRequest
    cyc := !bus.err
    stb := !bus.err && bus.stall
    outStb := bus.err || !bus.stall
    outCodword := if bus.err then report 5 bus.data else report 2 bus.data
    addr := if exec.inc && !bus.stall then exec.addr + 1 else exec.addr }

def fromAck (exec next : Exec) (bus : Bus) : Exec :=
  let done := exec.lastAck && bus.ack || exec.zeroAcks || bus.err
  { next with
    state := if done then .idle else .ack
    cyc := !done
    stb := false
    outStb := bus.ack && !exec.we || bus.err
    outCodword := if bus.err then report 5 bus.data else readData exec.inc bus.data }

def fromWait (exec next : Exec) (iStb : Bool) (iCodword : Word) (bus : Bus) : Exec :=
  let waiting := { next with
    outCodword := report 5 bus.data
    outStb := bus.err || exec.newErr iStb iCodword
    data := codData iCodword
    cyc := true
    stb := false }
  if exec.newErr iStb iCodword then { waiting with cyc := false, state := .idle }
  else if bus.err then { waiting with cyc := false, state := .flushWriteRequests }
  else if exec.newWr iStb iCodword then { waiting with state := .writeRequest, stb := true }
  else if exec.eow iStb iCodword then { waiting with state := .ack }
  else waiting

def fromFlush (exec next : Exec) (iStb : Bool) (iCodword : Word) (bus : Bus) : Exec :=
  { next with
    cyc := false
    stb := false
    outCodword := report 5 bus.data
    outStb := exec.newErr iStb iCodword
    state :=
      if exec.eow iStb iCodword || exec.newErr iStb iCodword then .idle
      else .flushWriteRequests }

/-- One rising edge with `i_rst` low. -/
def step (exec : Exec) (iStb : Bool) (iCodword : Word) (bus : Bus) : Exec :=
  let next := exec.counters iStb iCodword bus
  match exec.state with
  | .idle => exec.fromIdle next iStb iCodword
  | .readRequest => exec.fromRead next bus
  | .writeRequest => exec.fromWrite next bus
  | .ack => exec.fromAck next bus
  | .waitOnNextWrite => exec.fromWait next iStb iCodword bus
  | .flushWriteRequests => exec.fromFlush next iStb iCodword bus

/-- A write request the bus takes at this clock. -/
def write (exec : Exec) (bus : Bus) : Option (BitVec 32 × BitVec 32) :=
  if exec.cyc && exec.stb && exec.we && !bus.stall then some (exec.addr, exec.data) else none

end Exec

/-- What `wbuexec` takes a codeword for. -/
inductive Command where
  | setAddress (addr : BitVec 32)
  | moveAddress (offset : BitVec 32)
  | write (inc : Bool) (data : BitVec 32)
  | read (inc : Bool) (len : BitVec 10)
  | endOfWrites
  | none
  deriving DecidableEq, Repr

/-- The words a command asks to read. -/
def Command.len : Command → Nat
  | .read _ len => len.toNat
  | _ => 0

/-- The decoding of `WB_IDLE`, with `w_eow`. -/
def decode (word : Word) : Command :=
  if word.extractLsb' 32 4 = 0b0000 then .setAddress (word.extractLsb' 0 32)
  else if word.extractLsb' 33 3 = 0b001 then .moveAddress (codData word)
  else if word.extractLsb' 34 2 = 0b01 then .write (word.getLsbD 30) (codData word)
  else if word.extractLsb' 34 2 = 0b11 then .read (word.getLsbD 30) (word.extractLsb' 0 10)
  else if word.extractLsb' 30 6 = 0x2e then .endOfWrites
  else .none

theorem decode_eq_write {word : Word} {inc : Bool} {data : BitVec 32}
    (write : decode word = .write inc data) :
    word.extractLsb' 34 2 = 0b01 ∧ codData word = data := by
  unfold decode at write
  split_ifs at write with address difference code
  cases write
  exact ⟨code, rfl⟩

theorem decode_eq_read {word : Word} {inc : Bool} {len : BitVec 10}
    (read : decode word = .read inc len) :
    word.extractLsb' 34 2 = 0b11 ∧ word.extractLsb' 0 10 = len := by
  unfold decode at read
  split_ifs at read with address difference write code
  cases read
  exact ⟨code, rfl⟩

theorem decode_eq_endOfWrites {word : Word} (ends : decode word = .endOfWrites) :
    word.extractLsb' 30 6 = 0x2e := by
  unfold decode at ends
  split_ifs at ends with address difference write read code
  exact code

namespace Exec

variable {exec : Exec}

/-- `WB_IDLE` by the command a codeword holds. -/
theorem step_idle (idle : exec.state = .idle) (word : Word) (bus : Bus) :
    exec.step true word bus =
      let idling := exec.idling (exec.counters true word bus) word
      match decode word with
      | .setAddress addr => { idling with addr }
      | .moveAddress offset => { idling with addr := exec.addr + offset }
      | .write _ _ => { idling with state := .writeRequest, cyc := true, stb := true }
      | .read _ _ =>
          { idling with state := .readRequest, cyc := true, stb := true, outStb := exec.newAddr }
      | _ => idling := by
  rw [step, idle]
  dsimp only
  unfold fromIdle decode
  split_ifs <;> first | rfl | contradiction

theorem step_silent (idle : exec.state = .idle) (word : Word) (bus : Bus) :
    exec.step false word bus = exec.idling (exec.counters false word bus) word := by
  rw [step, idle]
  rfl

/-- What a write codeword leaves in the registers that hold it. -/
theorem idling_write (exec : Exec) {word : Word} {inc : Bool} {data : BitVec 32}
    (write : decode word = .write inc data) (next : Exec) :
    (exec.idling next word).inc = inc ∧ (exec.idling next word).data = data ∧
      (exec.idling next word).we = true := by
  unfold decode at write
  split_ifs at write with address difference code
  cases write
  refine ⟨rfl, rfl, ?_⟩
  rw [idling, code]
  rfl

theorem idling_read (strobe : exec.stb = false) {word : Word} {inc : Bool} {len : BitVec 10}
    (read : decode word = .read inc len) (iStb : Bool) (bus : Bus) :
    (exec.idling (exec.counters iStb word bus) word).inc = inc ∧
      (exec.idling (exec.counters iStb word bus) word).len = len ∧
      (exec.idling (exec.counters iStb word bus) word).we = false := by
  unfold decode at read
  split_ifs at read with address difference write code
  cases read
  refine ⟨rfl, ?_, ?_⟩
  · simp [idling, counters, strobe]
  · rw [idling, code]
    rfl

end Exec

end ZipVersa.DebugBus
