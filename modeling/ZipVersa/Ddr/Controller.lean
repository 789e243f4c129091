import ZipVersa.Lib.Dram

/-! The command side of `wbddrsdram`: the reset and refresh scripts, the two
command pipes with the bank registers, the four time slots and the
acknowledgements. The data, its masks and the strobes are left out, and with
them `o_ddr_reset_n` and `o_ddr_cke`: none of it is read by the commands. -/

set_option autoImplicit false

namespace ZipVersa.Ddr

open Lib

abbrev Bank := BitVec 3
abbrev Row := BitVec 14
abbrev Request := Dram.Request Bank Row (BitVec 10)
abbrev Command := Dram.Command Bank Row (BitVec 10)

/-- `DDR_MRSET` to `DDR_NOOP`. -/
inductive DdrOp where
  | mrset
  | refresh
  | precharge
  | activate
  | write
  | read
  | zqs
  | noop
  deriving DecidableEq, Repr

/-- `cmd_a` to `cmd_d`: `cs_n`, the other three command bits, then bank and address. -/
structure DdrCmd where
  csN : Bool
  op : DdrOp
  arg : BitVec 17
  deriving DecidableEq, Repr

/-- A line of a script: the four bits from 24 down to 21, the command and its
bank and address, which are a time for those with a timer. -/
structure Instruction where
  flags : BitVec 4
  op : DdrOp
  arg : BitVec 17
  deriving DecidableEq, Repr

namespace Instruction

variable (instruction : Instruction)

def rstDone : Bool := instruction.flags.getLsbD 3
def rstTimer : Bool := instruction.flags.getLsbD 2
def preRefreshStall : Bool := instruction.flags.getLsbD 3
def needRefresh : Bool := instruction.flags.getLsbD 2
def rfTimer : Bool := instruction.flags.getLsbD 1
def rfBegin : Bool := instruction.flags.getLsbD 0

end Instruction

/-! ### The reset script -/

structure Reset where
  override : Bool
  cmdOp : DdrOp
  cmdArg : BitVec 17
  ztimer : Bool
  timer : BitVec 17
  instruction : Instruction
  address : BitVec 4
  deriving DecidableEq, Repr

def initialResetInstruction : Instruction := ⟨0x4, .noop, 40000⟩

def getResetInstruction (address : BitVec 4) : Instruction :=
  match address.toNat with
  | 0x0 => ⟨0x4, .noop, 16000⟩
  | 0x1 => ⟨0x6, .noop, 40000⟩
  | 0x2 => ⟨0x7, .noop, 12⟩
  | 0x3 => ⟨0x3, .mrset, 2#3 ++ 0x0040#14⟩
  | 0x4 => ⟨0x3, .mrset, 1#3 ++ 0x0044#14⟩
  | 0x5 => ⟨0x3, .mrset, 0#3 ++ 0x0210#14⟩
  | 0x6 => ⟨0x7, .noop, 1⟩
  | 0x7 => ⟨0x3, .zqs, 0x0400⟩
  | 0x8 => ⟨0x7, .noop, 126⟩
  | 0x9 => ⟨0x3, .precharge, 0x0400⟩
  | 0xa => ⟨0x3, .noop, 0⟩
  | 0xb => ⟨0x3, .refresh, 0⟩
  | 0xc => ⟨0x7, .noop, 11⟩
  | 0xd => ⟨0x7, .noop, 3⟩
  | _ => ⟨0xb, .noop, 0⟩

def Reset.step (script : Reset) (reset : Bool) : Reset :=
  let reads := script.ztimer && script.override
  { override :=
      if reset then true
      else if reads && script.instruction.rstDone then false
      else script.override
    cmdOp :=
      if reset then .noop else if reads then script.instruction.op else script.cmdOp
    cmdArg :=
      if reset then initialResetInstruction.arg
      else if reads then script.instruction.arg
      else script.cmdArg
    ztimer :=
      if reset then false
      else if script.override then
        (if !script.ztimer then script.timer == 1
        else if script.instruction.rstTimer then script.instruction.arg == 0
        else script.ztimer)
      else true
    timer :=
      if reset then 2
      else if script.override then
        (if !script.ztimer then script.timer - 1
        else if script.instruction.rstTimer then script.instruction.arg
        else script.timer)
      else script.timer
    instruction :=
      if reset then initialResetInstruction
      else if script.ztimer then getResetInstruction script.address
      else script.instruction
    address :=
      if reset then 0
      else if reads && !script.instruction.rstDone then script.address + 1
      else script.address }

def Reset.initial : Reset where
  override := true
  cmdOp := .noop
  cmdArg := initialResetInstruction.arg
  ztimer := false
  timer := 2
  instruction := initialResetInstruction
  address := 0

/-! ### The refresh script -/

structure Refresh where
  addr : BitVec 3
  ztimer : Bool
  counter : BitVec 17
  instruction : Instruction
  cmdOp : DdrOp
  cmdArg : BitVec 17
  needRefresh : Bool
  preRefreshStall : Bool
  deriving DecidableEq, Repr

def initialRefreshInstruction : Instruction := ⟨0x2, .noop, 1⟩

/-- `w_ckREFI_left`, `w_pre_stall_counts` and `w_ckRFC_nxt` are 592, 3 and 9. -/
def getRefreshInstruction (refaddr : BitVec 3) : Instruction :=
  match refaddr.toNat with
  | 0 => ⟨0x2, .noop, 592⟩
  | 1 => ⟨0xa, .noop, 3⟩
  | 2 => ⟨0xc, .noop, 0⟩
  | 3 => ⟨0xc, .precharge, 0x0400⟩
  | 4 => ⟨0xc, .noop, 0⟩
  | 5 => ⟨0xc, .refresh, 0⟩
  | 6 => ⟨0xe, .noop, 9⟩
  | _ => ⟨0x2, .noop, 12⟩

def Refresh.initial : Refresh where
  addr := 0
  ztimer := false
  counter := 4
  instruction := initialRefreshInstruction
  cmdOp := initialRefreshInstruction.op
  cmdArg := initialRefreshInstruction.arg
  needRefresh := false
  preRefreshStall := false

/-- Outside of the reset. -/
def Refresh.step (script : Refresh) : Refresh where
  addr :=
    if script.ztimer then script.addr + 1
    else if script.instruction.rfBegin then 0
    else script.addr
  ztimer :=
    if !script.ztimer then script.counter == 1
    else if script.instruction.rfTimer then script.instruction.arg == 0
    else script.ztimer
  counter :=
    if !script.ztimer then script.counter - 1
    else if script.instruction.rfTimer then script.instruction.arg
    else script.counter
  instruction :=
    if script.ztimer then getRefreshInstruction script.addr else script.instruction
  cmdOp := if script.ztimer then script.instruction.op else script.cmdOp
  cmdArg := if script.ztimer then script.instruction.arg else script.cmdArg
  needRefresh :=
    if script.ztimer then script.instruction.needRefresh else script.needRefresh
  preRefreshStall :=
    if script.ztimer then script.instruction.preRefreshStall else script.preRefreshStall

/-! ### The pipes -/

/-- The inputs at one clock; `i_wb_addr` selects 128-bit words. -/
structure DdrClock where
  reset : Bool
  cyc : Bool
  stb : Bool
  we : Bool
  addr : BitVec 24
  deriving DecidableEq, Repr

/-- `r_we`, `r_row`, `r_bank` and `r_col` for this address. -/
def DdrClock.request (clock : DdrClock) : Request where
  write := clock.we
  bank := clock.addr.extractLsb' 7 3
  row := clock.addr.extractLsb' 10 14
  column := clock.addr.extractLsb' 0 7 ++ 0#3

/-- `i_reset || !i_wb_cyc`. -/
def DdrClock.drops (clock : DdrClock) : Bool := clock.reset || !clock.cyc

/-- `i_wb_addr[23:7] + 1`, row and bank behind the ones requested. -/
def DdrClock.following (clock : DdrClock) : BitVec 17 := clock.addr.extractLsb' 7 17 + 1

/-- The bits of `cmd_pipe` and `nxt_pipe` are numbered: 0 precharges, 1
activates and 2 accesses. -/
structure WbDdr where
  script : Reset
  refresh : Refresh
  maintenanceOverride : Bool
  maintenanceOp : DdrOp
  maintenanceArg : BitVec 17
  cmdPipe0 : Bool
  cmdPipe1 : Bool
  cmdPipe2 : Bool
  nxtPipe0 : Bool
  nxtPipe1 : Bool
  pipeStall : Bool
  dirStall : Bool
  wbStall : Bool
  rPending : Bool
  r : Request
  rNxtRow : Row
  rNxtBank : Bank
  sPending : Bool
  s : Request
  sNxtRow : Row
  sNxtBank : Bank
  bankStatus : Bank → Bool
  bankAddress : Bank → Row
  busAck0 : Bool
  busAck1 : Bool
  busAck2 : Bool
  wbAck : Bool
  cmdA : DdrCmd
  cmdB : DdrCmd
  cmdC : DdrCmd
  cmdD : DdrCmd

/-- The bit of `cmd_pipe` a request starts with. -/
inductive Turn where
  | precharge
  | activate
  | access
  deriving DecidableEq, Repr

namespace WbDdr

variable (ddr : WbDdr) (clock : DdrClock)

/-- `nxt_pipe` is about the bank of the request in `r`. -/
def nextMatches : Bool := ddr.sNxtBank == ddr.r.bank

def turn : Turn :=
  if ddr.nxtPipe1 && ddr.nextMatches && ddr.sNxtRow == ddr.r.row then .access
  else if ddr.nxtPipe0 && ddr.nextMatches then .activate
  else if !ddr.bankStatus ddr.r.bank && (!ddr.nxtPipe1 || !ddr.nextMatches) then .activate
  else if ddr.bankAddress ddr.r.bank != ddr.r.row ||
      (ddr.nxtPipe1 && ddr.nextMatches && ddr.sNxtRow != ddr.r.row) then
    (if ddr.nxtPipe0 && ddr.nextMatches then .activate else .precharge)
  else .access

/-- The request in `r` moves on to `s`, if there is one. -/
def moves : Bool := !ddr.pipeStall && !ddr.dirStall

def starts (turn : Turn) : Bool := ddr.moves && ddr.rPending && ddr.turn == turn

def accepts : Bool := clock.stb && !ddr.wbStall

def nextBankStatus (bank : Bank) : Bool :=
  if clock.reset || ddr.maintenanceOverride then false
  else if ddr.cmdPipe0 then
    (if ddr.nxtPipe1 && bank == ddr.sNxtBank then true
    else if bank == ddr.s.bank then false
    else ddr.bankStatus bank)
  else if ddr.nxtPipe0 && bank == ddr.sNxtBank then false
  else if ddr.cmdPipe1 then (if bank == ddr.s.bank then true else ddr.bankStatus bank)
  else if ddr.nxtPipe1 && bank == ddr.sNxtBank then true
  else ddr.bankStatus bank

def nextBankAddress (bank : Bank) : Row :=
  if ddr.cmdPipe1 then (if bank == ddr.s.bank then ddr.s.row else ddr.bankAddress bank)
  else if ddr.nxtPipe1 && bank == ddr.sNxtBank then ddr.sNxtRow
  else ddr.bankAddress bank

/-- `nxt_pipe[1]` before the refresh and the end of a cycle clear it. -/
def nextNxtPipe1 : Bool :=
  if ddr.moves then
    (if ddr.rPending then !ddr.nxtPipe1 && !ddr.bankStatus ddr.rNxtBank else ddr.nxtPipe0)
  else if (ddr.cmdPipe1 && ddr.nxtPipe1) || (ddr.cmdPipe0 && ddr.nxtPipe0) then ddr.nxtPipe1
  else ddr.nxtPipe0

def nextNxtPipe0 : Bool :=
  if ddr.moves then
    ddr.rPending && ddr.bankStatus ddr.rNxtBank && ddr.bankAddress ddr.rNxtBank != ddr.r.row
  else if (ddr.cmdPipe1 && ddr.nxtPipe1) || (ddr.cmdPipe0 && ddr.nxtPipe0) then ddr.nxtPipe0
  else false

/-- `o_wb_stall` before the refresh and the reset set it. -/
def nextWbStall : Bool :=
  if ddr.moves then
    (if ddr.rPending then !(ddr.turn == .access) && clock.stb else false)
  else if !ddr.rPending then clock.stb
  else ddr.sPending && ddr.cmdPipe0

/-- Bank and row for a precharge: address bit 10 is cleared. -/
def prechargeArg (bank : Bank) (row : Row) : BitVec 17 :=
  bank ++ (row.extractLsb' 11 3 ++ 0#1 ++ row.extractLsb' 0 10)

def nextCmdA : DdrCmd where
  csN := clock.reset || !ddr.maintenanceOverride
  op := ddr.maintenanceOp
  arg := ddr.maintenanceArg

def nextCmdB : DdrCmd where
  csN := clock.reset ||
    (if ddr.cmdPipe0 && !ddr.bankStatus ddr.s.bank then true
    else if !ddr.cmdPipe0 && ddr.nxtPipe0 && !ddr.bankStatus ddr.sNxtBank then true
    else !ddr.cmdPipe0 && !ddr.nxtPipe0)
  op := .precharge
  arg :=
    if ddr.cmdPipe0 then prechargeArg ddr.s.bank ddr.s.row
    else prechargeArg ddr.sNxtBank ddr.sNxtRow

def nextCmdC : DdrCmd where
  csN := clock.reset || (!ddr.cmdPipe1 && !ddr.nxtPipe1)
  op := .activate
  arg := if ddr.cmdPipe1 then ddr.s.bank ++ ddr.s.row else ddr.sNxtBank ++ ddr.sNxtRow

def nextCmdD : DdrCmd where
  csN := clock.reset || !clock.cyc || !ddr.cmdPipe2
  op := if ddr.s.write then .write else .read
  arg := ddr.s.bank ++ (0#3 ++ 0#1 ++ ddr.s.column)

/-- One rising edge. -/
def step : WbDdr where
  script := ddr.script.step clock.reset
  refresh := if ddr.script.override then .initial else ddr.refresh.step
  maintenanceOverride := clock.reset || ddr.script.override || ddr.refresh.needRefresh
  maintenanceOp :=
    if clock.reset then .noop
    else if ddr.script.override then ddr.script.cmdOp
    else ddr.refresh.cmdOp
  maintenanceArg :=
    if clock.reset then 0
    else if ddr.script.override then ddr.script.cmdArg
    else ddr.refresh.cmdArg
  cmdPipe0 := !clock.drops && ddr.starts .precharge
  cmdPipe1 := !clock.drops && (if ddr.moves then ddr.starts .activate else ddr.cmdPipe0)
  cmdPipe2 := !clock.drops && (if ddr.moves then ddr.starts .access else ddr.cmdPipe1)
  nxtPipe0 := !clock.drops && !ddr.refresh.needRefresh && ddr.nextNxtPipe0
  nxtPipe1 := !clock.drops && !ddr.refresh.needRefresh && ddr.nextNxtPipe1
  pipeStall := !clock.drops &&
    (if ddr.moves then ddr.rPending && !(ddr.turn == .access) else ddr.sPending && ddr.cmdPipe0)
  dirStall :=
    (ddr.accepts clock && ddr.rPending && ddr.r.write != clock.we) ||
      (ddr.pipeStall && ddr.dirStall)
  wbStall :=
    clock.reset || ddr.script.override || ddr.refresh.preRefreshStall || ddr.nextWbStall clock
  rPending := !clock.drops && (ddr.accepts clock || (ddr.rPending && ddr.pipeStall))
  r := if ddr.wbStall then ddr.r else clock.request
  rNxtRow := if ddr.wbStall then ddr.rNxtRow else clock.following.extractLsb' 3 14
  rNxtBank := if ddr.wbStall then ddr.rNxtBank else clock.following.extractLsb' 0 3
  sPending := !clock.drops && (if ddr.moves then ddr.rPending else ddr.sPending)
  s := if ddr.pipeStall then ddr.s else ddr.r
  sNxtRow := if !ddr.pipeStall && ddr.rPending then ddr.rNxtRow else ddr.sNxtRow
  sNxtBank := if !ddr.pipeStall && ddr.rPending then ddr.rNxtBank else ddr.sNxtBank
  bankStatus := ddr.nextBankStatus clock
  bankAddress := ddr.nextBankAddress
  busAck0 := !clock.drops && ddr.cmdPipe2
  busAck1 := !clock.drops && ddr.busAck0
  busAck2 := !clock.drops && ddr.busAck1
  wbAck := !clock.drops && ddr.busAck2
  cmdA := ddr.nextCmdA clock
  cmdB := ddr.nextCmdB clock
  cmdC := ddr.nextCmdC clock
  cmdD := ddr.nextCmdD clock

/-- The registers at power-up; those without a value are arbitrary. -/
def initial (r s : Request) (rNxt sNxt : Row × Bank) : WbDdr where
  script := .initial
  refresh := .initial
  maintenanceOverride := true
  maintenanceOp := .noop
  maintenanceArg := 0
  cmdPipe0 := false
  cmdPipe1 := false
  cmdPipe2 := false
  nxtPipe0 := false
  nxtPipe1 := false
  pipeStall := false
  dirStall := false
  wbStall := true
  rPending := false
  r := r
  rNxtRow := rNxt.1
  rNxtBank := rNxt.2
  sPending := false
  s := s
  sNxtRow := sNxt.1
  sNxtBank := sNxt.2
  bankStatus := fun _ => false
  bankAddress := fun _ => 0
  busAck0 := false
  busAck1 := false
  busAck2 := false
  wbAck := false
  cmdA := ⟨false, .mrset, 0⟩
  cmdB := ⟨false, .mrset, 0⟩
  cmdC := ⟨false, .mrset, 0⟩
  cmdD := ⟨false, .mrset, 0⟩

end WbDdr

end ZipVersa.Ddr
