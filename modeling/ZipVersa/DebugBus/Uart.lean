import Mathlib.Tactic.Common

/-! `txuartlite` and `rxuartlite`, for timers of any width. -/

set_option autoImplicit false

namespace ZipVersa.DebugBus

/-! ### The transmitter -/

def txulBitZero : BitVec 4 := 0x0
def txulStop : BitVec 4 := 0x8
def txulIdle : BitVec 4 := 0xf

structure TxUart (timingBits : Nat) where
  baudCounter : BitVec timingBits
  state : BitVec 4
  lclData : BitVec 8
  rBusy : Bool
  zeroBaudCounter : Bool
  oUartTx : Bool
  deriving DecidableEq, Repr

/-- What is offered to the transmitter at a clock. -/
structure UartWrite where
  iWr : Bool
  iData : BitVec 8
  deriving DecidableEq, Repr

namespace TxUart

variable {timingBits : Nat}

/-- The registers as they are initialised. -/
def initial : TxUart timingBits where
  baudCounter := 0
  state := txulIdle
  lclData := 0xff
  rBusy := true
  zeroBaudCounter := true
  oUartTx := true

def oBusy (uart : TxUart timingBits) : Bool := uart.rBusy

/-- `(i_wr)&&(!r_busy)`. -/
def takes (uart : TxUart timingBits) (write : UartWrite) : Bool := write.iWr && !uart.rBusy

/-- One rising edge. -/
def step (clocksPerBaud : BitVec timingBits) (uart : TxUart timingBits) (write : UartWrite) :
    TxUart timingBits where
  rBusy :=
    if !uart.zeroBaudCounter then true
    else if txulStop < uart.state then uart.takes write
    else true
  state :=
    if !uart.zeroBaudCounter then uart.state
    else if txulStop < uart.state then (if uart.takes write then txulBitZero else txulIdle)
    else uart.state + 1
  lclData :=
    if uart.takes write then write.iData
    else if uart.zeroBaudCounter then (1 : BitVec 1) ++ uart.lclData.extractLsb' 1 7
    else uart.lclData
  oUartTx :=
    if uart.takes write then false
    else if uart.zeroBaudCounter then uart.lclData.getLsbD 0
    else uart.oUartTx
  zeroBaudCounter :=
    if uart.state == txulIdle then !uart.takes write
    else if uart.zeroBaudCounter && uart.state == 0x9 then true
    else uart.baudCounter == 1
  baudCounter :=
    if uart.state == txulIdle then (if uart.takes write then clocksPerBaud - 1 else 0)
    else if uart.zeroBaudCounter && uart.state == 0x9 then 0
    else if !uart.zeroBaudCounter then uart.baudCounter - 1
    else clocksPerBaud - 1

end TxUart

/-! ### The receiver -/

def rxulBitZero : BitVec 4 := 0x0
def rxulStop : BitVec 4 := 0x8
def rxulWait : BitVec 4 := 0x9
def rxulIdle : BitVec 4 := 0xf

structure RxUart (timerBits : Nat) where
  qUart : Bool
  qqUart : Bool
  ckUart : Bool
  chgCounter : BitVec timerBits
  halfBaudTime : Bool
  state : BitVec 4
  dataReg : BitVec 8
  oWr : Bool
  oData : BitVec 8
  baudCounter : BitVec timerBits
  zeroBaudCounter : Bool
  deriving DecidableEq, Repr

namespace RxUart

variable {timerBits : Nat}

/-- The registers as they are initialised; `data_reg` is not. -/
def initial (dataReg : BitVec 8) : RxUart timerBits where
  qUart := true
  qqUart := true
  ckUart := true
  chgCounter := BitVec.allOnes timerBits
  halfBaudTime := false
  state := rxulIdle
  dataReg := dataReg
  oWr := false
  oData := 0
  baudCounter := 0
  zeroBaudCounter := true

def halfBaud (clocksPerBaud : BitVec timerBits) : BitVec timerBits := clocksPerBaud >>> 1

/-- The middle of a start bit. -/
def starts (uart : RxUart timerBits) : Bool :=
  uart.state == rxulIdle && !uart.ckUart && uart.halfBaudTime

/-- The end of a stop bit. -/
def stops (uart : RxUart timerBits) : Bool :=
  uart.zeroBaudCounter && uart.state == rxulStop && uart.ckUart

/-- One rising edge. -/
def step (clocksPerBaud : BitVec timerBits) (uart : RxUart timerBits) (iUartRx : Bool) :
    RxUart timerBits where
  qUart := iUartRx
  qqUart := uart.qUart
  ckUart := uart.qqUart
  chgCounter :=
    if uart.qqUart != uart.ckUart then 0
    else if uart.chgCounter != BitVec.allOnes timerBits then uart.chgCounter + 1
    else uart.chgCounter
  halfBaudTime := !uart.ckUart && decide (halfBaud clocksPerBaud - 1 - 1 ≤ uart.chgCounter)
  state :=
    if uart.state == rxulIdle then (if uart.starts then rxulBitZero else rxulIdle)
    else if rxulWait ≤ uart.state && uart.ckUart then rxulIdle
    else if uart.zeroBaudCounter && decide (uart.state ≤ rxulStop) then uart.state + 1
    else uart.state
  dataReg :=
    if uart.zeroBaudCounter && uart.state != rxulStop then
      BitVec.ofBool uart.qqUart ++ uart.dataReg.extractLsb' 1 7
    else uart.dataReg
  oWr := uart.stops
  oData := if uart.stops then uart.dataReg else uart.oData
  baudCounter :=
    if uart.starts then clocksPerBaud - 1
    else if uart.state == rxulWait then 0
    else if uart.zeroBaudCounter && uart.state < rxulStop then clocksPerBaud - 1
    else if !uart.zeroBaudCounter then uart.baudCounter - 1
    else uart.baudCounter
  zeroBaudCounter :=
    if uart.starts then false
    else if uart.state == rxulWait then true
    else if uart.zeroBaudCounter && uart.state < rxulStop then false
    else if uart.baudCounter == 1 then true
    else uart.zeroBaudCounter

end RxUart

/-! ### The link -/

/-- The transmitter's line wired to the receiver. -/
structure SerialLink (timingBits timerBits : Nat) where
  tx : TxUart timingBits
  rx : RxUart timerBits
  deriving DecidableEq, Repr

namespace SerialLink

variable {timingBits timerBits : Nat}

def initial (dataReg : BitVec 8) : SerialLink timingBits timerBits := ⟨.initial, .initial dataReg⟩

/-- One rising edge, with the two settings of `CLOCKS_PER_BAUD`. -/
def step (sender : BitVec timingBits) (receiver : BitVec timerBits)
    (link : SerialLink timingBits timerBits) (write : UartWrite) : SerialLink timingBits timerBits where
  tx := link.tx.step sender write
  rx := link.rx.step receiver link.tx.oUartTx

/-- The byte the transmitter takes at a clock. -/
def accepted (link : SerialLink timingBits timerBits) (write : UartWrite) : Option (BitVec 8) :=
  if write.iWr && !link.tx.oBusy then some write.iData else none

/-- The byte the receiver delivers at a clock. -/
def delivered (link : SerialLink timingBits timerBits) : Option (BitVec 8) :=
  if link.rx.oWr then some link.rx.oData else none

end SerialLink

end ZipVersa.DebugBus
