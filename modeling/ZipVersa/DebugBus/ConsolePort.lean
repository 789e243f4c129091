import ZipVersa.DebugBus.UFifo

/-! `wbconsole` with its Wishbone side: the characters of the host as the software
reads them. -/

set_option autoImplicit false

namespace ZipVersa.DebugBus

open Lib

def uartSetup : BitVec 2 := 0

def uartFifo : BitVec 2 := 1

def uartRxreg : BitVec 2 := 2

def uartTxreg : BitVec 2 := 3

/-- The inputs at a clock, without `i_wb_cyc`, which is not used. -/
structure PortClock where
  iRst : Bool
  iWbStb : Bool
  iWbWe : Bool
  iWbAddr : BitVec 2
  iWbData : BitVec 32
  iUartBusy : Bool
  iUartStb : Bool
  iUartData : BitVec 7
  deriving DecidableEq

namespace PortClock

variable (clock : PortClock)

/-- A write to a register. -/
def writes (addr : BitVec 2) : Bool := clock.iWbStb && clock.iWbAddr == addr && clock.iWbWe

/-- Nothing resets the receiver. -/
def KeepsRx : Prop :=
  clock.iRst = false ∧ clock.writes uartSetup = false ∧
    (clock.writes uartRxreg = true → clock.iWbData.getLsbD 12 = false)

instance : Decidable clock.KeepsRx := inferInstanceAs (Decidable (_ ∧ _ ∧ (_ → _)))

end PortClock

/-- `wbconsole`; `lg` is `LGFLEN`, from two to ten, and so is `LCLLGFLEN`. -/
structure ConsolePort (lg : Nat) where
  rxfifo : UFifo lg (BitVec 7)
  rxfWbRead : Bool
  rxUartReset : Bool
  txfifo : UFifo lg (BitVec 7)
  txfWbWrite : Bool
  txfWbData : BitVec 7
  txUartReset : Bool
  rWbAddr : BitVec 2
  rWbAck : Bool
  oWbAck : Bool
  oWbData : BitVec 32

namespace ConsolePort

variable {lg : Nat}

/-- The wires of `rxfifo`. -/
def rxClock (port : ConsolePort lg) (clock : PortClock) : UFifo.Clock (BitVec 7) where
  iWr := clock.iUartStb
  iData := clock.iUartData
  iRd := port.rxfWbRead

/-- The wires of `txfifo`. -/
def txClock (port : ConsolePort lg) (clock : PortClock) : UFifo.Clock (BitVec 7) where
  iWr := port.txfWbWrite
  iData := port.txfWbData
  iRd := !clock.iUartBusy && port.txfifo.oEmptyN

def wbRxData (port : ConsolePort lg) : BitVec 32 :=
  0#16 ++ 0#3 ++ BitVec.ofBool port.rxfifo.oErr ++ 0#3 ++ BitVec.ofBool (!port.rxfifo.oEmptyN) ++
    0#1 ++ port.rxfifo.oData

def wbTxData (port : ConsolePort lg) (clock : PortClock) : BitVec 32 :=
  let busy := clock.iUartBusy || port.txfifo.oEmptyN
  0#16 ++ 0#1 ++ (port.txfifo.oStatus false).extractLsb' 0 2 ++ BitVec.ofBool port.txfifo.oErr ++
    0#1 ++ BitVec.ofBool port.txfifo.oEmptyN ++ 0#1 ++ BitVec.ofBool busy ++ 0#1 ++
    (if busy then port.txfWbData else 0#7)

def wbFifoData (port : ConsolePort lg) : BitVec 32 :=
  port.txfifo.oStatus false ++ port.rxfifo.oStatus true

/-- One rising edge. -/
def step (port : ConsolePort lg) (clock : PortClock) : ConsolePort lg where
  rxfifo :=
    if clock.iRst || port.rxUartReset then port.rxfifo.reset true (port.rxClock clock)
    else port.rxfifo.step true (port.rxClock clock)
  rxfWbRead := clock.iWbStb && clock.iWbAddr == uartRxreg && !clock.iWbWe
  rxUartReset :=
    if clock.iRst || clock.writes uartSetup then true
    else if clock.writes uartRxreg then clock.iWbData.getLsbD 12
    else false
  txfifo :=
    if port.txUartReset then port.txfifo.reset false (port.txClock clock)
    else port.txfifo.step false (port.txClock clock)
  txfWbWrite := clock.writes uartTxreg
  txfWbData := clock.iWbData.setWidth 7
  txUartReset :=
    if clock.iRst || clock.writes uartSetup then true
    else if clock.writes uartTxreg then clock.iWbData.getLsbD 12
    else false
  rWbAddr := clock.iWbAddr
  rWbAck := clock.iWbStb
  oWbAck := port.rWbAck
  oWbData :=
    if port.rWbAddr = uartSetup then 0
    else if port.rWbAddr = uartFifo then port.wbFifoData
    else if port.rWbAddr = uartRxreg then port.wbRxData
    else port.wbTxData clock

/-- The character of the host that the queue takes in at a clock. -/
def takes (port : ConsolePort lg) (clock : PortClock) : List (BitVec 7) :=
  port.rxfifo.takes (port.rxClock clock)

/-- The character that a read of `UART_RXREG` is answered with, in the word behind
this clock: none if the word says that there is none. -/
def replies (port : ConsolePort lg) (clock : PortClock) : List (BitVec 7) :=
  if port.rxfWbRead && !(port.step clock).oWbData.getLsbD 8 then
    [(port.step clock).oWbData.extractLsb' 0 7]
  else []

/-- A read of the queue is on its way to the bus. -/
structure Serving (port : ConsolePort lg) : Prop where
  acked : port.rxfWbRead = true → port.rWbAck = true
  addr : port.rxfWbRead = true → port.rWbAddr = uartRxreg

variable {port : ConsolePort lg} {clock : PortClock}

theorem step_serving (port : ConsolePort lg) (clock : PortClock) : (port.step clock).Serving := by
  refine ⟨fun read => ?_, fun read => ?_⟩ <;>
    simp only [step, Bool.and_eq_true, beq_iff_eq] at read ⊢
  · exact read.1.1
  · exact read.1.2

theorem wbRxData_empty (port : ConsolePort lg) :
    port.wbRxData.getLsbD 8 = !port.rxfifo.oEmptyN := by
  simp only [wbRxData]
  rw [BitVec.getLsbD_append, if_neg (by decide), BitVec.getLsbD_append, if_neg (by decide),
    BitVec.getLsbD_append, if_pos (by decide)]
  cases port.rxfifo.oEmptyN <;> rfl

theorem wbRxData_data (port : ConsolePort lg) :
    port.wbRxData.extractLsb' 0 7 = port.rxfifo.oData :=
  BitVec.extractLsb'_append_eq_right

/-- A read is answered with what it takes off the queue, and acknowledged. -/
theorem Serving.replies_eq (serving : port.Serving) (clock : PortClock) :
    port.replies clock = port.rxfifo.gives (port.rxClock clock) ∧
      (port.rxfWbRead = true → (port.step clock).oWbAck = true) := by
  refine ⟨?_, serving.acked⟩
  cases read : port.rxfWbRead with
  | false => simp [replies, UFifo.gives, rxClock, read]
  | true =>
      have addr := serving.addr read
      have data : (port.step clock).oWbData = port.wbRxData := by
        have notSetup : uartRxreg ≠ uartSetup := by decide
        have notFifo : uartRxreg ≠ uartFifo := by decide
        simp [step, addr, notSetup, notFifo]
      rw [replies, read, data, wbRxData_empty, wbRxData_data, Bool.not_not, UFifo.gives, rxClock, read]

theorem step_rxUartReset (keeps : clock.KeepsRx) : (port.step clock).rxUartReset = false := by
  obtain ⟨reset, setup, mark⟩ := keeps
  cases write : clock.writes uartRxreg with
  | false => simp [step, reset, setup, write]
  | true =>
      have low := mark write
      simp only [step, reset, setup, write]
      simpa using low

/-- What the registers hold between two clocks. -/
structure Holding (port : ConsolePort lg) (unread : List (BitVec 7)) : Prop where
  serving : port.Serving
  open' : port.rxUartReset = false
  queue : ∃ count, port.rxfifo.Sound true count ∧ unread = port.rxfifo.queue count

/-- The characters of the host are conveyed to the bus. -/
theorem port_conveys (places : 4 ≤ 2 ^ lg) :
    Conveys step (fun _ (clock : PortClock) => clock.KeepsRx) takes replies
      (Holding : ConsolePort lg → List (BitVec 7) → Prop) := by
  intro port clock unread holding keeps
  obtain ⟨serving, calm, queue⟩ := holding
  obtain ⟨left, order, kept⟩ := UFifo.conveys true places port.rxfifo (port.rxClock clock) unread
    queue trivial
  have fifo : (port.step clock).rxfifo = port.rxfifo.step true (port.rxClock clock) := by
    simp [step, keeps.1, calm]
  refine ⟨left, ?_, step_serving port clock, step_rxUartReset keeps, ?_⟩
  · rw [(serving.replies_eq clock).1]
    exact order
  · rw [fifo]
    exact kept

/-- Behind a reset of the receiver, as long as there is no other: the reads of
`UART_RXREG` are answered with the characters that the queue has taken in, in
their order, each once; the rest is in the queue and is presented. -/
theorem console_reads (some : 2 ≤ lg) {port : ConsolePort lg} {start : PortClock}
    {clocks : List PortClock} (reset : port.rxUartReset = true) (kept : start.KeepsRx)
    (keeps : ∀ clock ∈ clocks, clock.KeepsRx) :
    ∃ unread, observed step takes (port.step start) clocks =
        observed step replies (port.step start) clocks ++ unread ∧
      (clocked step (port.step start) clocks).rxfifo.Presents true unread := by
  have places : 4 ≤ 2 ^ lg := by
    calc 4 = 2 ^ 2 := rfl
      _ ≤ 2 ^ lg := Nat.pow_le_pow_right (by decide) some
  have fifo : (port.step start).rxfifo = port.rxfifo.reset true (port.rxClock start) := by
    simp [step, reset]
  have sound : (port.step start).rxfifo.Sound true 0 := by
    rw [fifo]
    exact UFifo.reset_sound places true port.rxfifo (port.rxClock start)
  have fresh : (port.step start).Holding [] :=
    ⟨step_serving port start, step_rxUartReset kept, 0, sound, rfl⟩
  obtain ⟨unread, order, last⟩ := (port_conveys places).run fresh (along_of_inputs keeps _)
  obtain ⟨count, sound', rfl⟩ := last.queue
  exact ⟨_, order, sound'.presents⟩

/-- The receiver in reset. -/
def blankPort : ConsolePort 6 where
  rxfifo := ⟨fun _ => 0, 0, 0, 1, false, false, true, 0, 0, 0, 0, false, 0⟩
  rxfWbRead := false
  rxUartReset := true
  txfifo := ⟨fun _ => 0, 0, 0, 1, false, false, true, 0, 0, 0, 0, false, 0⟩
  txfWbWrite := false
  txfWbData := 0
  txUartReset := true
  rWbAddr := 0
  rWbAck := false
  oWbAck := false
  oWbData := 0

/-- A clock without a bus request. -/
def heard (char : Option (BitVec 7)) : PortClock :=
  ⟨false, false, false, 0, 0, false, char.isSome, char.getD 0⟩

def readRx : PortClock := ⟨false, true, false, uartRxreg, 0, false, false, 0⟩

/-- Two characters come in, and three reads are made. -/
def threeReads : List PortClock :=
  [heard (.some 0x41), heard (.some 0x42), readRx, readRx, readRx, heard none]

theorem threeReads_answered :
    ∃ unread, observed step takes (blankPort.step (heard none)) threeReads =
        observed step replies (blankPort.step (heard none)) threeReads ++ unread ∧
      (clocked step (blankPort.step (heard none)) threeReads).rxfifo.Presents true unread :=
  console_reads (by decide) rfl (by decide) (by decide)

example : observed step replies (blankPort.step (heard none)) threeReads = [0x41, 0x42] := by decide

end ConsolePort

end ZipVersa.DebugBus
