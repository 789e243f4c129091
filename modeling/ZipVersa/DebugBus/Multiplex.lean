import ZipVersa.DebugBus.SixBit
import ZipVersa.DebugBus.UFifo

/-! The transmit side that the bus and the console share: the output register of
`wbuconsole`, and the `ufifo` of `wbconsole` in front of it. -/

set_option autoImplicit false

namespace ZipVersa.DebugBus

open Lib

/-- A character of the bus as it goes out. -/
def busByte (char : BitVec 7) : Byte := (1 : BitVec 1) ++ char

def consoleByte (char : BitVec 7) : Byte := (0 : BitVec 1) ++ char

/-- The character in a byte with bit 7 set. -/
def busChar (byte : Byte) : Option (BitVec 7) :=
  if byte.getLsbD 7 then some (byte.setWidth 7) else none

/-- The character in a byte with bit 7 clear. -/
def consoleChar (byte : Byte) : Option (BitVec 7) :=
  if byte.getLsbD 7 then none else some (byte.setWidth 7)

@[simp] theorem busChar_busByte (char : BitVec 7) : busChar (busByte char) = some char := by
  revert char
  decide +kernel

@[simp] theorem busChar_consoleByte (char : BitVec 7) : busChar (consoleByte char) = none := by
  revert char
  decide +kernel

@[simp] theorem consoleChar_busByte (char : BitVec 7) : consoleChar (busByte char) = none := by
  revert char
  decide +kernel

@[simp] theorem consoleChar_consoleByte (char : BitVec 7) :
    consoleChar (consoleByte char) = some char := by
  revert char
  decide +kernel

/-- The output register of `wbuconsole`. -/
structure Outlet where
  psFull : Bool
  psData : Byte

namespace Outlet

structure Clock where
  wbuTxStb : Bool
  wbuTxData : Byte
  iConsoleStb : Bool
  iConsoleData : BitVec 7
  iTxBusy : Bool

def step (outlet : Outlet) (clock : Clock) : Outlet :=
  if !outlet.psFull then
    if clock.wbuTxStb then ⟨true, busByte (clock.wbuTxData.setWidth 7)⟩
    else if clock.iConsoleStb then ⟨true, consoleByte clock.iConsoleData⟩
    else outlet
  else if !clock.iTxBusy then { outlet with psFull := false }
  else outlet

def oConsoleBusy (outlet : Outlet) (clock : Clock) : Bool := clock.wbuTxStb || outlet.psFull

/-- The character that `wbuoutput`, which is shown `ps_full`, has handed over. -/
def takesBus (outlet : Outlet) (clock : Clock) : List (BitVec 7) :=
  if clock.wbuTxStb && !outlet.psFull then [clock.wbuTxData.setWidth 7] else []

/-- The character that the console, which is shown `o_console_busy`, has handed over. -/
def takesConsole (outlet : Outlet) (clock : Clock) : List (BitVec 7) :=
  if clock.iConsoleStb && !outlet.oConsoleBusy clock then [clock.iConsoleData] else []

/-- The byte that the transmitter takes. -/
def sends (outlet : Outlet) (clock : Clock) : List Byte :=
  if outlet.psFull && !clock.iTxBusy then [outlet.psData] else []

def held (outlet : Outlet) : List Byte := if outlet.psFull then [outlet.psData] else []

def takes (outlet : Outlet) (clock : Clock) : List Byte :=
  (outlet.takesBus clock).map busByte ++ (outlet.takesConsole clock).map consoleByte

/-- At most one of the two is taken, and only into an empty register. -/
theorem held_step (outlet : Outlet) (clock : Clock) :
    outlet.held ++ outlet.takes clock = outlet.sends clock ++ (outlet.step clock).held := by
  obtain ⟨psFull, psData⟩ := outlet
  cases psFull with
  | true =>
      cases busy : clock.iTxBusy with
      | true => simp [held, takes, takesBus, takesConsole, oConsoleBusy, sends, step, busy]
      | false => simp [held, takes, takesBus, takesConsole, oConsoleBusy, sends, step, busy]
  | false =>
      cases bus : clock.wbuTxStb with
      | true => simp [held, takes, takesBus, takesConsole, oConsoleBusy, sends, step, bus]
      | false =>
          cases console : clock.iConsoleStb with
          | true =>
              simp [held, takes, takesBus, takesConsole, oConsoleBusy, sends, step, bus, console]
          | false =>
              simp [held, takes, takesBus, takesConsole, oConsoleBusy, sends, step, bus, console]

theorem conveys : Conveys step (fun _ _ => True) takes sends fun outlet items =>
    items = outlet.held := by
  rintro outlet clock items rfl -
  exact ⟨_, outlet.held_step clock, rfl⟩

theorem busChar_takes (outlet : Outlet) (clock : Clock) :
    (outlet.takes clock).filterMap busChar = outlet.takesBus clock := by
  rw [takes, List.filterMap_append, takesBus, takesConsole]
  split <;> split <;> simp

theorem consoleChar_takes (outlet : Outlet) (clock : Clock) :
    (outlet.takes clock).filterMap consoleChar = outlet.takesConsole clock := by
  rw [takes, List.filterMap_append, takesBus, takesConsole]
  split <;> split <;> simp

/-- The bytes sent, and the one about to be, split by bit 7. -/
structure Carries (outlet : Outlet) (clocks : List Clock) : Prop where
  bus : (observed step sends outlet clocks ++ (clocked step outlet clocks).held).filterMap busChar =
    observed step takesBus outlet clocks
  console : (observed step sends outlet clocks ++
      (clocked step outlet clocks).held).filterMap consoleChar =
    observed step takesConsole outlet clocks

theorem empty_carries (psData : Byte) (clocks : List Clock) : Carries ⟨false, psData⟩ clocks := by
  have none : [] = held ⟨false, psData⟩ := rfl
  obtain ⟨_, order, rfl⟩ :=
    conveys.run none (along_of_all (fun _ _ => trivial) (Outlet.mk false psData) clocks)
  rw [List.nil_append] at order
  constructor
  · rw [← order, ← observed_filterMap]
    simp only [busChar_takes]
  · rw [← order, ← observed_filterMap]
    simp only [consoleChar_takes]

end Outlet

/-- `txfifo` of `wbconsole` in front of the register. -/
structure WbConsole (lg : Nat) where
  txfifo : UFifo lg (BitVec 7)
  outlet : Outlet

namespace WbConsole

variable {lg : Nat}

/-- The wires at a clock: what `wbuoutput` and the registers behind the Wishbone bus
of `wbconsole` offer. -/
structure Clock where
  wbuTxStb : Bool
  wbuTxData : Byte
  txUartReset : Bool
  txfWbWrite : Bool
  txfWbData : BitVec 7
  iTxBusy : Bool

/-- `o_uart_stb` is `tx_empty_n`. -/
def outletClock (console : WbConsole lg) (clock : Clock) : Outlet.Clock :=
  ⟨clock.wbuTxStb, clock.wbuTxData, console.txfifo.oEmptyN, console.txfifo.oData, clock.iTxBusy⟩

/-- `(!i_uart_busy)&&(tx_empty_n)` reads the queue. -/
def fifoClock (console : WbConsole lg) (clock : Clock) : UFifo.Clock (BitVec 7) :=
  ⟨clock.txfWbWrite, clock.txfWbData,
    !console.outlet.oConsoleBusy (console.outletClock clock) && console.txfifo.oEmptyN⟩

def step (console : WbConsole lg) (clock : Clock) : WbConsole lg where
  txfifo :=
    if clock.txUartReset then console.txfifo.reset false (console.fifoClock clock)
    else console.txfifo.step false (console.fifoClock clock)
  outlet := console.outlet.step (console.outletClock clock)

def takesConsole (console : WbConsole lg) (clock : Clock) : List (BitVec 7) :=
  console.outlet.takesConsole (console.outletClock clock)

/-- The characters written that the queue has room for. -/
def queues (console : WbConsole lg) (clock : Clock) : List (BitVec 7) :=
  console.txfifo.takes (console.fifoClock clock)

/-- The queue takes its character to be sent just when the register takes it. -/
theorem gives_eq (console : WbConsole lg) (clock : Clock) :
    console.txfifo.gives (console.fifoClock clock) = console.takesConsole clock := by
  have ready : ((console.fifoClock clock).iRd && console.txfifo.oEmptyN) =
      ((console.outletClock clock).iConsoleStb &&
        !console.outlet.oConsoleBusy (console.outletClock clock)) := by
    change ((_ && console.txfifo.oEmptyN) && console.txfifo.oEmptyN) = (console.txfifo.oEmptyN && _)
    rw [Bool.and_assoc, Bool.and_self, Bool.and_comm]
  rw [UFifo.gives, takesConsole, Outlet.takesConsole, ready]
  rfl

/-- A console after a reset of the queue, with nothing in the register. -/
def reset (txfifo : UFifo lg (BitVec 7)) (start : UFifo.Clock (BitVec 7)) (psData : Byte) :
    WbConsole lg :=
  ⟨txfifo.reset false start, ⟨false, psData⟩⟩

theorem queue_conveys (places : 4 ≤ 2 ^ lg) : Conveys step
    (fun (_ : WbConsole lg) (clock : Clock) => clock.txUartReset = false) queues takesConsole
    fun console unread => ∃ count, console.txfifo.Sound false count ∧
      unread = console.txfifo.queue count := by
  intro console clock unread holds running
  obtain ⟨left, order, kept⟩ := UFifo.conveys false places console.txfifo
    (console.fifoClock clock) unread holds trivial
  refine ⟨left, ?_, ?_⟩
  · rw [← gives_eq]
    exact order
  · rw [step, running]
    exact kept

/-- What the register is offered in a run. -/
def offered (console : WbConsole lg) (clocks : List Clock) : List Outlet.Clock :=
  observed step (fun console clock => [console.outletClock clock]) console clocks

theorem takesConsole_offered (console : WbConsole lg) (clocks : List Clock) :
    observed step takesConsole console clocks =
      observed Outlet.step Outlet.takesConsole console.outlet (offered console clocks) := by
  induction clocks generalizing console with
  | nil => rfl
  | cons clock clocks ih =>
      rw [observed, ih]
      rfl

/-- Without a reset of the queue, the characters it has had room for are those the
register has taken, and those in the queue. -/
theorem reset_queues (txfifo : UFifo lg (BitVec 7)) (start : UFifo.Clock (BitVec 7))
    (psData : Byte) (some : 2 ≤ lg) {clocks : List Clock}
    (running : ∀ clock ∈ clocks, clock.txUartReset = false) :
    ∃ unread, observed step queues (reset txfifo start psData) clocks =
      observed Outlet.step Outlet.takesConsole ⟨false, psData⟩
          (offered (reset txfifo start psData) clocks) ++ unread ∧
        (clocked step (reset txfifo start psData) clocks).txfifo.Presents false unread := by
  have places : 4 ≤ 2 ^ lg := by
    calc 4 = 2 ^ 2 := rfl
      _ ≤ 2 ^ lg := Nat.pow_le_pow_right (by decide) some
  have holds : ∃ count, (reset txfifo start psData).txfifo.Sound false count ∧
      [] = (reset txfifo start psData).txfifo.queue count :=
    ⟨0, UFifo.reset_sound places false txfifo start, rfl⟩
  obtain ⟨unread, order, count, last, rfl⟩ :=
    (queue_conveys places).run holds (along_of_inputs running _)
  rw [List.nil_append, takesConsole_offered] at order
  exact ⟨_, order, last.presents⟩

end WbConsole

end ZipVersa.DebugBus
