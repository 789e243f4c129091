import ZipVersa.DebugBus.Uart
import Mathlib.Tactic.IntervalCases

/-! What the two ends of the serial link do from one clock to the next: a transmitter
`Idle` or `Sending` a bit, a receiver `Waiting`, `Receiving` a bit or `Delivering`. -/

set_option autoImplicit false

namespace ZipVersa.DebugBus

/-! ### Counters and shift registers -/

theorem one_toNat {width : Nat} (wide : 1 < 2 ^ width) : (1 : BitVec width).toNat = 1 := by
  change (BitVec.ofNat width 1).toNat = 1
  rw [BitVec.toNat_ofNat, Nat.mod_eq_of_lt wide]

theorem wide_of_slow {width : Nat} {value : BitVec width} (slow : 1 < value.toNat) :
    1 < 2 ^ width :=
  Nat.lt_trans slow value.isLt

theorem beq_one {width : Nat} (wide : 1 < 2 ^ width) (count : BitVec width) :
    (count == 1) = decide (count.toNat = 1) := by
  rw [Bool.eq_iff_iff, beq_iff_eq, decide_eq_true_eq, ← BitVec.toNat_inj, one_toNat wide]

theorem pred_toNat {width : Nat} {count : BitVec width} (wide : 1 < 2 ^ width)
    (positive : 0 < count.toNat) : (count - 1).toNat = count.toNat - 1 := by
  have one := one_toNat wide
  rw [BitVec.toNat_sub_of_le (by rw [BitVec.le_def]; omega), one]

/-- A shift register takes its bit in at the top. -/
theorem shifted_getLsbD (top : Bool) (data : BitVec 8) {place : Nat} (inside : place < 8) :
    (BitVec.ofBool top ++ data.extractLsb' 1 7 : BitVec 8).getLsbD place =
      if place < 7 then data.getLsbD (place + 1) else top := by
  simp only [BitVec.getLsbD_append, BitVec.getLsbD_extractLsb', BitVec.getLsbD_ofBool]
  interval_cases place <;> simp

/-- The line at a bit of a frame: start bit, data bits, then the stop bit. -/
def frameBit (byte : BitVec 8) : Nat → Bool
  | 0 => false
  | index + 1 => if index < 8 then byte.getLsbD index else true

theorem frameBit_late (byte : BitVec 8) {index : Nat} (late : 9 ≤ index) :
    frameBit byte index = true := by
  obtain ⟨before, rfl⟩ : ∃ before, index = before + 1 := ⟨index - 1, by omega⟩
  rw [frameBit, if_neg (by omega)]

/-! ### The transmitter -/

namespace TxUart

variable {timingBits : Nat} {clocksPerBaud : BitVec timingBits} {uart : TxUart timingBits}
  {write : UartWrite} {byte : BitVec 8} {bit since : Nat}

/-- Nothing is being sent. -/
structure Idle (uart : TxUart timingBits) : Prop where
  state : uart.state = txulIdle
  zero : uart.zeroBaudCounter = true
  line : uart.oUartTx = true
  data : ∀ place < 8, uart.lclData.getLsbD place = true

/-- A bit of a frame has been on the line for `since` clocks. -/
structure Sending (uart : TxUart timingBits) (clocksPerBaud : BitVec timingBits) (byte : BitVec 8)
    (bit since : Nat) : Prop where
  state : uart.state = BitVec.ofNat 4 bit
  baud : uart.baudCounter.toNat + since + 1 = clocksPerBaud.toNat
  zero : uart.zeroBaudCounter = decide (since + 1 = clocksPerBaud.toNat)
  busy : uart.rBusy = true
  line : uart.oUartTx = frameBit byte bit
  data : ∀ place < 8, uart.lclData.getLsbD place = frameBit byte (bit + 1 + place)

theorem initial_idle : Idle (initial : TxUart timingBits) where
  state := rfl
  zero := rfl
  line := rfl
  data := fun place inside => by simp only [initial]; interval_cases place <;> rfl

/-- With the baud counter at zero the next data bit is on its way. -/
theorem shifts_data (zero : uart.zeroBaudCounter = true) (free : uart.takes write = false)
    (data : ∀ place < 8, uart.lclData.getLsbD place = frameBit byte (bit + 1 + place))
    (place : Nat) (inside : place < 8) :
    (uart.step clocksPerBaud write).lclData.getLsbD place =
      frameBit byte (bit + 1 + 1 + place) := by
  have next : (uart.step clocksPerBaud write).lclData =
      BitVec.ofBool true ++ uart.lclData.extractLsb' 1 7 := by
    simp only [step, free, zero, Bool.false_eq_true, if_false, if_true]
    rfl
  rw [next, shifted_getLsbD true _ inside]
  split
  · rw [data (place + 1) (by omega)]
    congr 1
    omega
  · rw [frameBit_late byte (by omega)]

theorem Idle.waits (idle : uart.Idle) (free : uart.takes write = false) :
    (uart.step clocksPerBaud write).Idle where
  state := by simp [step, idle.state, idle.zero, free, txulIdle, txulStop]
  zero := by simp [step, idle.state, free]
  line := by
    have low := idle.data 0 (by omega)
    simpa [step, idle.zero, free] using low
  data := by
    intro place inside
    have ones : ∀ place < 8, uart.lclData.getLsbD place = frameBit 0 (8 + 1 + place) := by
      intro place inside
      rw [idle.data place inside, frameBit_late 0 (by omega)]
    rw [shifts_data idle.zero free ones place inside, frameBit_late 0 (by omega)]

/-- A write starts a frame. -/
theorem Idle.accepts (idle : uart.Idle) (taken : uart.takes write = true)
    (slow : 1 < clocksPerBaud.toNat) :
    (uart.step clocksPerBaud write).Sending clocksPerBaud write.iData 0 0 where
  state := by simp [step, idle.state, idle.zero, taken, txulIdle, txulStop, txulBitZero]
  baud := by
    have wide := wide_of_slow (show 1 < clocksPerBaud.toNat by omega)
    simp only [step, idle.state, taken, beq_self_eq_true, if_true]
    rw [pred_toNat wide (by omega)]
    omega
  zero := by
    have early : ¬ 0 + 1 = clocksPerBaud.toNat := by omega
    simp [step, idle.state, taken, early]
  busy := by simp [step, idle.state, idle.zero, taken, txulIdle, txulStop]
  line := by simp [step, taken, frameBit]
  data := by
    intro place inside
    rw [Nat.zero_add, Nat.add_comm, frameBit, if_pos inside]
    simp [step, taken]

theorem Sending.free (sending : uart.Sending clocksPerBaud byte bit since) :
    uart.takes write = false := by
  rw [takes, sending.busy, Bool.not_true, Bool.and_false]

/-- The states of a frame are below the idle state. -/
theorem Sending.notIdle (sending : uart.Sending clocksPerBaud byte bit since) (few : bit ≤ 9) :
    (uart.state == txulIdle) = false := by
  rw [sending.state]
  interval_cases bit <;> rfl

theorem Sending.hold (sending : uart.Sending clocksPerBaud byte bit since) (few : bit ≤ 9)
    (more : since + 1 < clocksPerBaud.toNat) :
    (uart.step clocksPerBaud write).Sending clocksPerBaud byte bit (since + 1) := by
  have wide := wide_of_slow (show 1 < clocksPerBaud.toNat by omega)
  have baud := sending.baud
  have counting : uart.zeroBaudCounter = false := by
    rw [sending.zero, decide_eq_false_iff_not]
    omega
  have busy := sending.notIdle few
  constructor
  · simp [step, counting, sending.state]
  · simp only [step, busy, counting, Bool.false_and, Bool.not_false, Bool.false_eq_true, if_false,
      if_true]
    rw [pred_toNat wide (by omega)]
    omega
  · simp only [step, busy, counting, Bool.false_and, Bool.false_eq_true, if_false]
    rw [beq_one wide, decide_eq_decide]
    omega
  · simp [step, counting]
  · simp [step, counting, sending.free, sending.line]
  · intro place inside
    simp [step, counting, sending.free, sending.data place inside]

theorem Sending.turn (sending : uart.Sending clocksPerBaud byte bit since) (few : bit < 9)
    (last : since + 1 = clocksPerBaud.toNat) (slow : 1 < clocksPerBaud.toNat) :
    (uart.step clocksPerBaud write).Sending clocksPerBaud byte (bit + 1) 0 := by
  have wide := wide_of_slow (show 1 < clocksPerBaud.toNat by omega)
  have baud := sending.baud
  have through : uart.zeroBaudCounter = true := by rw [sending.zero, decide_eq_true last]
  have busy := sending.notIdle (by omega)
  have running : (uart.state == 0x9) = false := by
    rw [sending.state]
    interval_cases bit <;> rfl
  have framed : ¬ txulStop < uart.state := by
    rw [sending.state]
    interval_cases bit <;> decide
  constructor
  · simp only [step, through, Bool.not_true, Bool.false_eq_true, if_false, sending.state]
    interval_cases bit <;> rfl
  · simp only [step, busy, through, running, Bool.and_false, Bool.not_true, Bool.false_eq_true,
      if_false]
    rw [pred_toNat wide (by omega)]
    omega
  · simp only [step, busy, through, running, Bool.and_false, Bool.false_eq_true, if_false]
    rw [beq_one wide, decide_eq_decide]
    omega
  · simp [step, through, framed]
  · have next := sending.data 0 (by omega)
    simpa [step, through, sending.free] using next
  · exact shifts_data through sending.free sending.data

/-- The stop bit is followed by the idle state. -/
theorem Sending.ends (sending : uart.Sending clocksPerBaud byte 9 since)
    (last : since + 1 = clocksPerBaud.toNat) : (uart.step clocksPerBaud write).Idle := by
  have through : uart.zeroBaudCounter = true := by rw [sending.zero, decide_eq_true last]
  have free : uart.takes write = false := sending.free
  constructor
  · simp [step, through, sending.state, free, txulStop, txulIdle]
  · simp [step, through, sending.state, txulIdle]
  · have next := sending.data 0 (by omega)
    rw [frameBit_late byte (by omega)] at next
    simpa [step, through, free] using next
  · intro place inside
    rw [shifts_data through free sending.data place inside, frameBit_late byte (by omega)]

end TxUart

/-! ### The receiver -/

namespace RxUart

variable {timerBits : Nat} {clocksPerBaud : BitVec timerBits} {uart : RxUart timerBits}
  {line : Bool} {byte : BitVec 8} {bit since : Nat}

/-- No frame is being received. -/
structure Waiting (uart : RxUart timerBits) : Prop where
  state : uart.state = rxulIdle
  baud : uart.baudCounter = 0
  zero : uart.zeroBaudCounter = true
  silent : uart.oWr = false

/-- The line has been idle for long enough. -/
structure Idle (uart : RxUart timerBits) : Prop extends Waiting uart where
  first : uart.qUart = true
  second : uart.qqUart = true
  third : uart.ckUart = true
  half : uart.halfBaudTime = false

/-- A bit is sampled when `since` reaches the end of a bit time. -/
structure Receiving (uart : RxUart timerBits) (clocksPerBaud : BitVec timerBits)
    (byte : BitVec 8) (bit since : Nat) : Prop where
  state : uart.state = BitVec.ofNat 4 bit
  baud : uart.baudCounter.toNat + since + 1 = clocksPerBaud.toNat
  zero : uart.zeroBaudCounter = decide (since + 1 = clocksPerBaud.toNat)
  silent : uart.oWr = false
  data : ∀ index < bit, uart.dataReg.getLsbD (8 - bit + index) = byte.getLsbD index

/-- The byte is delivered. -/
structure Delivering (uart : RxUart timerBits) (byte : BitVec 8) : Prop where
  state : uart.state = rxulWait
  baud : uart.baudCounter = 0
  zero : uart.zeroBaudCounter = true
  wr : uart.oWr = true
  data : uart.oData = byte

theorem initial_idle (dataReg : BitVec 8) : Idle (initial dataReg : RxUart timerBits) where
  state := rfl
  baud := rfl
  zero := rfl
  silent := rfl
  first := rfl
  second := rfl
  third := rfl
  half := rfl

theorem Waiting.waits (waiting : uart.Waiting)
    (early : uart.ckUart = true ∨ uart.halfBaudTime = false) (wide : 1 < 2 ^ timerBits) :
    (uart.step clocksPerBaud line).Waiting := by
  have still : uart.starts = false := by
    rcases early with high | early
    · simp [starts, high]
    · simp [starts, early]
  have counted : (uart.baudCounter == 1) = false := by
    rw [beq_one wide, waiting.baud]
    simp
  constructor
  · simp [step, waiting.state, still]
  · simp [step, waiting.state, still, waiting.zero, waiting.baud, rxulIdle, rxulWait, rxulStop]
  · simp [step, waiting.state, still, waiting.zero, rxulIdle, rxulWait, rxulStop]
  · simp [step, stops, waiting.state, rxulIdle, rxulStop]

theorem Idle.waits (idle : uart.Idle) (wide : 1 < 2 ^ timerBits) :
    (uart.step clocksPerBaud true).Idle where
  toWaiting := idle.toWaiting.waits (.inl idle.third) wide
  first := rfl
  second := idle.first
  third := idle.second
  half := by simp [step, idle.third]

/-- In the middle of the start bit the receiver begins to count. -/
theorem Waiting.starts (waiting : uart.Waiting) (low : uart.ckUart = false)
    (half : uart.halfBaudTime = true) (slow : 1 < clocksPerBaud.toNat) :
    (uart.step clocksPerBaud line).Receiving clocksPerBaud byte 0 0 := by
  have wide := wide_of_slow (show 1 < clocksPerBaud.toNat by omega)
  have begins : uart.starts = true := by simp [RxUart.starts, waiting.state, low, half]
  constructor
  · simp [step, waiting.state, begins, rxulBitZero]
  · simp only [step, begins, if_true]
    rw [pred_toNat wide (by omega)]
    omega
  · have early : ¬ 0 + 1 = clocksPerBaud.toNat := by omega
    simp [step, begins, early]
  · simp [step, stops, waiting.state, rxulIdle, rxulStop]
  · intro index none
    omega

theorem Receiving.notIdle (receiving : uart.Receiving clocksPerBaud byte bit since)
    (few : bit ≤ 8) : (uart.state == rxulIdle) = false := by
  rw [receiving.state]
  interval_cases bit <;> rfl

theorem Receiving.notWait (receiving : uart.Receiving clocksPerBaud byte bit since)
    (few : bit ≤ 8) : (uart.state == rxulWait) = false ∧ ¬ rxulWait ≤ uart.state := by
  rw [receiving.state]
  constructor
  · interval_cases bit <;> rfl
  · interval_cases bit <;> decide

theorem Receiving.hold (receiving : uart.Receiving clocksPerBaud byte bit since) (few : bit ≤ 8)
    (more : since + 1 < clocksPerBaud.toNat) :
    (uart.step clocksPerBaud line).Receiving clocksPerBaud byte bit (since + 1) := by
  have wide := wide_of_slow (show 1 < clocksPerBaud.toNat by omega)
  have baud := receiving.baud
  have counting : uart.zeroBaudCounter = false := by
    rw [receiving.zero, decide_eq_false_iff_not]
    omega
  have busy := receiving.notIdle few
  have going : uart.starts = false := by simp [RxUart.starts, busy]
  obtain ⟨running, framed⟩ := receiving.notWait few
  constructor
  · simp only [step, busy, framed, counting, decide_false, Bool.false_and, Bool.false_eq_true,
      if_false]
    exact receiving.state
  · simp only [step, going, running, counting, Bool.false_and, Bool.not_false, Bool.false_eq_true,
      if_false, if_true]
    rw [pred_toNat wide (by omega)]
    omega
  · simp only [step, going, running, counting, Bool.false_and, Bool.false_eq_true, if_false]
    have soon : decide (uart.baudCounter.toNat = 1) =
        decide (since + 1 + 1 = clocksPerBaud.toNat) := by
      rw [decide_eq_decide]
      omega
    rw [beq_one wide, soon]
    simp
  · simp [step, stops, counting]
  · intro index inside
    simp [step, counting, receiving.data index inside]

/-- At the end of a bit time the line is sampled. -/
theorem Receiving.turn (receiving : uart.Receiving clocksPerBaud byte bit since) (few : bit < 8)
    (last : since + 1 = clocksPerBaud.toNat) (slow : 1 < clocksPerBaud.toNat)
    (sample : uart.qqUart = byte.getLsbD bit) :
    (uart.step clocksPerBaud line).Receiving clocksPerBaud byte (bit + 1) 0 := by
  have wide := wide_of_slow (show 1 < clocksPerBaud.toNat by omega)
  have through : uart.zeroBaudCounter = true := by rw [receiving.zero, decide_eq_true last]
  have busy := receiving.notIdle (by omega)
  have going : uart.starts = false := by simp [RxUart.starts, busy]
  obtain ⟨running, framed⟩ := receiving.notWait (by omega)
  have below : uart.state ≤ rxulStop ∧ uart.state < rxulStop ∧
      (uart.state == rxulStop) = false := by
    rw [receiving.state]
    interval_cases bit <;> decide
  constructor
  · simp only [step, busy, framed, through, below.1, decide_false, decide_true, Bool.false_and,
      Bool.and_self, Bool.false_eq_true, if_false, if_true]
    rw [receiving.state]
    interval_cases bit <;> rfl
  · simp only [step, going, running, through, below.2.1, decide_true, Bool.and_self,
      Bool.false_eq_true, if_false, if_true]
    rw [pred_toNat wide (by omega)]
    omega
  · simp only [step, going, running, through, below.2.1, decide_true, Bool.and_self,
      Bool.false_eq_true, if_false, if_true]
    rw [eq_comm, decide_eq_false_iff_not]
    omega
  · simp [step, stops, below.2.2]
  · intro index inside
    have next : (uart.step clocksPerBaud line).dataReg =
        BitVec.ofBool uart.qqUart ++ uart.dataReg.extractLsb' 1 7 := by
      simp [step, through, bne, below.2.2]
    rw [next, shifted_getLsbD _ _ (by omega)]
    split
    · rw [← receiving.data index (by omega)]
      congr 1
      omega
    · rw [sample]
      congr 1
      omega

/-- At the end of the stop bit the byte is complete. -/
theorem Receiving.ends (receiving : uart.Receiving clocksPerBaud byte 8 since)
    (last : since + 1 = clocksPerBaud.toNat) (slow : 1 < clocksPerBaud.toNat)
    (stop : uart.ckUart = true) :
    (uart.step clocksPerBaud line).Delivering byte := by
  have wide := wide_of_slow (show 1 < clocksPerBaud.toNat by omega)
  have baud := receiving.baud
  have through : uart.zeroBaudCounter = true := by rw [receiving.zero, decide_eq_true last]
  have none : uart.baudCounter = 0 := BitVec.eq_of_toNat_eq (by simp; omega)
  have state : uart.state = rxulStop := receiving.state
  have whole : uart.dataReg = byte := by
    apply BitVec.eq_of_getLsbD_eq
    intro index inside
    have same := receiving.data index inside
    simpa using same
  constructor
  · simp [step, state, through, rxulStop, rxulIdle, rxulWait]
  · simp [step, RxUart.starts, state, through, none, rxulStop, rxulIdle, rxulWait]
  · simp [step, RxUart.starts, state, through, rxulStop, rxulIdle, rxulWait]
  · simp [step, stops, state, through, stop]
  · simp [step, stops, state, through, stop, whole]

/-- On a high line the receiver is ready for the next frame. -/
theorem Delivering.ends (delivering : uart.Delivering byte) (high : uart.ckUart = true) :
    (uart.step clocksPerBaud line).Waiting := by
  constructor
  · simp [step, delivering.state, high, rxulIdle, rxulWait]
  · simp [step, RxUart.starts, delivering.state, rxulIdle, rxulWait]
  · simp [step, RxUart.starts, delivering.state, rxulIdle, rxulWait]
  · simp [step, stops, delivering.state, rxulStop, rxulWait]

end RxUart

end ZipVersa.DebugBus
