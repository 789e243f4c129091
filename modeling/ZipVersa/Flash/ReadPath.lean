import ZipVersa.Flash.QFlexpress
import ZipVersa.Lib.Clocked
import Mathlib.Data.Nat.Init
import Mathlib.Tactic.IntervalCases

/-! A bus read of the flash on the pins. The transfer counts its cycles of
`o_qspi_sck` in `clk_ctr`: sixteen of them for a read of its own, the last eight
with the nibbles of the word, and eight more for each read piped behind it. -/

set_option autoImplicit false

namespace ZipVersa.Flash

open ZipVersa.Lib

/-! ### Words of nibbles -/

/-- `o_wb_data` with one more nibble, in a quad mode. -/
def gather (data : BitVec 32) (nibble : BitVec 4) : BitVec 32 :=
  (data.extractLsb' 24 4 ++ nibble ++
    data.extractLsb' 16 4 ++ data.extractLsb' 28 4 ++
    data.extractLsb' 8 4 ++ data.extractLsb' 20 4 ++
    data.extractLsb' 0 4 ++ data.extractLsb' 12 4 : BitVec 32)

/-- A byte of the flash, its high nibble first. -/
def flashByte (nibble : Nat → BitVec 4) (index : Nat) : BitVec 8 :=
  nibble (2 * index) ++ nibble (2 * index + 1)

/-- Four bytes of the flash as a word, the first in the low-order place. -/
def flashWord (nibble : Nat → BitVec 4) : BitVec 32 :=
  flashByte nibble 3 ++ flashByte nibble 2 ++ flashByte nibble 1 ++ flashByte nibble 0

/-- The address of a read and its mode byte. -/
def addressWord (addr : BitVec 22) : BitVec 32 :=
  addr ++ (0 : BitVec 2) ++ (0xa : BitVec 4) ++ (0 : BitVec 4)

/-- A nibble of a word, the most significant one first. -/
def nibbleAt (word : BitVec 32) (index : Nat) : BitVec 4 := word.extractLsb' (28 - 4 * index) 4

/-- A nibble of a word, the least significant one first. -/
def slot (word : BitVec 32) (place : Nat) : BitVec 4 := word.extractLsb' (4 * place) 4

theorem eq_of_slots {first second : BitVec 32}
    (same : ∀ place < 8, slot first place = slot second place) : first = second := by
  apply BitVec.eq_of_getLsbD_eq
  intro index inside
  have bit := congrArg (fun nibble : BitVec 4 => nibble.getLsbD (index % 4))
    (same (index / 4) (by omega))
  simp only [slot, BitVec.getLsbD_extractLsb'] at bit
  rwa [decide_eq_true (by omega), Bool.true_and, Bool.true_and, Nat.div_add_mod] at bit

theorem slot_gather (data : BitVec 32) (nibble : BitVec 4) {place : Nat} (inside : place < 8) :
    slot (gather data nibble) place =
      if place = 6 then nibble
      else slot data (if place % 2 = 0 then place + 3 else place - 1) := by
  apply BitVec.eq_of_getLsbD_eq
  intro index small
  interval_cases place <;>
    simp only [slot, gather, BitVec.getLsbD_append, BitVec.getLsbD_extractLsb'] <;>
      interval_cases index <;> simp

theorem slot_flashWord (nibble : Nat → BitVec 4) {place : Nat} (inside : place < 8) :
    slot (flashWord nibble) place =
      nibble (if place % 2 = 0 then place + 1 else place - 1) := by
  apply BitVec.eq_of_getLsbD_eq
  intro index small
  interval_cases place <;>
    simp only [slot, flashWord, flashByte, BitVec.getLsbD_append, BitVec.getLsbD_extractLsb'] <;>
      interval_cases index <;> simp

/-- Whatever the register held, eight nibbles fill it. -/
theorem gather_eight (data : BitVec 32) (nibble : Nat → BitVec 4) :
    (List.range 8).foldl (fun data index => gather data (nibble index)) data =
      flashWord nibble := by
  apply eq_of_slots
  intro place inside
  rw [slot_flashWord nibble inside]
  simp only [List.range, List.range.loop, List.foldl_cons, List.foldl_nil]
  interval_cases place <;> simp [slot_gather]

/-- Shifted once for each cycle, the register shows the address nibble by nibble. -/
theorem loaded_nibble {clock : FlashClock} (apart : clock.cfgStb = false) {index : Nat}
    (small : index < 8) :
    (QFlexpress.loaded clock <<< (4 * (index + 1))).extractLsb' 32 4 =
      nibbleAt (addressWord clock.addr) index := by
  apply BitVec.eq_of_getLsbD_eq
  intro bit inside
  simp only [QFlexpress.loaded, apart, Bool.false_eq_true, if_false, nibbleAt, addressWord,
    BitVec.getLsbD_extractLsb', BitVec.getLsbD_shiftLeft, BitVec.getLsbD_append]
  interval_cases index <;> interval_cases bit <;> simp

/-! ### The clocks of a cycle -/

namespace QFlexpress

/-- `o_qspi_dat`. -/
def oQspiDat (flash : QFlexpress) : BitVec 4 := flash.dataPipe.extractLsb' 32 4

/-- A read under way with `count` cycles to go; `pipe` is still to be sent and
`next` the address it could go on with. -/
structure Fetching (flash : QFlexpress) (count : Nat) (pipe : BitVec 36) (next : BitVec 22) :
    Prop where
  ready : flash.maintenance = false
  mode : flash.cfgMode = false
  clkCtr : flash.clkCtr = count
  csN : flash.qspiCsN = false
  owed : flash.preAck = true
  port : flash.qspiMod = if count ≤ 8 then quadRead else quadWrite
  dataPipe : flash.dataPipe = pipe
  nextAddr : flash.nextAddr = next

/-- The first clock of a cycle, with `o_qspi_sck` low. -/
structure Low (flash : QFlexpress) (count : Nat) (pipe : BitVec 36) (next : BitVec 22) :
    Prop extends Fetching flash count pipe next where
  phase : flash.clkCounter = true
  sck : flash.qspiSck = false
  stall : flash.wbStall = true
  blind : flash.actualSck = false

/-- The second clock of a cycle, at whose end the pins are read. -/
structure High (flash : QFlexpress) (count : Nat) (pipe : BitVec 36) (next : BitVec 22) :
    Prop extends Fetching flash count pipe next where
  phase : flash.clkCounter = false
  sck : flash.qspiSck = true
  stall : 1 < count → flash.wbStall = true
  sees : count ≤ 16 → flash.actualSck = true

variable {flash : QFlexpress} {clock : FlashClock} {count : Nat} {pipe : BitVec 36}
  {next : BitVec 22}

theorem busRequest_stalled (stall : flash.wbStall = true) : flash.busRequest clock = false := by
  rw [busRequest, stall, Bool.not_true, Bool.and_false, Bool.false_and, Bool.false_and]

theorem vacant_of_busRequest (bus : flash.busRequest clock = true) :
    clock.wbStb = true ∧ flash.wbStall = false := by
  simp only [busRequest, Bool.and_eq_true, Bool.not_eq_true'] at bus
  exact bus.1.1

theorem cfgStb_stalled (stall : flash.wbStall = true) : flash.cfgStb clock = false := by
  rw [cfgStb, stall, Bool.not_true, Bool.and_false]

theorem maintenance_kept (ready : flash.maintenance = false) (reset : clock.reset = false) :
    (flash.step clock).maintenance = false := by
  cases later : (flash.step clock).maintenance with
  | false => rfl
  | true =>
      rcases maintenance_step flash clock later with cleared | before
      · rw [reset] at cleared
        cases cleared
      · rw [ready] at before
        cases before

/-- With the next clock `o_qspi_sck` rises. -/
theorem Low.rises (low : flash.Low count pipe next) (positive : 0 < count)
    (reset : clock.reset = false) (cyc : clock.cyc = true) :
    (flash.step clock).High count pipe next := by
  have bus : flash.busRequest clock = false := busRequest_stalled low.stall
  have cfg : flash.cfgStb clock = false := cfgStb_stalled low.stall
  constructor
  · constructor
    · exact maintenance_kept low.ready reset
    · simp [step, reset, cfg, low.mode]
    · simp [step, reset, low.ready, bus, cfgLsWrite, cfgWrite, userRequest, cfg, ckstb, low.phase,
        low.clkCtr]
    · simp [step, reset, low.ready, bus, cfgWrite, userRequest, cfg, ckstb, low.phase, low.csN]
    · simp [step, reset, cyc, bus, cfgWrite, userRequest, cfg, low.owed]
    · simp [step, reset, low.ready, bus, cfgHsRead, cfgHsWrite, cfgLsWrite, cfgWrite, userRequest,
        cfg, low.mode, ckstb, low.phase, low.port]
    · simp [step, low.stall, ckstb, low.phase, low.ready, low.dataPipe]
    · simp [step, low.stall, low.nextAddr]
  · simp [step, reset, low.phase]
  · simp [step, reset, low.ready, bus, cfgWrite, userRequest, cfg, ckpre, low.phase, low.sck]
  · intro more
    have last : (count == 1) = false := beq_eq_false_iff_ne.mpr (by omega)
    have going : (count == 0) = false := beq_eq_false_iff_ne.mpr (by omega)
    simp [step, low.ready, bus, cfgWrite, userRequest, cfg, ckstb, low.phase, low.clkCtr, last,
      going, low.stall]
  · intro _
    simp [step, reset, low.sck, low.clkCtr, positive]

theorem Low.quiet (low : flash.Low count pipe next) (reset : clock.reset = false) :
    (flash.step clock).wbAck = false ∧ (flash.step clock).wbData = flash.wbData := by
  have bus : flash.busRequest clock = false := busRequest_stalled low.stall
  have cfg : flash.cfgStb clock = false := cfgStb_stalled low.stall
  constructor
  · simp [wbAck, step, reset, ckstb, low.phase, low.stall, cfgNoop, cfg]
  · simp [step, low.blind, low.mode]

/-- With the next clock `o_qspi_sck` falls, while cycles are left. -/
theorem High.falls (high : flash.High (count + 1) pipe next) (positive : 0 < count)
    (reset : clock.reset = false) (cyc : clock.cyc = true) :
    (flash.step clock).Low count (pipe <<< 4) next ∧ (flash.step clock).wbAck = false := by
  have stall := high.stall (by omega)
  have bus : flash.busRequest clock = false := busRequest_stalled stall
  have cfg : flash.cfgStb clock = false := cfgStb_stalled stall
  have last : (count + 1 == 1) = false := beq_eq_false_iff_ne.mpr (by omega)
  constructor
  · constructor
    · constructor
      · exact maintenance_kept high.ready reset
      · simp [step, reset, cfg, high.mode]
      · simp [step, reset, high.ready, bus, cfgLsWrite, cfgWrite, userRequest, cfg, ckstb,
          high.phase, high.clkCtr]
      · simp [step, reset, high.ready, bus, cfgWrite, userRequest, cfg, ckstb, high.phase,
          high.clkCtr]
        omega
      · simp [step, reset, cyc, bus, cfgWrite, userRequest, cfg, high.owed]
      · simp only [step, reset, high.ready, bus, cfgHsRead, cfgHsWrite, cfgLsWrite, cfgWrite,
          userRequest, cfg, high.mode, ckstb, high.phase, high.port, high.clkCtr]
        by_cases near : count ≤ 8
        · have soon : count + 1 ≤ 9 := by omega
          simp only [near, soon, decide_true, Bool.false_eq_true, Bool.false_and, Bool.not_false,
            Bool.true_or, Bool.and_self, Bool.or_self, if_false, if_true]
        · have later : ¬ count + 1 ≤ 9 := by omega
          have far : ¬ count + 1 ≤ 8 := by omega
          simp only [near, later, far, decide_false, Bool.false_eq_true, Bool.false_and,
            Bool.and_false, Bool.or_self, if_false]
      · simp [step, stall, ckstb, high.phase, high.ready, high.dataPipe]
      · simp [step, stall, high.nextAddr]
    · simp [step, reset, high.phase, bus, high.csN, stall]
    · simp [step, reset, high.ready, bus, cfgWrite, userRequest, cfg, ckpre, ckstb, high.phase,
        high.sck, high.csN, high.mode, high.clkCtr, positive]
    · simp [step, reset, high.ready, bus, cfgWrite, userRequest, cfg, ckstb, ckpre, high.phase,
        high.clkCtr, positive]
    · simp [step, high.sck]
  · simp [wbAck, step, reset, ckstb, high.phase, high.clkCtr, last, stall, cfgNoop, cfg]

/-- The pins are read. -/
theorem High.reads (high : flash.High count pipe next) (sees : flash.actualSck = true) :
    (flash.step clock).wbData = gather flash.wbData clock.qspiDat := by
  have quad : flash.qspiMod.getLsbD 1 = true := by
    rw [high.port]
    split <;> rfl
  simp [step, sees, sampled, quad, high.mode, gather]

/-- At the end of the last cycle the read is answered. -/
theorem High.answers (high : flash.High 1 pipe next) (reset : clock.reset = false)
    (cyc : clock.cyc = true) : (flash.step clock).wbAck = true := by
  simp [wbAck, step, reset, ckstb, high.phase, high.clkCtr, cyc, high.owed]

/-- A read of its own begins. -/
theorem begins (bus : flash.busRequest clock = true) (fresh : flash.pipeReq = false)
    (ready : flash.maintenance = false) (reset : clock.reset = false) (cyc : clock.cyc = true)
    (apart : clock.cfgStb = false) :
    (flash.step clock).High 17 (loaded clock) (clock.addr + 1) := by
  have taken := bus
  simp only [busRequest, Bool.and_eq_true, Bool.not_eq_true'] at taken
  obtain ⟨⟨⟨-, vacant⟩, read⟩, mode⟩ := taken
  have cfg : flash.cfgStb clock = false := by rw [cfgStb, apart, Bool.false_and]
  constructor
  · constructor
    · exact maintenance_kept ready reset
    · simp [step, reset, cfg, mode]
    · simp [step, reset, ready, bus, fresh]
    · simp [step, reset, ready, bus, cfg]
    · simp [step, reset, cyc, bus]
    · simp [step, reset, ready, bus, fresh]
    · simp [step, vacant, ready]
    · simp [step, vacant]
  · simp [step, reset, bus, fresh]
  · simp [step, reset, ready, bus, fresh]
  · intro _
    simp [step, ready, bus]
  · intro small
    omega

/-- A read goes on where the last one ends. -/
theorem High.continues (high : flash.High 1 pipe next) (bus : flash.busRequest clock = true)
    (piped : flash.pipeReq = true) (reset : clock.reset = false) (cyc : clock.cyc = true) :
    ∃ rest, (flash.step clock).Low 8 rest (clock.addr + 1) := by
  have taken := bus
  simp only [busRequest, Bool.and_eq_true, Bool.not_eq_true'] at taken
  obtain ⟨⟨⟨-, vacant⟩, read⟩, -⟩ := taken
  refine ⟨(flash.step clock).dataPipe, ?_⟩
  constructor
  · constructor
    · exact maintenance_kept high.ready reset
    · simp [step, reset, read, high.mode]
    · simp [step, reset, high.ready, bus, piped]
    · simp [step, reset, high.ready, bus, read]
    · simp [step, reset, cyc, bus]
    · simp [step, reset, high.ready, bus, piped]
    · rfl
    · simp [step, vacant]
  · simp [step, reset, bus, piped, high.phase]
  · simp [step, reset, high.ready, bus, piped]
  · simp [step, high.ready, bus]
  · simp [step, high.sck]

/-- A piped request repeats the address that the transfer goes on with. -/
theorem addr_of_rPipeReq_step (later : (flash.step clock).rPipeReq = true) :
    flash.nextAddr = clock.addr := by
  simp only [step] at later
  split at later
  · cases later
  · simp only [wPipeCondition, Bool.and_eq_true, beq_iff_eq] at later
    exact later.2

theorem clkCtr_idle (idle : flash.clkCtr = 0) (free : flash.taken clock = false) :
    (flash.step clock).clkCtr = 0 := by
  obtain ⟨bus, cfg, -⟩ := not_taken free
  simp [step, bus, cfgLsWrite, cfgWrite, userRequest, cfg, idle]

theorem taken_stalled (stall : flash.wbStall = true) : flash.taken clock = false := by
  rw [taken, stall, Bool.not_true, Bool.and_false]

end QFlexpress

/-! ### Cycle after cycle -/

section Run

variable (wave : Nat → QFlexpress) (inputs : Nat → FlashClock)

/-- The master stays in its cycle, selects one port and leaves a waiting request as
it is. -/
structure Attended (first last : Nat) : Prop where
  reset (time : Nat) : first ≤ time → time ≤ last → (inputs time).reset = false
  cyc (time : Nat) : first ≤ time → time ≤ last → (inputs time).cyc = true
  apart (time : Nat) : first ≤ time → time ≤ last → (inputs time).wbStb = true →
    (inputs time).cfgStb = false
  held (time : Nat) : first ≤ time → time < last → (inputs time).wbStb = true →
    (wave time).wbStall = true → (inputs (time + 1)).addr = (inputs time).addr

/-- `accept` lists the requests taken on a run: a read of its own, then reads piped
behind it. -/
structure PipedReads (accept : Nat → Nat) (last : Nat) : Prop where
  first : (wave (accept 0)).busRequest (inputs (accept 0)) = true
  fresh : (wave (accept 0)).pipeReq = false
  later : ∀ index < last, (wave (accept (index + 1))).busRequest (inputs (accept (index + 1))) = true
  piped : ∀ index < last, (wave (accept (index + 1))).pipeReq = true
  rising : ∀ index < last, accept index < accept (index + 1)
  only : ∀ index < last, ∀ time, accept index < time → time < accept (index + 1) →
    (wave time).taken (inputs time) = false

/-- A cycle of `o_qspi_sck` in a mode: a clock low, then a clock high, with the
flash selected. -/
structure SckCycle (time : Nat) (mod : BitVec 2) : Prop where
  low : (wave time).qspiSck = false
  high : (wave (time + 1)).qspiSck = true
  select : (wave time).qspiCsN = false ∧ (wave (time + 1)).qspiCsN = false
  mod : (wave time).qspiMod = mod ∧ (wave (time + 1)).qspiMod = mod

/-- What a run of reads does on the pins and on the bus. -/
structure Served (accept : Nat → Nat) (last : Nat) : Prop where
  sent : ∀ index < 8,
    let time := accept 0 + 2 + 2 * index
    let nibble := nibbleAt (addressWord (inputs (accept 0)).addr) index
    SckCycle wave time quadWrite ∧ (wave time).oQspiDat = nibble ∧ (wave (time + 1)).oQspiDat = nibble
  returned : ∀ index < 8 * (last + 1), SckCycle wave (accept 0 + 18 + 2 * index) quadRead
  taken : ∀ index < last, accept (index + 1) = accept 0 + 33 + 16 * index ∧
    (inputs (accept (index + 1))).addr = (inputs (accept 0)).addr + BitVec.ofNat 22 (index + 1)
  sole : ∀ time, accept 0 ≤ time → time < accept 0 + 33 + 16 * last →
    ((wave time).taken (inputs time) = true ↔ ∃ index ≤ last, time = accept index)
  word : ∀ index ≤ last, (wave (accept 0 + 34 + 16 * index)).wbData =
    flashWord fun nibble => (inputs (accept 0 + 19 + 2 * (8 * index + nibble))).qspiDat
  acks : ∀ time, accept 0 + 1 < time → time ≤ accept 0 + 34 + 16 * last →
    ((wave time).wbAck = true ↔ ∃ index ≤ last, time = accept 0 + 34 + 16 * index)

/-- The clock at which a read is taken: the first at once, the others at the end of
the word before. -/
def acceptTime (first : Nat) : Nat → Nat
  | 0 => first
  | index + 1 => first + 33 + 16 * index

theorem acceptTime_lt (first index : Nat) : acceptTime first index < first + 33 + 16 * index := by
  cases index with
  | zero => rw [acceptTime]; omega
  | succ index => rw [acceptTime]; omega

/-- A read has been taken and its eight nibbles are next. -/
structure Stage (accept : Nat → Nat) (index : Nat) : Prop where
  time : accept index = acceptTime (accept 0) index
  word : ∃ pipe, (wave (accept 0 + 18 + 16 * index)).Low 8 pipe
    ((inputs (accept 0)).addr + BitVec.ofNat 22 (index + 1))
  stall : ∀ time, accept index < time → time < accept 0 + 33 + 16 * index →
    (wave time).wbStall = true

variable {wave inputs}
variable {start count : Nat} {pipe : BitVec 36} {next : BitVec 22} {first last : Nat}
  {accept : Nat → Nat}

variable (moves : ∀ time, wave (time + 1) = (wave time).step (inputs time))

include moves

theorem cycles (attended : Attended wave inputs first last) (after : first ≤ start)
    (before : start + 2 * count ≤ last + 1) (low : (wave start).Low count pipe next) :
    ∀ cycle < count,
      (wave (start + 2 * cycle)).Low (count - cycle) (pipe <<< (4 * cycle)) next ∧
        (wave (start + 2 * cycle + 1)).High (count - cycle) (pipe <<< (4 * cycle)) next := by
  have rise (cycle : Nat) (inside : cycle < count)
      (low : (wave (start + 2 * cycle)).Low (count - cycle) (pipe <<< (4 * cycle)) next) :
      (wave (start + 2 * cycle + 1)).High (count - cycle) (pipe <<< (4 * cycle)) next := by
    rw [moves]
    exact low.rises (by omega) (attended.reset _ (by omega) (by omega))
      (attended.cyc _ (by omega) (by omega))
  intro cycle
  induction cycle with
  | zero =>
      intro inside
      have low' : (wave (start + 2 * 0)).Low (count - 0) (pipe <<< (4 * 0)) next := by
        simpa using low
      exact ⟨low', rise 0 inside low'⟩
  | succ cycle ih =>
      intro inside
      have high := (ih (by omega)).2
      have more : count - cycle = count - (cycle + 1) + 1 := by omega
      rw [more] at high
      have reset := attended.reset (start + 2 * cycle + 1) (by omega) (by omega)
      have cyc := attended.cyc (start + 2 * cycle + 1) (by omega) (by omega)
      have fallen := (high.falls (by omega) reset cyc).1
      rw [← moves, ← BitVec.shiftLeft_add] at fallen
      exact ⟨fallen, rise (cycle + 1) inside fallen⟩

theorem cycle_reads
    (attended : Attended wave inputs first last) (after : first ≤ start)
    (before : start + 2 * count ≤ last + 1) (few : count ≤ 16)
    (low : (wave start).Low count pipe next) {cycle : Nat} (inside : cycle < count) :
    (wave (start + 2 * (cycle + 1))).wbData =
      gather (wave (start + 2 * cycle)).wbData (inputs (start + 1 + 2 * cycle)).qspiDat := by
  obtain ⟨falling, rising⟩ := cycles moves attended after before low cycle inside
  have reset := attended.reset (start + 2 * cycle) (by omega) (by omega)
  have kept : (wave (start + 2 * cycle + 1)).wbData = (wave (start + 2 * cycle)).wbData := by
    rw [moves]
    exact (falling.quiet reset).2
  rw [Nat.add_right_comm start 1, ← kept, Nat.mul_succ, ← Nat.add_assoc, moves]
  exact rising.reads (rising.sees (by omega))

/-- The only answer in a stretch of cycles comes with its end. -/
theorem cycles_answer
    (attended : Attended wave inputs first last) (after : first ≤ start)
    (before : start + 2 * count ≤ last + 1) (low : (wave start).Low count pipe next) {time : Nat}
    (later : start < time) (inside : time ≤ start + 2 * count) :
    (wave time).wbAck = decide (time = start + 2 * count) := by
  obtain ⟨cycle, within, spot⟩ : ∃ cycle < count,
      time = start + 2 * cycle + 1 ∨ time = start + 2 * cycle + 1 + 1 :=
    ⟨(time - start - 1) / 2, by omega, by omega⟩
  obtain ⟨falling, rising⟩ := cycles moves attended after before low cycle within
  rcases spot with rfl | rfl
  · have reset := attended.reset (start + 2 * cycle) (by omega) (by omega)
    rw [moves, (falling.quiet reset).1, eq_comm, decide_eq_false_iff_not]
    omega
  · have reset := attended.reset (start + 2 * cycle + 1) (by omega) (by omega)
    have cyc := attended.cyc (start + 2 * cycle + 1) (by omega) (by omega)
    by_cases final : cycle + 1 = count
    · have one : count - cycle = 1 := by omega
      rw [one] at rising
      rw [moves, rising.answers reset cyc, eq_comm, decide_eq_true_eq]
      omega
    · have more : count - cycle = count - (cycle + 1) + 1 := by omega
      rw [more] at rising
      rw [moves, (rising.falls (by omega) reset cyc).2, eq_comm, decide_eq_false_iff_not]
      omega

/-- In the last eight cycles the word is read. -/
theorem cycles_word
    (attended : Attended wave inputs first last) (after : first ≤ start)
    (before : start + 16 ≤ last + 1) (low : (wave start).Low 8 pipe next) :
    (wave (start + 16)).wbData =
      flashWord fun index => (inputs (start + 1 + 2 * index)).qspiDat := by
  have gathered : ∀ cycle ≤ 8, (wave (start + 2 * cycle)).wbData =
      (List.range cycle).foldl
        (fun data index => gather data (inputs (start + 1 + 2 * index)).qspiDat)
        (wave start).wbData := by
    intro cycle
    induction cycle with
    | zero => exact fun _ => rfl
    | succ cycle ih =>
        intro inside
        rw [cycle_reads moves attended after before (by omega) low (by omega : cycle < 8),
          ih (by omega), List.range_succ, List.foldl_append]
        rfl
  rw [← gather_eight (wave start).wbData]
  exact gathered 8 (Nat.le_refl 8)

/-- Until its last clock a stretch of cycles takes no request. -/
theorem cycles_stall
    (attended : Attended wave inputs first last) (after : first ≤ start)
    (before : start + 2 * count ≤ last + 1) (low : (wave start).Low count pipe next) {time : Nat}
    (later : start ≤ time) (inside : time + 1 < start + 2 * count) :
    (wave time).wbStall = true := by
  obtain ⟨cycle, within, spot⟩ : ∃ cycle < count,
      time = start + 2 * cycle ∨ time = start + 2 * cycle + 1 :=
    ⟨(time - start) / 2, by omega, by omega⟩
  obtain ⟨falling, rising⟩ := cycles moves attended after before low cycle within
  rcases spot with rfl | rfl
  · exact falling.stall
  · exact rising.stall (by omega)

/-! ### Reads behind each other -/

theorem ready_of_vacant
    (started : (wave 0).maintenance = true → (wave 0).wbStall = true) {time : Nat}
    (vacant : (wave time).wbStall = false) : (wave time).maintenance = false := by
  by_contra busy
  have stalled : (wave time).wbStall = true := by
    cases time with
    | zero => exact started (Bool.not_eq_false _ ▸ busy)
    | succ time =>
        rw [moves] at busy ⊢
        exact QFlexpress.stall_of_maintenance_step (Bool.not_eq_false _ ▸ busy)
  rw [stalled] at vacant
  cases vacant

/-- The clocks behind a read of its own. -/
theorem PipedReads.opening
    (started : (wave 0).maintenance = true → (wave 0).wbStall = true)
    (reads : PipedReads wave inputs accept last)
    (attended : Attended wave inputs (accept 0) (accept 0 + 33 + 16 * last)) :
    (wave (accept 0 + 1)).wbStall = true ∧
      (wave (accept 0 + 2)).Low 16 (QFlexpress.loaded (inputs (accept 0)) <<< 4)
        ((inputs (accept 0)).addr + 1) ∧ (wave (accept 0 + 2)).wbAck = false := by
  obtain ⟨stb, vacant⟩ := QFlexpress.vacant_of_busRequest reads.first
  have begun := QFlexpress.begins reads.first reads.fresh (ready_of_vacant moves started vacant)
    (attended.reset (accept 0) (by omega) (by omega))
    (attended.cyc (accept 0) (by omega) (by omega))
    (attended.apart (accept 0) (by omega) (by omega) stb)
  rw [← moves] at begun
  have fallen := begun.falls (by omega) (attended.reset (accept 0 + 1) (by omega) (by omega))
    (attended.cyc (accept 0 + 1) (by omega) (by omega))
  rw [← moves] at fallen
  exact ⟨begun.stall (by omega), fallen⟩

theorem Stage.zero
    (started : (wave 0).maintenance = true → (wave 0).wbStall = true)
    (reads : PipedReads wave inputs accept last)
    (attended : Attended wave inputs (accept 0) (accept 0 + 33 + 16 * last)) :
    Stage wave inputs accept 0 := by
  obtain ⟨stall, low, -⟩ := reads.opening moves started attended
  refine ⟨rfl, ⟨_, (cycles moves attended (by omega) (by omega) low 8 (by omega)).1⟩, ?_⟩
  intro time later inside
  by_cases soon : time = accept 0 + 1
  · rw [soon, stall]
  · exact cycles_stall moves attended (by omega) (by omega) low (by omega) (by omega)

/-- A transfer that no request is piped behind ends for good: what is taken later is
not piped. -/
theorem ended {final time : Nat} (last : (wave final).clkCtr = 1 ∧ (wave final).clkCounter = false)
    (reset : (inputs final).reset = false) (ready : (wave final).maintenance = false)
    (free : ∀ clock, final ≤ clock → clock < time → (wave clock).taken (inputs clock) = false)
    (later : final < time) : (wave time).rPipeReq = false := by
  have idle : ∀ clock, final < clock → clock ≤ time → (wave clock).clkCtr = 0 := by
    intro clock behind
    induction clock, behind using Nat.le_induction with
    | base =>
        intro _
        have lets := QFlexpress.not_taken_lets (free final (by omega) later) reset ready
        rw [moves, lets.clkCtr, last.2, last.1]
        rfl
    | succ clock behind ih =>
        intro inside
        rw [moves]
        exact QFlexpress.clkCtr_idle (ih (by omega)) (free clock (by omega) (by omega))
  obtain ⟨before, rfl⟩ : ∃ before, time = before + 1 := ⟨time - 1, by omega⟩
  cases piped : (wave (before + 1)).rPipeReq with
  | false => rfl
  | true =>
      rw [moves] at piped
      obtain ⟨unfinished, counting, -⟩ := QFlexpress.rPipeReq_step piped
      by_cases same : final = before
      · rw [same] at last
        exact absurd last unfinished
      · exact absurd (idle before (by omega) (by omega)) counting

theorem Stage.succ (reads : PipedReads wave inputs accept last)
    (attended : Attended wave inputs (accept 0) (accept 0 + 33 + 16 * last)) {index : Nat}
    (inside : index < last) (stage : Stage wave inputs accept index) :
    Stage wave inputs accept (index + 1) ∧
      (inputs (accept (index + 1))).addr =
        (inputs (accept 0)).addr + BitVec.ofNat 22 (index + 1) := by
  obtain ⟨pipe, low⟩ := stage.word
  obtain ⟨falling, rising⟩ := cycles moves attended (by omega) (by omega) low 7 (by omega)
  have bus := reads.later index inside
  have piped := reads.piped index inside
  obtain ⟨-, vacant⟩ := QFlexpress.vacant_of_busRequest bus
  have behind : accept index < accept 0 + 33 + 16 * index := by
    rw [stage.time]
    exact acceptTime_lt _ _
  have final : accept 0 + 18 + 16 * index + 2 * 7 + 1 = accept 0 + 33 + 16 * index := by omega
  rw [final] at rising
  have reset := attended.reset (accept 0 + 33 + 16 * index) (by omega) (by omega)
  have cyc := attended.cyc (accept 0 + 33 + 16 * index) (by omega) (by omega)
  have notBefore : accept 0 + 33 + 16 * index ≤ accept (index + 1) := by
    by_contra early
    rw [stage.stall _ (reads.rising index inside) (by omega)] at vacant
    cases vacant
  have time : accept (index + 1) = accept 0 + 33 + 16 * index := by
    by_contra late
    have free (clock : Nat) (later : accept 0 + 33 + 16 * index ≤ clock) :
        clock < accept (index + 1) → (wave clock).taken (inputs clock) = false :=
      reads.only index inside clock (by omega)
    have unpiped := ended moves ⟨rising.clkCtr, rising.phase⟩ reset rising.ready free (by omega)
    rw [QFlexpress.pipeReq, unpiped] at piped
    cases piped
  -- the address was compared a clock before, while the request was waiting
  have same : (inputs (accept 0 + 33 + 16 * index)).addr =
      (inputs (accept 0)).addr + BitVec.ofNat 22 (index + 1) := by
    have before : accept 0 + 33 + 16 * index = accept 0 + 18 + 16 * index + 2 * 7 + 1 := by omega
    rw [time, QFlexpress.pipeReq, before, moves] at piped
    have stb := (QFlexpress.rPipeReq_step piped).2.2.2.2.1
    rw [before, attended.held _ (by omega) (by omega) stb falling.stall,
      ← QFlexpress.addr_of_rPipeReq_step piped, falling.nextAddr]
  rw [time] at bus piped ⊢
  obtain ⟨rest, resumed⟩ := rising.continues bus piped reset cyc
  have low' : (wave (accept 0 + 18 + 16 * (index + 1))).Low 8 rest
      ((inputs (accept 0)).addr + BitVec.ofNat 22 (index + 1 + 1)) := by
    have moment : accept 0 + 18 + 16 * (index + 1) = accept 0 + 33 + 16 * index + 1 := by omega
    rw [moment, moves, BitVec.ofNat_add, ← BitVec.add_assoc, ← same]
    exact resumed
  refine ⟨⟨time, ⟨rest, low'⟩, ?_⟩, same⟩
  intro clock later within
  rw [time] at later
  exact cycles_stall moves attended (by omega) (by omega) low' (by omega) (by omega)

theorem stages (started : (wave 0).maintenance = true → (wave 0).wbStall = true)
    (reads : PipedReads wave inputs accept last)
    (attended : Attended wave inputs (accept 0) (accept 0 + 33 + 16 * last)) :
    ∀ index ≤ last, Stage wave inputs accept index := by
  intro index
  induction index with
  | zero => exact fun _ => Stage.zero moves started reads attended
  | succ index ih =>
      exact fun inside => (Stage.succ moves reads attended inside (ih (by omega))).1

omit moves in
theorem PipedReads.taken (reads : PipedReads wave inputs accept last) {index : Nat}
    (inside : index ≤ last) : (wave (accept index)).taken (inputs (accept index)) = true := by
  have bus : (wave (accept index)).busRequest (inputs (accept index)) = true := by
    cases index with
    | zero => exact reads.first
    | succ index => exact reads.later index (by omega)
  obtain ⟨stb, vacant⟩ := QFlexpress.vacant_of_busRequest bus
  rw [QFlexpress.taken, stb, vacant]
  rfl

omit moves in
theorem sckCycle_of (low : (wave start).Low count pipe next)
    (high : (wave (start + 1)).High count pipe next) :
    SckCycle wave start (if count ≤ 8 then quadRead else quadWrite) where
  low := low.sck
  high := high.sck
  select := ⟨low.csN, high.csN⟩
  mod := ⟨low.port, high.port⟩

theorem address_sent (started : (wave 0).maintenance = true → (wave 0).wbStall = true)
    (reads : PipedReads wave inputs accept last)
    (attended : Attended wave inputs (accept 0) (accept 0 + 33 + 16 * last)) {index : Nat}
    (small : index < 8) :
    let time := accept 0 + 2 + 2 * index
    let nibble := nibbleAt (addressWord (inputs (accept 0)).addr) index
    SckCycle wave time quadWrite ∧
      (wave time).oQspiDat = nibble ∧ (wave (time + 1)).oQspiDat = nibble := by
  obtain ⟨-, low, -⟩ := reads.opening moves started attended
  obtain ⟨falling, rising⟩ := cycles moves attended (by omega) (by omega) low index (by omega)
  have apart := attended.apart (accept 0) (by omega) (by omega)
    (QFlexpress.vacant_of_busRequest reads.first).1
  have shown := loaded_nibble apart small
  rw [show 4 * (index + 1) = 4 + 4 * index by omega, BitVec.shiftLeft_add] at shown
  have cycle := sckCycle_of falling rising
  rw [if_neg (by omega)] at cycle
  exact ⟨cycle, by rw [QFlexpress.oQspiDat, falling.dataPipe, shown],
    by rw [QFlexpress.oQspiDat, rising.dataPipe, shown]⟩

omit moves in
theorem requests_sole (reads : PipedReads wave inputs accept last)
    (stages : ∀ index ≤ last, Stage wave inputs accept index) {time : Nat}
    (later : accept 0 ≤ time) (inside : time < accept 0 + 33 + 16 * last) :
    (wave time).taken (inputs time) = true ↔ ∃ index ≤ last, time = accept index := by
  constructor
  · intro taken
    obtain ⟨index, within, reached, before⟩ : ∃ index ≤ last,
        acceptTime (accept 0) index ≤ time ∧ time < accept 0 + 33 + 16 * index := by
      by_cases soon : time < accept 0 + 33
      · exact ⟨0, by omega, later, by omega⟩
      · refine ⟨(time - accept 0 - 33) / 16 + 1, by omega, ?_, by omega⟩
        rw [acceptTime]
        omega
    refine ⟨index, within, ?_⟩
    by_contra apart
    have stage := stages index within
    have stall := stage.stall time (by rw [stage.time] at apart ⊢; omega) before
    rw [QFlexpress.taken_stalled stall] at taken
    cases taken
  · rintro ⟨index, within, rfl⟩
    exact reads.taken within

theorem acks_sole (started : (wave 0).maintenance = true → (wave 0).wbStall = true)
    (reads : PipedReads wave inputs accept last)
    (attended : Attended wave inputs (accept 0) (accept 0 + 33 + 16 * last))
    (stages : ∀ index ≤ last, Stage wave inputs accept index) {time : Nat}
    (later : accept 0 + 1 < time) (inside : time ≤ accept 0 + 34 + 16 * last) :
    (wave time).wbAck = true ↔ ∃ index ≤ last, time = accept 0 + 34 + 16 * index := by
  obtain ⟨-, opening, quiet⟩ := reads.opening moves started attended
  by_cases first : time = accept 0 + 2
  · rw [first, quiet]
    constructor
    · intro absurd
      cases absurd
    · rintro ⟨index, -, same⟩
      omega
  by_cases address : time ≤ accept 0 + 18
  · rw [cycles_answer moves attended (by omega) (by omega) opening (by omega) (by omega),
      decide_eq_true_eq]
    constructor
    · intro same
      omega
    · rintro ⟨index, -, same⟩
      omega
  · obtain ⟨index, within, behind, before⟩ : ∃ index ≤ last,
        accept 0 + 18 + 16 * index < time ∧ time ≤ accept 0 + 18 + 16 * index + 16 :=
      ⟨(time - accept 0 - 19) / 16, by omega, by omega, by omega⟩
    obtain ⟨pipe, low⟩ := (stages index within).word
    rw [cycles_answer moves attended (by omega) (by omega) low behind before, decide_eq_true_eq]
    constructor
    · intro same
      exact ⟨index, within, by omega⟩
    · rintro ⟨other, -, same⟩
      omega

end Run

/-- Whatever address is read and whatever the flash returns: the address and the mode byte go
out nibble by nibble, and of a run of piped reads each one is answered once, with its own
eight nibbles. -/
theorem reads_served (start : QFlexpress) (inputs : Nat → FlashClock) (accept : Nat → Nat)
    (last : Nat) (started : start.maintenance = true → start.wbStall = true)
    (reads : PipedReads (streamed QFlexpress.step start inputs) inputs accept last)
    (attended : Attended (streamed QFlexpress.step start inputs) inputs (accept 0)
      (accept 0 + 33 + 16 * last)) :
    Served (streamed QFlexpress.step start inputs) inputs accept last := by
  have moves (time : Nat) : streamed QFlexpress.step start inputs (time + 1) =
      (streamed QFlexpress.step start inputs time).step (inputs time) := rfl
  have every := stages moves started reads attended
  constructor
  · intro index small
    exact address_sent moves started reads attended small
  · intro index small
    obtain ⟨pipe, low⟩ := (every (index / 8) (by omega)).word
    obtain ⟨falling, rising⟩ :=
      cycles moves attended (by omega) (by omega) low (index % 8) (by omega)
    have cycle := sckCycle_of falling rising
    rwa [if_pos (by omega), show accept 0 + 18 + 16 * (index / 8) + 2 * (index % 8) =
      accept 0 + 18 + 2 * index by omega] at cycle
  · intro index inside
    exact ⟨(every (index + 1) inside).time,
      (Stage.succ moves reads attended inside (every index (by omega))).2⟩
  · intro time later inside
    exact requests_sole reads every later inside
  · intro index inside
    obtain ⟨pipe, low⟩ := (every index inside).word
    have word := cycles_word moves attended (by omega) (by omega) low
    rw [show accept 0 + 18 + 16 * index + 16 = accept 0 + 34 + 16 * index by omega] at word
    rw [word]
    congr 1
    funext nibble
    congr 2
    omega
  · intro time later inside
    exact acks_sole moves started reads attended every later inside

/-- The controller behind its start-up script. -/
def vacantFlash : QFlexpress where
  clkCounter := false
  dataPipe := 0
  preAck := false
  nextAddr := 0
  rPipeReq := false
  clkCtr := 0
  qspiSck := true
  qspiCsN := true
  qspiMod := quadRead
  wbStall := false
  dlyAck := false
  actualSck := false
  wbData := 0
  cfgMode := false
  cfgCs := false
  cfgSpeed := false
  cfgDir := false
  startup :=
    { maintenance := false, cmdIndex := 31, thisWord := 0x7ff, final := true, midcount := false,
      counter := 0, csN := true, mod := normalSpi, bitcount := 0, dat := 0, byte := 0, clk := true }

/-- Two reads, the second waiting behind the first; the flash counts its nibbles. -/
def twoReads (time : Nat) : FlashClock where
  reset := false
  cyc := true
  wbStb := decide (time ≤ 33)
  cfgStb := false
  we := false
  addr := if time = 0 then 0x2345 else 0x2346
  data := 0
  qspiDat := BitVec.ofNat 4 ((time - 19) / 2)

theorem second_word_read :
    (streamed QFlexpress.step vacantFlash twoReads 50).wbAck = true ∧
      (streamed QFlexpress.step vacantFlash twoReads 50).wbData = 0xefcdab89 := by
  have served := reads_served vacantFlash twoReads (acceptTime 0) 1 (by decide)
    { first := by decide
      fresh := by decide
      later := by decide +kernel
      piped := by decide +kernel
      rising := by decide
      only := by
        have free : ∀ index < 1, ∀ time < acceptTime 0 (index + 1), acceptTime 0 index < time →
            (streamed QFlexpress.step vacantFlash twoReads time).taken (twoReads time) = false := by
          decide +kernel
        exact fun index inside time later before => free index inside time before later }
    { reset := fun _ _ _ => rfl
      cyc := fun _ _ _ => rfl
      apart := fun _ _ _ _ => rfl
      held := by
        have held : ∀ time < 49, (twoReads time).wbStb = true →
            (streamed QFlexpress.step vacantFlash twoReads time).wbStall = true →
              (twoReads (time + 1)).addr = (twoReads time).addr := by
          decide +kernel
        exact fun time _ before => held time before }
  exact ⟨(served.acks 50 (by decide) (by decide)).mpr ⟨1, by decide, rfl⟩, served.word 1 (by decide)⟩

end ZipVersa.Flash
