import Mathlib.Tactic.Common

/-! `qflexpress` as `main.v` builds it: `LGFLASHSZ` 24, `OPT_CLKDIV` 1, `NDUMMY`
2, `RDDELAY` 0, with `OPT_PIPE`, `OPT_CFG`, `OPT_STARTUP` and `OPT_ENDIANSWAP` set
and the start-up script of `micron.hex`. The debugging outputs are left out. -/

set_option autoImplicit false

namespace ZipVersa.Flash

/-- The inputs of the controller at one clock. -/
structure FlashClock where
  reset : Bool
  cyc : Bool
  wbStb : Bool
  cfgStb : Bool
  we : Bool
  addr : BitVec 22
  data : BitVec 32
  qspiDat : BitVec 4
  deriving DecidableEq, Repr

/-- Part of a register assigned, the rest kept. -/
def overlay {width size : Nat} (register : BitVec width) (start : Nat) (part : BitVec size) :
    BitVec width :=
  (register &&& ~~~((BitVec.allOnes size).setWidth width <<< start)) |||
    (part.setWidth width <<< start)

def normalSpi : BitVec 2 := 0b00
def quadWrite : BitVec 2 := 0b10
def quadRead : BitVec 2 := 0b11

/-! ### Start-up -/

/-- `micron.hex`. -/
def mCmdWord : List (BitVec 11) :=
  [0x7ff, 0x7ff, 0x7ff, 0x7ff, 0x7ff, 0x0ff, 0x7ff, 0x7ff,
   0x7ff, 0x7ff, 0x7ff, 0x7ff, 0x7ff, 0x006, 0x404, 0x081,
   0x023, 0x404, 0x7ff, 0x7ff, 0x0eb, 0x200, 0x200, 0x200,
   0x2a0, 0x300, 0x300, 0x300, 0x300, 0x300, 0x7ff, 0x7ff]

/-- The registers of `GEN_STARTUP`. -/
structure Startup where
  maintenance : Bool
  cmdIndex : BitVec 5
  thisWord : BitVec 11
  final : Bool
  midcount : Bool
  counter : BitVec 10
  csN : Bool
  mod : BitVec 2
  bitcount : BitVec 4
  dat : BitVec 4
  byte : BitVec 8
  clk : Bool
  deriving DecidableEq, Repr

namespace Startup

def ce (startup : Startup) (ckstb : Bool) : Bool := !startup.midcount && ckstb

def newWord (startup : Startup) (ckstb : Bool) : Bool :=
  startup.ce ckstb && startup.bitcount == 0

/-- `m_this_word[M_WAITBIT]`. -/
def waits (startup : Startup) : Bool := startup.thisWord.getLsbD 10

/-- Chip select, mode and bit count behind a clock with `ckstb`. -/
def port (startup : Startup) : Bool × BitVec 2 × BitVec 4 :=
  if startup.bitcount != 0 then (startup.csN, startup.mod, startup.bitcount - 1)
  else if startup.ce true && startup.final then (true, normalSpi, 0)
  else if startup.midcount || startup.waits then (true, normalSpi, 0)
  else
    (false, startup.thisWord.extractLsb' 8 2,
      if !startup.thisWord.getLsbD 9 then (if startup.csN then 8 else 7)
      else (if startup.csN then 2 else 1))

/-- `m_dat` and `m_byte` behind a clock with `m_ce`. -/
def shifted (startup : Startup) : BitVec 4 × BitVec 8 :=
  let word := startup.thisWord
  if startup.bitcount == 0 then
    if startup.csN then (if word.getLsbD 7 then 0xf else 0, word.extractLsb' 0 8)
    else if !word.getLsbD 9 then
      (overlay (word.extractLsb' 4 4) 0 (word.extractLsb' 7 1),
        (word.extractLsb' 0 7 ++ (0 : BitVec 1) : BitVec 8))
    else (word.extractLsb' 4 4, (word.extractLsb' 0 4 ++ (0 : BitVec 4) : BitVec 8))
  else if !startup.mod.getLsbD 1 then
    (overlay (startup.byte.extractLsb' 4 4) 0 (startup.byte.extractLsb' 7 1),
      (startup.byte.extractLsb' 0 7 ++ (0 : BitVec 1) : BitVec 8))
  else
    (startup.byte.extractLsb' 4 4, (startup.byte.extractLsb' 0 4 ++ (0 : BitVec 4) : BitVec 8))

/-- One rising edge; with `OPT_CLKDIV` 1 the phases `ckpos` and `ckneg` are the
two values of `ckstb`. -/
def step (startup : Startup) (reset ckstb : Bool) : Startup where
  maintenance :=
    if reset then true
    else if startup.newWord ckstb then startup.maintenance && !startup.final
    else startup.maintenance
  cmdIndex :=
    if reset then 0
    else if startup.newWord ckstb && startup.cmdIndex != 31 then startup.cmdIndex + 1
    else startup.cmdIndex
  thisWord :=
    if startup.newWord ckstb then mCmdWord.getD startup.cmdIndex.toNat 0 else startup.thisWord
  final :=
    if reset then false
    else if startup.newWord ckstb then startup.final || startup.cmdIndex == 31
    else startup.final
  midcount :=
    if reset then true
    else if startup.newWord ckstb then startup.waits && startup.thisWord.extractLsb' 0 10 != 0
    else decide (1 < startup.counter)
  counter :=
    if reset then 0x3ff
    else if startup.newWord ckstb then
      (if startup.waits then startup.thisWord.extractLsb' 0 10 else startup.counter)
    else if 0 < startup.counter then startup.counter - 1
    else startup.counter
  csN := if reset then true else if ckstb then startup.port.1 else startup.csN
  mod := if reset then normalSpi else if ckstb then startup.port.2.1 else startup.mod
  bitcount := if reset then 0 else if ckstb then startup.port.2.2 else startup.bitcount
  dat := if startup.ce ckstb then startup.shifted.1 else startup.dat
  byte := if startup.ce ckstb then startup.shifted.2 else startup.byte
  clk :=
    if reset then true
    else if startup.csN then true
    else if !startup.clk && !ckstb then true
    else if startup.midcount then true
    else if startup.newWord ckstb && startup.waits then true
    else if ckstb then false
    else startup.clk

/-! The script ends. -/

/-- Words of the script read so far. -/
def stage (startup : Startup) : Nat := startup.cmdIndex.toNat + startup.final.toNat

/-- A bound on the clocks until the next word. -/
def within (startup : Startup) (ckstb : Bool) : Nat :=
  4 * startup.counter.toNat + 2 * startup.bitcount.toNat + 2 * startup.midcount.toNat +
    (!ckstb).toNat

theorem within_le (startup : Startup) (ckstb : Bool) : startup.within ckstb ≤ 4125 := by
  have counter := startup.counter.isLt
  have bits := startup.bitcount.isLt
  have mid := Bool.toNat_le startup.midcount
  have phase := Bool.toNat_le (!ckstb)
  rw [within]
  omega

/-- Between two words the bits of a word are counted down. -/
theorem bitcount_step {startup : Startup} {ckstb : Bool} (same : startup.newWord ckstb = false) :
    (startup.step false ckstb).bitcount.toNat =
      startup.bitcount.toNat - ckstb.toNat := by
  cases ckstb with
  | false => rfl
  | true =>
      by_cases finished : startup.bitcount = 0
      · have mid : startup.midcount = true := by
          simpa [newWord, ce, finished] using same
        simp [step, port, finished, ce, mid]
      · have positive : startup.bitcount.toNat ≠ 0 := fun none => finished (BitVec.eq_of_toNat_eq none)
        have counted : (startup.step false true).bitcount = startup.bitcount - 1 := by
          have finished' : startup.bitcount ≠ 0#4 := finished
          simp [step, port, finished']
        rw [counted, Bool.toNat_true]
        bv_omega

theorem counter_step {startup : Startup} {ckstb : Bool} (same : startup.newWord ckstb = false) :
    (startup.step false ckstb).counter.toNat = startup.counter.toNat - 1 := by
  simp only [step, same, Bool.false_eq_true, ite_false]
  split_ifs with positive
  · bv_omega
  · bv_omega

theorem midcount_step {startup : Startup} {ckstb : Bool} (same : startup.newWord ckstb = false) :
    (startup.step false ckstb).midcount = decide (1 < startup.counter.toNat) := by
  simp [step, same, BitVec.lt_def]

theorem within_step {startup : Startup} {ckstb : Bool} (same : startup.newWord ckstb = false) :
    (startup.step false ckstb).within (!ckstb) < startup.within ckstb := by
  have later := Bool.toNat_le (decide (1 < startup.counter.toNat))
  have now := Bool.toNat_le startup.midcount
  rw [within, within, bitcount_step same, counter_step same, midcount_step same]
  by_cases counting : startup.counter.toNat = 0
  · rw [counting, show decide (1 < 0) = false from rfl]
    cases ckstb with
    | false => simp only [Bool.not_false, Bool.not_true, Bool.toNat_true, Bool.toNat_false]; omega
    | true =>
        cases mid : startup.midcount with
        | true =>
            simp only [Bool.not_true, Bool.not_false, Bool.toNat_true, Bool.toNat_false]
            omega
        | false =>
            have more : startup.bitcount.toNat ≠ 0 := by
              intro none
              have zero : startup.bitcount = 0 := BitVec.eq_of_toNat_eq none
              simp [newWord, ce, zero, mid] at same
            simp
            omega
  · cases ckstb <;> simp only [Bool.not_true, Bool.not_false, Bool.toNat_true, Bool.toNat_false] <;>
      omega

/-- With a new word the script advances or start-up is over. -/
theorem stage_step {startup : Startup} {ckstb : Bool} (next : startup.newWord ckstb = true)
    (later : (startup.step false ckstb).maintenance = true) :
    (startup.step false ckstb).stage = startup.stage + 1 ∧ startup.stage ≤ 31 := by
  have going : startup.final = false := by
    simp only [step, next, ite_true, Bool.false_eq_true, ite_false, Bool.and_eq_true,
      Bool.not_eq_true'] at later
    exact later.2
  have size := startup.cmdIndex.isLt
  rw [stage, stage, going]
  refine ⟨?_, by rw [Bool.toNat_false]; omega⟩
  by_cases last : startup.cmdIndex = 31
  · simp [step, next, last]
  · have last' : startup.cmdIndex ≠ 31#5 := last
    have bound : startup.cmdIndex.toNat ≠ 31 := fun same => last (BitVec.eq_of_toNat_eq same)
    have moved : (startup.step false ckstb).cmdIndex = startup.cmdIndex + 1 := by
      simp [step, next, last']
    have still : (startup.step false ckstb).final = false := by
      simp [step, next, going, last']
    rw [moved, still]
    bv_omega

/-- Clocks until start-up is over, at most. -/
def rank (startup : Startup) (ckstb : Bool) : Nat :=
  if startup.maintenance then 4126 * (33 - startup.stage) + startup.within ckstb else 0

theorem rank_step {startup : Startup} {ckstb : Bool} (starting : startup.maintenance = true) :
    (startup.step false ckstb).rank (!ckstb) < startup.rank ckstb := by
  rw [rank, rank, starting, if_pos rfl]
  split_ifs with later
  · cases next : startup.newWord ckstb with
    | false =>
        have near := within_step next
        have same : (startup.step false ckstb).stage = startup.stage := by
          simp [stage, step, next]
        rw [same]
        omega
    | true =>
        obtain ⟨more, bound⟩ := stage_step next later
        have near := within_le (startup.step false ckstb) (!ckstb)
        rw [more]
        omega
  · have index := startup.cmdIndex.isLt
    have flag := Bool.toNat_le startup.final
    rw [stage]
    omega

end Startup

/-! ### The controller -/

structure QFlexpress where
  clkCounter : Bool
  startup : Startup
  dataPipe : BitVec 36
  preAck : Bool
  nextAddr : BitVec 22
  rPipeReq : Bool
  clkCtr : Nat
  qspiSck : Bool
  qspiCsN : Bool
  qspiMod : BitVec 2
  wbStall : Bool
  dlyAck : Bool
  actualSck : Bool
  wbData : BitVec 32
  cfgMode : Bool
  cfgCs : Bool
  cfgSpeed : Bool
  cfgDir : Bool
  deriving DecidableEq, Repr

namespace QFlexpress

/-- The bits `CFG_MODE`, `QSPEED_BIT`, `DIR_BIT` and `USER_CS_n` of a configuration
word. -/
def cfgModeBit (data : BitVec 32) : Bool := data.getLsbD 12
def qspeedBit (data : BitVec 32) : Bool := data.getLsbD 11
def dirBit (data : BitVec 32) : Bool := data.getLsbD 9
def userCsN (data : BitVec 32) : Bool := data.getLsbD 8

variable (flash : QFlexpress) (clock : FlashClock)

def ckstb : Bool := !flash.clkCounter
def ckpre : Bool := flash.clkCounter

def maintenance : Bool := flash.startup.maintenance

def busRequest : Bool := clock.wbStb && !flash.wbStall && !clock.we && !flash.cfgMode
def cfgStb : Bool := clock.cfgStb && !flash.wbStall

def cfgNoop : Bool :=
  flash.cfgStb clock && (!clock.we || !cfgModeBit clock.data || userCsN clock.data)

def userRequest : Bool := flash.cfgStb clock && clock.we && cfgModeBit clock.data
def cfgWrite : Bool := flash.userRequest clock && !userCsN clock.data
def cfgHsWrite : Bool := flash.cfgWrite clock && qspeedBit clock.data && dirBit clock.data
def cfgHsRead : Bool := flash.cfgWrite clock && qspeedBit clock.data && !dirBit clock.data
def cfgLsWrite : Bool := flash.cfgWrite clock && !qspeedBit clock.data

def pipeReq : Bool := flash.rPipeReq

def wPipeCondition : Bool :=
  clock.wbStb && !clock.we && flash.preAck && !flash.maintenance && !flash.cfgMode &&
    !flash.qspiCsN && flash.clkCtr % 8 != 0 && flash.nextAddr == clock.addr

/-- `data_pipe` behind a clock without `o_wb_stall`. -/
def loaded (clock : FlashClock) : BitVec 36 :=
  let address : BitVec 36 :=
    ((0 : BitVec 4) ++ clock.addr ++ (0 : BitVec 2) ++ (0xa : BitVec 4) ++ (0 : BitVec 4) : BitVec 36)
  if clock.cfgStb then
    let bit (index : Nat) : BitVec 1 := clock.data.extractLsb' index 1
    let fast := overlay address 24 (clock.data.extractLsb' 0 8)
    let sent := if qspeedBit clock.data then fast else overlay (overlay fast 28 (bit 7)) 24 (bit 6)
    overlay (overlay (overlay (overlay (overlay (overlay sent 20 (bit 5)) 16 (bit 4)) 12 (bit 3))
      8 (bit 2)) 4 (bit 1)) 0 (bit 0)
  else address

/-- `o_wb_data` behind a clock with `read_sck`. -/
def sampled : BitVec 32 :=
  let data := flash.wbData
  let slow := !flash.qspiMod.getLsbD 1
  let swapped : BitVec 32 :=
    if slow then
      (data.extractLsb' 24 7 ++ clock.qspiDat.extractLsb' 1 1 ++
        data.extractLsb' 16 7 ++ data.extractLsb' 31 1 ++
        data.extractLsb' 8 7 ++ data.extractLsb' 23 1 ++
        data.extractLsb' 0 7 ++ data.extractLsb' 15 1 : BitVec 32)
    else
      (data.extractLsb' 24 4 ++ clock.qspiDat ++
        data.extractLsb' 16 4 ++ data.extractLsb' 28 4 ++
        data.extractLsb' 8 4 ++ data.extractLsb' 20 4 ++
        data.extractLsb' 0 4 ++ data.extractLsb' 12 4 : BitVec 32)
  if flash.cfgMode then
    overlay swapped 0
      (if slow then (data.extractLsb' 0 7 ++ clock.qspiDat.extractLsb' 1 1 : BitVec 8)
        else (data.extractLsb' 0 4 ++ clock.qspiDat : BitVec 8))
  else swapped

/-- One rising edge. -/
def step : QFlexpress where
  clkCounter :=
    if clock.reset then true
    else if flash.clkCounter then false
    else if flash.busRequest clock then flash.pipeReq
    else flash.maintenance || (!flash.qspiCsN && flash.wbStall)
  startup := flash.startup.step clock.reset flash.ckstb
  dataPipe :=
    let piped :=
      if !flash.wbStall then loaded clock
      else if flash.ckstb then flash.dataPipe <<< 4
      else flash.dataPipe
    if flash.maintenance then overlay piped 32 flash.startup.dat else piped
  preAck :=
    if clock.reset || !clock.cyc then false
    else if flash.busRequest clock || flash.cfgWrite clock then true
    else flash.preAck
  nextAddr := if !flash.wbStall then clock.addr + 1 else flash.nextAddr
  rPipeReq :=
    if flash.clkCtr == 1 && flash.ckstb then false else flash.wPipeCondition clock
  clkCtr :=
    if clock.reset || flash.maintenance then 0
    else if flash.busRequest clock && !flash.pipeReq then 17
    else if flash.busRequest clock then 8
    else if flash.cfgLsWrite clock then 9
    else if flash.cfgWrite clock then 3
    else if flash.ckstb && flash.clkCtr != 0 then flash.clkCtr - 1
    else flash.clkCtr
  qspiSck :=
    if clock.reset then true
    else if flash.maintenance then flash.startup.clk
    else if flash.busRequest clock && flash.pipeReq then false
    else if flash.busRequest clock || flash.cfgWrite clock then true
    else if (flash.ckpre && !flash.qspiSck) || flash.qspiCsN then true
    else if flash.ckstb && flash.qspiSck then
      (if flash.cfgMode && decide (flash.clkCtr ≤ 1) then true
      else if 1 < flash.clkCtr then false
      else true)
    else flash.qspiSck
  qspiCsN :=
    if clock.reset then true
    else if flash.maintenance then flash.startup.csN
    else if flash.cfgStb clock && clock.we then !cfgModeBit clock.data || userCsN clock.data
    else if flash.cfgCs then false
    else if flash.busRequest clock || flash.cfgWrite clock then false
    else if flash.ckstb then decide (flash.clkCtr ≤ 1)
    else flash.qspiCsN
  qspiMod :=
    if clock.reset then normalSpi
    else if flash.maintenance then flash.startup.mod
    else if flash.busRequest clock && !flash.pipeReq then quadWrite
    else if flash.busRequest clock || flash.cfgHsRead clock then quadRead
    else if flash.cfgHsWrite clock then quadWrite
    else if flash.cfgLsWrite clock || (flash.cfgMode && !flash.cfgSpeed) then normalSpi
    else if flash.ckstb && decide (flash.clkCtr ≤ 9) && (!flash.cfgMode || !flash.cfgDir) then
      quadRead
    else flash.qspiMod
  wbStall :=
    if clock.reset then true
    else if flash.maintenance then true
    else if flash.cfgWrite clock || flash.busRequest clock then true
    else if flash.ckstb || flash.clkCtr == 0 then
      (if flash.ckpre && clock.wbStb && flash.pipeReq && flash.clkCtr == 2 then false
      else decide (1 < flash.clkCtr))
    else if flash.ckpre && clock.wbStb && flash.pipeReq && flash.clkCtr == 1 then false
    else flash.wbStall
  dlyAck :=
    if clock.reset then false
    else if flash.ckstb && flash.clkCtr == 1 then clock.cyc && flash.preAck
    else if clock.wbStb && !flash.wbStall && !flash.busRequest clock then true
    else flash.cfgNoop clock
  actualSck := if clock.reset then false else !flash.qspiSck && decide (0 < flash.clkCtr)
  wbData :=
    let read := if flash.actualSck then flash.sampled clock else flash.wbData
    if flash.cfgMode then
      overlay read 8
        ((0 : BitVec 4) ++ BitVec.ofBool flash.cfgMode ++ BitVec.ofBool flash.cfgSpeed ++
          (0 : BitVec 1) ++ BitVec.ofBool flash.cfgDir ++ BitVec.ofBool flash.cfgCs : BitVec 9)
    else read
  cfgMode :=
    if clock.reset then false
    else if flash.cfgStb clock && clock.we then cfgModeBit clock.data
    else flash.cfgMode
  cfgCs :=
    if clock.reset then false
    else if flash.cfgStb clock && clock.we then !userCsN clock.data && cfgModeBit clock.data
    else flash.cfgCs
  cfgSpeed := if flash.cfgStb clock && clock.we then qspeedBit clock.data else flash.cfgSpeed
  cfgDir := if flash.cfgStb clock && clock.we then dirBit clock.data else flash.cfgDir

theorem maintenance_step :
    (flash.step clock).maintenance = true → clock.reset = true ∨ flash.maintenance = true := by
  simp only [maintenance, step, Startup.step]
  intro later
  cases reset : clock.reset with
  | true => exact .inl rfl
  | false =>
      right
      rw [reset] at later
      cases word : flash.startup.newWord flash.ckstb with
      | true =>
          rw [word] at later
          exact ((Bool.and_eq_true _ _).mp later).1
      | false =>
          rw [word] at later
          exact later

theorem reset_of_maintenance_step (later : (flash.step clock).maintenance = false) :
    clock.reset = false := by
  cases reset : clock.reset with
  | true => simp [maintenance, step, Startup.step, reset] at later
  | false => rfl

/-- A clock at which no transfer begins. -/
structure Lets (flash : QFlexpress) (clock : FlashClock) : Prop where
  reset : clock.reset = false
  maintenance : flash.maintenance = false
  bus : flash.busRequest clock = false
  cfg : flash.cfgWrite clock = false

variable {flash clock}

/-- Until start-up is over nothing is taken. -/
theorem stall_of_maintenance_step (later : (flash.step clock).maintenance = true) :
    (flash.step clock).wbStall = true := by
  rcases maintenance_step _ _ later with reset | busy
  · simp [step, reset]
  · simp [step, busy]

theorem Lets.clkCtr (lets : flash.Lets clock) :
    (flash.step clock).clkCtr =
      if flash.clkCounter then flash.clkCtr else flash.clkCtr - 1 := by
  have slow : flash.cfgLsWrite clock = false := by rw [cfgLsWrite, lets.cfg, Bool.false_and]
  cases phase : flash.clkCounter with
  | true => simp [step, lets.reset, lets.maintenance, lets.bus, lets.cfg, slow, ckstb, phase]
  | false =>
      by_cases finished : flash.clkCtr = 0
      · simp [step, lets.reset, lets.maintenance, lets.bus, lets.cfg, slow, ckstb, phase, finished]
      · simp [step, lets.reset, lets.maintenance, lets.bus, lets.cfg, slow, ckstb, phase, finished]

theorem rPipeReq_step (later : (flash.step clock).rPipeReq = true) :
    ¬ (flash.clkCtr = 1 ∧ flash.clkCounter = false) ∧ flash.clkCtr ≠ 0 ∧
      flash.maintenance = false ∧ flash.cfgMode = false ∧ clock.wbStb = true ∧
        clock.we = false := by
  simp only [step] at later
  split at later
  · cases later
  · rename_i going
    simp only [wPipeCondition, Bool.and_eq_true, Bool.not_eq_true', bne_iff_ne] at later
    obtain ⟨⟨⟨⟨⟨⟨⟨stb, read⟩, -⟩, ready⟩, mode⟩, -⟩, counting⟩, -⟩ := later
    refine ⟨fun last => going ?_, fun finished => counting (by rw [finished]), ready, mode, stb, read⟩
    simp [ckstb, last.1, last.2]

/-- The stall line falls at the end of a transfer, or a clock before it for a
read that the transfer can continue with. -/
theorem wbStall_step (later : (flash.step clock).wbStall = false) :
    flash.Lets clock ∧
      ((flash.clkCtr ≤ 1 ∧ (flash.clkCounter = false ∨ flash.clkCtr = 0)) ∨
        (flash.clkCounter = true ∧ flash.clkCtr = 1 ∧ clock.wbStb = true ∧
          flash.rPipeReq = true) ∨
        (flash.clkCounter = true ∧ flash.clkCtr ≠ 0 ∧ flash.wbStall = false)) := by
  simp only [step] at later
  split at later
  · cases later
  rename_i reset
  split at later
  · cases later
  rename_i ready
  split at later
  · cases later
  rename_i idle
  rw [Bool.or_eq_true, not_or, Bool.not_eq_true, Bool.not_eq_true] at idle
  refine ⟨⟨Bool.not_eq_true _ ▸ reset, Bool.not_eq_true _ ▸ ready, idle.2, idle.1⟩, ?_⟩
  cases phase : flash.clkCounter with
  | false =>
      left
      simp [ckstb, ckpre, phase] at later
      exact ⟨later, .inl rfl⟩
  | true =>
      by_cases finished : flash.clkCtr = 0
      · exact .inl ⟨by omega, .inr finished⟩
      · right
        by_cases next : clock.wbStb = true ∧ flash.rPipeReq = true ∧ flash.clkCtr = 1
        · exact .inl ⟨rfl, next.2.2, next.1, next.2.1⟩
        · right
          refine ⟨rfl, finished, ?_⟩
          have waiting :
              ¬ (flash.ckpre && clock.wbStb && flash.pipeReq && flash.clkCtr == 1) = true := by
            simpa [ckpre, pipeReq, phase, and_assoc] using next
          rw [if_neg (by simp [ckstb, phase, finished]), if_neg waiting] at later
          exact later

/-! ### Requests in the controller -/

/-- The controller takes a request. -/
def taken (flash : QFlexpress) (clock : FlashClock) : Bool :=
  (clock.wbStb || clock.cfgStb) && !flash.wbStall

/-- A transfer under way that will be acknowledged. -/
def busy (flash : QFlexpress) : Bool := flash.clkCtr != 0 && flash.preAck

/-- Requests taken whose acknowledgement is still to come. -/
def pending (flash : QFlexpress) : Nat := flash.busy.toNat + flash.dlyAck.toNat

theorem not_taken (free : flash.taken clock = false) :
    flash.busRequest clock = false ∧ flash.cfgStb clock = false ∧
      (clock.wbStb && !flash.wbStall) = false := by
  simp only [taken] at free
  cases stall : flash.wbStall with
  | true => simp [busRequest, cfgStb, stall]
  | false =>
      rw [stall, Bool.not_false, Bool.and_true, Bool.or_eq_false_iff] at free
      simp [busRequest, cfgStb, free.1, free.2]

theorem not_taken_lets (free : flash.taken clock = false) (reset : clock.reset = false)
    (ready : flash.maintenance = false) : flash.Lets clock where
  reset := reset
  maintenance := ready
  bus := (not_taken free).1
  cfg := by rw [cfgWrite, userRequest, (not_taken free).2.1, Bool.false_and, Bool.false_and,
    Bool.false_and]

/-- A request that is not taken leaves no trace. -/
theorem cfgStb_discarded (stall : flash.wbStall = true) :
    flash.step { clock with cfgStb := true } = flash.step { clock with cfgStb := false } := by
  simp [step, busRequest, cfgStb, cfgNoop, cfgWrite, cfgLsWrite, cfgHsRead, cfgHsWrite,
    userRequest, wPipeCondition, sampled, stall]

theorem dlyAck_free (free : flash.taken clock = false) (reset : clock.reset = false) :
    (flash.step clock).dlyAck =
      (!flash.clkCounter && flash.clkCtr == 1 && (clock.cyc && flash.preAck)) := by
  obtain ⟨bus, cfg, stb⟩ := not_taken free
  simp only [step, reset, bus, Bool.not_false, Bool.and_true, stb, cfgNoop, cfg, Bool.false_and,
    ckstb, Bool.false_eq_true, ite_false]
  cases !flash.clkCounter && flash.clkCtr == 1 <;> simp

theorem preAck_free (free : flash.taken clock = false) (reset : clock.reset = false) :
    (flash.step clock).preAck = (clock.cyc && flash.preAck) := by
  obtain ⟨bus, cfg, -⟩ := not_taken free
  simp only [step, reset, bus, cfgWrite, userRequest, cfg]
  cases clock.cyc <;> simp

theorem pending_free (free : flash.taken clock = false) (reset : clock.reset = false)
    (running : flash.clkCtr ≠ 0 → flash.maintenance = false) (cyc : clock.cyc = true) :
    (flash.step clock).pending = flash.busy.toNat := by
  rw [pending, busy, dlyAck_free free reset, preAck_free free reset, cyc, Bool.true_and, busy]
  by_cases finished : flash.clkCtr = 0
  · have still : (flash.step clock).clkCtr = 0 := by
      cases ready : flash.maintenance with
      | true => simp [step, ready]
      | false =>
          rw [(not_taken_lets free reset ready).clkCtr, finished]
          simp
    simp [still, finished]
  · rw [(not_taken_lets free reset (running finished)).clkCtr]
    cases phase : flash.clkCounter with
    | true => simp
    | false =>
        by_cases last : flash.clkCtr = 1
        · simp [last]
        · have more : (flash.clkCtr - 1 != 0) = true := bne_iff_ne.mpr (by omega)
          have most : (flash.clkCtr != 0) = true := bne_iff_ne.mpr finished
          have least : (flash.clkCtr == 1) = false := beq_eq_false_iff_ne.mpr last
          simp [more, most, least]

theorem taken_vacant (taken : flash.taken clock = true) : flash.wbStall = false := by
  rw [QFlexpress.taken, Bool.and_eq_true, Bool.not_eq_true'] at taken
  exact taken.2

/-- A transfer begins. -/
theorem clkCtr_begins (reset : clock.reset = false) (ready : flash.maintenance = false)
    (begins : flash.busRequest clock = true ∨ flash.cfgWrite clock = true) :
    (flash.step clock).clkCtr ≠ 0 := by
  simp only [step]
  rw [if_neg (by simp [reset, ready])]
  rcases begins with bus | cfg
  · split_ifs <;> omega
  · split_ifs <;> omega

/-- A request that meets an idle controller is answered in a clock or starts a
transfer. -/
theorem pending_idle (taken : flash.taken clock = true)
    (apart : (clock.wbStb && clock.cfgStb) = false) (reset : clock.reset = false)
    (finished : flash.clkCtr = 0) (ready : flash.maintenance = false) (cyc : clock.cyc = true) :
    (flash.step clock).pending = 1 := by
  have vacant := taken_vacant taken
  by_cases begins : flash.busRequest clock = true ∨ flash.cfgWrite clock = true
  · have counting := clkCtr_begins reset ready begins
    have owed : (flash.step clock).preAck = true := by
      simp only [step, reset, cyc]
      rcases begins with bus | cfg <;> simp [*]
    have later : (flash.step clock).dlyAck = false := by
      simp only [step, reset, finished]
      rcases begins with bus | cfg
      · have stb : clock.wbStb = true := by
          simp only [busRequest, Bool.and_eq_true] at bus
          exact bus.1.1.1
        rw [stb, Bool.true_and] at apart
        simp [bus, cfgNoop, cfgStb, apart]
      · simp only [cfgWrite, userRequest, Bool.and_eq_true, Bool.not_eq_true'] at cfg
        obtain ⟨⟨⟨stb, write⟩, mode⟩, select⟩ := cfg
        have strobe := ((Bool.and_eq_true _ _).mp stb).1
        rw [strobe, Bool.and_true] at apart
        simp [apart, cfgNoop, write, mode, select]
    rw [pending, busy, later, owed]
    simp [counting]
  · rw [not_or, Bool.not_eq_true, Bool.not_eq_true] at begins
    have still : (flash.step clock).clkCtr = 0 := by
      rw [Lets.clkCtr ⟨reset, ready, begins.1, begins.2⟩, finished]
      simp
    have answered : (flash.step clock).dlyAck = true := by
      simp only [step, reset, finished, begins.1, vacant]
      cases stb : clock.wbStb with
      | true => simp
      | false =>
          rw [QFlexpress.taken, stb, vacant, Bool.false_or, Bool.not_false, Bool.and_true] at taken
          have refused := begins.2
          simp only [cfgWrite, userRequest, cfgStb, taken, vacant] at refused
          simp only [cfgNoop, cfgStb, taken, vacant]
          cases we : clock.we <;> cases mode : cfgModeBit clock.data <;>
            cases select : userCsN clock.data <;> simp_all
    rw [pending, busy, still, answered]
    simp

/-- A read taken at the last clock of a transfer. -/
theorem pending_piped (read : flash.busRequest clock = true) (reset : clock.reset = false)
    (last : flash.clkCtr = 1) (phase : flash.clkCounter = false)
    (ready : flash.maintenance = false) (cyc : clock.cyc = true) :
    (flash.step clock).pending = flash.busy.toNat + 1 := by
  have counting := clkCtr_begins reset ready (.inl read)
  have owed : (flash.step clock).preAck = true := by simp [step, reset, cyc, read]
  have answer : (flash.step clock).dlyAck = flash.preAck := by
    simp [step, reset, last, ckstb, phase, cyc]
  rw [pending, busy, owed, answer, busy, last]
  simp [counting, Nat.add_comm]

/-- `o_wb_ack`; with `RDDELAY` zero nothing is added to `dly_ack`. -/
def wbAck : Bool := flash.dlyAck

end QFlexpress

end ZipVersa.Flash
