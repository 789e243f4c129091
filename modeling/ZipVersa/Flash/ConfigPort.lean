import ZipVersa.Flash.QFlexpress
import ZipVersa.Lib.Clocked

/-! The flash and its configuration port on the bus of `main.v`. Both are the same
controller, with one stall and one acknowledgement line; the interconnect gives
the configuration port a stall of its own, which is never raised. -/

set_option autoImplicit false

namespace ZipVersa.Flash

/-- The bus at one clock: what the master does, the ten other acknowledgement
lines, and the pins of the flash. -/
structure BusClock where
  reset : Bool
  cyc : Bool
  stb : Bool
  we : Bool
  addr : BitVec 23
  data : BitVec 32
  otherStall : Bool
  otherAcks : BitVec 10
  qspiDat : BitVec 4
  deriving DecidableEq, Repr

/-- `{ wb_we, wb_addr, wb_data }`. -/
structure BusRequest where
  we : Bool
  addr : BitVec 23
  data : BitVec 32
  deriving DecidableEq, Repr

def BusClock.request (clock : BusClock) : BusRequest := ⟨clock.we, clock.addr, clock.data⟩

def flashcfgSel (addr : BitVec 23) : Bool := addr.extractLsb' 18 5 &&& 0x1f == 0x01
def flashSel (addr : BitVec 23) : Bool := addr.extractLsb' 18 5 &&& 0x10 == 0x10

theorem flashSel_flashcfgSel (addr : BitVec 23) : (flashSel addr && flashcfgSel addr) = false := by
  have each : ∀ page : BitVec 5, ((page &&& 0x10 == 0x10) && (page &&& 0x1f == 0x01)) = false := by
    decide
  exact each _

def flashcfgAck : Bool := false
def flashcfgStall : Bool := false

def BusClock.flashClock (clock : BusClock) : FlashClock where
  reset := clock.reset
  cyc := clock.cyc
  wbStb := clock.stb && flashSel clock.addr
  cfgStb := clock.stb && flashcfgSel clock.addr
  we := clock.we
  addr := clock.addr.extractLsb' 0 22
  data := clock.data
  qspiDat := clock.qspiDat

/-- The controller and the registers of the interconnect. -/
structure Bus where
  flash : QFlexpress
  wbAck : Bool
  wbManyAck : Bool
  deriving DecidableEq, Repr

namespace Bus

variable (bus : Bus) (clock : BusClock)

/-- `wb_stall`; no other peripheral is selected together with the flash. -/
def wbStall : Bool :=
  (flashcfgSel clock.addr && flashcfgStall) || (flashSel clock.addr && bus.flash.wbStall) ||
    (!flashcfgSel clock.addr && !flashSel clock.addr && clock.otherStall)

/-- How many acknowledgement lines are up. -/
def ackCount : Nat :=
  ((List.range 10).countP fun line => clock.otherAcks.getLsbD line) +
    flashcfgAck.toNat + bus.flash.wbAck.toNat

def step : Bus where
  flash := bus.flash.step clock.flashClock
  wbAck := clock.cyc && decide (0 < bus.ackCount clock)
  wbManyAck := if bus.ackCount clock ≤ 1 then false else clock.cyc

/-- A request to the flash or to its configuration port is accepted. -/
def accepts : Bool :=
  clock.stb && (flashcfgSel clock.addr || flashSel clock.addr) && !bus.wbStall clock

/-- The flash raises `wb_ack` for the next clock, and nobody else does. -/
def answers : Bool :=
  bus.flash.wbAck && (bus.step clock).wbAck && !(bus.step clock).wbManyAck

end Bus

/-! ### Bus cycles -/

/-- The bus, the request the master has to hold, and how many requests were accepted and
answered since `wb_cyc` rose. -/
structure BusRun where
  bus : Bus
  held : Option BusRequest
  asked : Nat
  answered : Nat
  deriving DecidableEq, Repr

namespace BusRun

/-- Behind a clock with `i_reset` high. -/
def start (bus : Bus) (clock : BusClock) : BusRun :=
  ⟨bus.step { clock with reset := true }, none, 0, 0⟩

def step (run : BusRun) (clock : BusClock) : BusRun where
  bus := run.bus.step clock
  held :=
    if !clock.reset && clock.stb && run.bus.wbStall clock then some clock.request else none
  asked :=
    if clock.reset || !clock.cyc then 0 else run.asked + (run.bus.accepts clock).toNat
  answered :=
    if clock.reset || !clock.cyc then 0 else run.answered + (run.bus.answers clock).toNat

/-- The rules `fwb_slave` has for a master: `stb` only within a cycle, and a
stalled request is held while the cycle lasts. -/
structure Legal (run : BusRun) (clock : BusClock) : Prop where
  within : clock.stb = true → clock.cyc = true
  holds : ∀ request, run.held = some request → clock.cyc = true →
    clock.stb = true ∧ clock.request = request

/-- No peripheral acknowledges at the clock at which the flash does. -/
def Sole (run : BusRun) (clock : BusClock) : Prop :=
  run.bus.flash.wbAck = true → clock.otherAcks = 0

/-- No configuration request while the controller is stalled. -/
def Ready (run : BusRun) (clock : BusClock) : Prop :=
  clock.stb = true → flashcfgSel clock.addr = true → run.bus.flash.wbStall = false

/-- The runs out of reset at whose clocks `Allowed` holds. -/
inductive Reaches (Allowed : BusRun → BusClock → Prop) : BusRun → Prop where
  | start (bus : Bus) (clock : BusClock) : Reaches Allowed (start bus clock)
  | step {run : BusRun} {clock : BusClock} :
      Reaches Allowed run → run.Legal clock → Allowed run clock → Reaches Allowed (run.step clock)

/-- A run goes on within its bus cycle. -/
inductive Continues : BusRun → List BusClock → BusRun → Prop where
  | nil (run : BusRun) : Continues run [] run
  | cons {run last : BusRun} {clock : BusClock} {clocks : List BusClock} :
      run.Legal clock → run.Sole clock → clock.cyc = true → clock.reset = false →
      Continues (run.step clock) clocks last → Continues run (clock :: clocks) last

/-- The master holds a read of the flash, for the controller to continue with. -/
structure Reading (run : BusRun) : Prop where
  mode : run.bus.flash.cfgMode = false
  held : ∃ request, run.held = some request ∧ request.we = false ∧ flashSel request.addr = true

/-- Within the cycle the held read is there. -/
theorem Reading.offered {run : BusRun} {clock : BusClock} (reading : run.Reading)
    (legal : run.Legal clock) (cyc : clock.cyc = true) :
    clock.flashClock.wbStb = true ∧ clock.flashClock.cfgStb = false ∧ clock.we = false := by
  obtain ⟨request, held, read, selected⟩ := reading.held
  obtain ⟨stb, rfl⟩ := legal.holds request held cyc
  have apart := flashSel_flashcfgSel clock.addr
  simp only [BusClock.request] at read selected
  rw [selected, Bool.true_and] at apart
  simp [BusClock.flashClock, stb, selected, apart, read]

/-- A read that meets a stalled controller is held. -/
theorem reading_step {run : BusRun} {clock : BusClock} (reset : clock.reset = false)
    (mode : run.bus.flash.cfgMode = false) (stall : run.bus.flash.wbStall = true)
    (stb : clock.flashClock.wbStb = true) (read : clock.we = false) : (run.step clock).Reading := by
  obtain ⟨strobe, selected⟩ := (Bool.and_eq_true _ _).mp stb
  refine ⟨?_, clock.request, ?_, read, selected⟩
  · simp [step, Bus.step, QFlexpress.step, QFlexpress.cfgStb, stall, mode]
  · simp [step, Bus.wbStall, reset, strobe, selected, stall]

/-- How the stall line and the transfer counter go together. -/
structure Orderly (run : BusRun) : Prop where
  starting : run.bus.flash.maintenance = true → run.bus.flash.wbStall = true
  running : run.bus.flash.clkCtr ≠ 0 → run.bus.flash.maintenance = false
  size : run.bus.flash.clkCtr ≤ 17
  piped : run.bus.flash.rPipeReq = true → run.bus.flash.maintenance = false → run.Reading
  vacant : run.bus.flash.wbStall = false →
    run.bus.flash.clkCtr = 0 ∨
      (run.bus.flash.clkCtr = 1 ∧ run.bus.flash.clkCounter = false ∧ run.Reading)

theorem start_orderly (bus : Bus) (clock : BusClock) : (start bus clock).Orderly where
  starting _ := rfl
  running busy := absurd rfl busy
  size := Nat.zero_le _
  piped _ ready := nomatch ready
  vacant vacant := nomatch vacant

theorem Orderly.step {run : BusRun} {clock : BusClock} (orderly : run.Orderly)
    (legal : run.Legal clock) : (run.step clock).Orderly where
  starting later := QFlexpress.stall_of_maintenance_step later
  running busy := by
    by_contra starting
    rcases QFlexpress.maintenance_step _ _ (Bool.not_eq_false _ ▸ starting) with reset | before
    · have reset' : clock.flashClock.reset = true := reset
      simp [BusRun.step, Bus.step, QFlexpress.step, reset'] at busy
    · simp [BusRun.step, Bus.step, QFlexpress.step, before] at busy
  size := by
    have before := orderly.size
    simp only [BusRun.step, Bus.step, QFlexpress.step]
    split_ifs <;> omega
  piped later ready := by
    have reset : clock.reset = false := QFlexpress.reset_of_maintenance_step _ _ ready
    obtain ⟨unfinished, counting, -, mode, stb, read⟩ := QFlexpress.rPipeReq_step later
    refine reading_step reset mode ?_ stb read
    by_contra vacant
    rcases orderly.vacant (Bool.not_eq_true _ ▸ vacant) with finished | ⟨last, phase, -⟩
    · exact counting finished
    · exact unfinished ⟨last, phase⟩
  vacant later := by
    obtain ⟨lets, ⟨last, going⟩ | ⟨phase, last, stb, piped⟩ | ⟨phase, counting, vacant⟩⟩ :=
      QFlexpress.wbStall_step later
    · left
      show (run.bus.flash.step clock.flashClock).clkCtr = 0
      rw [lets.clkCtr]
      rcases going with phase | finished
      · rw [phase]
        simp only [Bool.false_eq_true, ite_false]
        omega
      · simp [finished]
    · right
      have stalled : run.bus.flash.wbStall = true := by
        by_contra vacant
        rcases orderly.vacant (Bool.not_eq_true _ ▸ vacant) with finished | ⟨-, ready, -⟩
        · omega
        · rw [phase] at ready
          cases ready
      have reading := orderly.piped piped lets.maintenance
      have cyc := legal.within ((Bool.and_eq_true _ _).mp stb).1
      refine ⟨?_, ?_, reading_step lets.reset reading.mode stalled stb
        (reading.offered legal cyc).2.2⟩
      · show (run.bus.flash.step clock.flashClock).clkCtr = 1
        rw [lets.clkCtr, phase, if_pos rfl, last]
      · show (run.bus.flash.step clock.flashClock).clkCounter = false
        simp [QFlexpress.step, lets.reset, phase]
    · rcases orderly.vacant vacant with finished | ⟨-, ready, -⟩
      · exact absurd finished counting
      · rw [phase] at ready
        cases ready

/-! ### Requests and acknowledgements -/

theorem pending_step {run : BusRun} {clock : BusClock} (orderly : run.Orderly)
    (legal : run.Legal clock) (reset : clock.reset = false) (cyc : clock.cyc = true) :
    (run.bus.flash.step clock.flashClock).pending =
      run.bus.flash.busy.toNat + (run.bus.flash.taken clock.flashClock).toNat := by
  have apart : (clock.flashClock.wbStb && clock.flashClock.cfgStb) = false := by
    have selects := flashSel_flashcfgSel clock.addr
    simp only [BusClock.flashClock]
    cases clock.stb <;> simp [selects]
  cases taken : run.bus.flash.taken clock.flashClock with
  | false =>
      rw [QFlexpress.pending_free taken reset orderly.running cyc]
      rfl
  | true =>
      have vacant := QFlexpress.taken_vacant taken
      have ready : run.bus.flash.maintenance = false := by
        by_contra starting
        rw [orderly.starting (Bool.not_eq_false _ ▸ starting)] at vacant
        cases vacant
      rcases orderly.vacant vacant with finished | ⟨last, phase, reading⟩
      · rw [QFlexpress.pending_idle taken apart reset finished ready cyc]
        simp [QFlexpress.busy, finished]
      · obtain ⟨stb, -, read⟩ := reading.offered legal cyc
        have request : run.bus.flash.busRequest clock.flashClock = true := by
          have read' : clock.flashClock.we = false := read
          simp [QFlexpress.busRequest, stb, vacant, read', reading.mode]
        rw [QFlexpress.pending_piped request reset last phase ready cyc]
        rfl

/-- Outside a bus cycle nothing is left to be acknowledged. -/
theorem pending_outside {run : BusRun} {clock : BusClock} (legal : run.Legal clock)
    (outside : (clock.reset || !clock.cyc) = true) :
    (run.bus.flash.step clock.flashClock).pending = 0 := by
  have owed : (run.bus.flash.step clock.flashClock).preAck = false := by
    have outside' : (clock.flashClock.reset || !clock.flashClock.cyc) = true := outside
    simp [QFlexpress.step, outside']
  have silent : (run.bus.flash.step clock.flashClock).dlyAck = false := by
    cases reset : clock.reset with
    | true =>
        have reset' : clock.flashClock.reset = true := reset
        simp [QFlexpress.step, reset']
    | false =>
        rw [reset, Bool.false_or, Bool.not_eq_true'] at outside
        have still : clock.stb = false := by
          by_contra stb
          rw [legal.within (Bool.not_eq_false _ ▸ stb)] at outside
          cases outside
        have free : run.bus.flash.taken clock.flashClock = false := by
          simp [QFlexpress.taken, BusClock.flashClock, still]
        rw [QFlexpress.dlyAck_free free reset]
        simp [BusClock.flashClock, outside]
  simp [QFlexpress.pending, QFlexpress.busy, owed, silent]

/-- What the interconnect accepts the controller takes, when it is ready for it. -/
theorem accepts_eq {run : BusRun} {clock : BusClock} (ready : run.Ready clock) :
    run.bus.accepts clock = run.bus.flash.taken clock.flashClock := by
  have apart := flashSel_flashcfgSel clock.addr
  have ready' := ready
  simp only [Bus.accepts, Bus.wbStall, QFlexpress.taken, BusClock.flashClock, flashcfgStall,
    Ready] at ready' ⊢
  cases stb : clock.stb <;> cases cfg : flashcfgSel clock.addr <;>
    cases sel : flashSel clock.addr <;> simp_all

theorem answers_eq {run : BusRun} {clock : BusClock} (sole : run.Sole clock)
    (cyc : clock.cyc = true) : run.bus.answers clock = run.bus.flash.dlyAck := by
  cases ack : run.bus.flash.dlyAck with
  | false => simp [Bus.answers, QFlexpress.wbAck, ack]
  | true =>
      have alone : run.bus.ackCount clock = 1 := by
        simp [Bus.ackCount, sole ack, flashcfgAck, QFlexpress.wbAck, ack]
      simp [Bus.answers, Bus.step, alone, QFlexpress.wbAck, ack, cyc]

/-- Every accepted request is answered or still in the controller. -/
structure Balanced (run : BusRun) : Prop extends Orderly run where
  count : run.asked = run.answered + run.bus.flash.pending

theorem start_balanced (bus : Bus) (clock : BusClock) : (start bus clock).Balanced where
  toOrderly := start_orderly bus clock
  count := by
    simp [start, Bus.step, QFlexpress.pending, QFlexpress.busy, QFlexpress.step,
      BusClock.flashClock]

theorem Balanced.step {run : BusRun} {clock : BusClock} (balanced : run.Balanced)
    (legal : run.Legal clock) (sole : run.Sole clock) (ready : run.Ready clock) :
    (run.step clock).Balanced where
  toOrderly := balanced.toOrderly.step legal
  count := by
    cases outside : clock.reset || !clock.cyc with
    | true =>
        have none := pending_outside legal outside
        simp only [BusRun.step, Bus.step, outside, none, ite_true]
    | false =>
        obtain ⟨reset, cyc⟩ := Bool.or_eq_false_iff.mp outside
        rw [Bool.not_eq_false'] at cyc
        have moved := pending_step balanced.toOrderly legal reset cyc
        have before := balanced.count
        simp only [BusRun.step, Bus.step, outside, moved, accepts_eq ready,
          answers_eq sole cyc, Bool.false_eq_true, ite_false]
        rw [before, QFlexpress.pending]
        omega

theorem reaches_balanced {run : BusRun}
    (reached : Reaches (fun run clock => run.Ready clock ∧ run.Sole clock) run) :
    run.Balanced := by
  induction reached with
  | start bus clock => exact start_balanced bus clock
  | step _ legal allowed ih => exact ih.step legal allowed.2 allowed.1

/-! ### Every answer comes -/

/-- Clocks a transfer still takes, its acknowledgement included. -/
def remaining (flash : QFlexpress) : Nat := 2 * flash.clkCtr + flash.clkCounter.toNat + 1

/-- The answers up to `target` are given, given at the next clock, or given when the transfer
under way is over, within `patience` clocks. -/
inductive Due (run : BusRun) (target patience : Nat) : Prop where
  | given : target ≤ run.answered → Due run target patience
  | next : target ≤ run.answered + run.bus.flash.dlyAck.toNat → 1 ≤ patience →
      Due run target patience
  | transfer : run.bus.flash.busy = true → target ≤ run.answered + run.bus.flash.pending →
      remaining run.bus.flash ≤ patience → Due run target patience

theorem Balanced.due {run : BusRun} (balanced : run.Balanced) {patience : Nat}
    (enough : 36 ≤ patience) : run.Due run.asked patience := by
  have owed := balanced.count
  cases busy : run.bus.flash.busy with
  | false =>
      rw [QFlexpress.pending, busy, Bool.toNat_false, Nat.zero_add] at owed
      exact .next (Nat.le_of_eq owed) (by omega)
  | true =>
      refine .transfer busy (Nat.le_of_eq owed) ?_
      have size := balanced.size
      have phase := Bool.toNat_le run.bus.flash.clkCounter
      rw [remaining]
      omega

theorem answered_step {run : BusRun} {clock : BusClock} (sole : run.Sole clock)
    (reset : clock.reset = false) (cyc : clock.cyc = true) :
    (run.step clock).answered = run.answered + run.bus.flash.dlyAck.toNat := by
  simp [BusRun.step, reset, cyc, answers_eq sole cyc]

/-- A transfer under way comes a clock nearer to its end, or ends. -/
theorem busy_step {run : BusRun} {clock : BusClock} (orderly : run.Orderly)
    (reset : clock.reset = false) (cyc : clock.cyc = true) (busy : run.bus.flash.busy = true) :
    (run.bus.flash.step clock.flashClock).dlyAck = true ∨
      ((run.bus.flash.step clock.flashClock).busy = true ∧
        remaining (run.bus.flash.step clock.flashClock) + 1 ≤ remaining run.bus.flash) := by
  obtain ⟨counting, owed⟩ := (Bool.and_eq_true _ _).mp busy
  have counting' := bne_iff_ne.mp counting
  by_cases ends : run.bus.flash.clkCtr = 1 ∧ run.bus.flash.clkCounter = false
  · left
    have reset' : clock.flashClock.reset = false := reset
    have cyc' : clock.flashClock.cyc = true := cyc
    simp [QFlexpress.step, QFlexpress.ckstb, ends.1, ends.2, owed, reset', cyc']
  · right
    have stalled : run.bus.flash.wbStall = true := by
      by_contra vacant
      rcases orderly.vacant (Bool.not_eq_true _ ▸ vacant) with finished | ⟨last, phase, -⟩
      · exact counting' finished
      · exact ends ⟨last, phase⟩
    have free : run.bus.flash.taken clock.flashClock = false := by
      simp [QFlexpress.taken, stalled]
    have lets := QFlexpress.not_taken_lets free reset (orderly.running counting')
    have kept := QFlexpress.preAck_free free reset
    rw [show clock.flashClock.cyc = true from cyc, owed] at kept
    rw [QFlexpress.busy, remaining, remaining, lets.clkCtr, kept]
    cases phase : run.bus.flash.clkCounter with
    | true =>
        have falls : (run.bus.flash.step clock.flashClock).clkCounter = false := by
          simp [QFlexpress.step, lets.reset, phase]
        rw [falls]
        simp [counting']
    | false =>
        have last : run.bus.flash.clkCtr ≠ 1 := fun last => ends ⟨last, phase⟩
        have more : (run.bus.flash.clkCtr - 1 != 0) = true := bne_iff_ne.mpr (by omega)
        have bit := Bool.toNat_le (run.bus.flash.step clock.flashClock).clkCounter
        simp only [Bool.false_eq_true, ite_false, more, Bool.and_true, Bool.toNat_false, true_and]
        omega

theorem Due.step {run : BusRun} {clock : BusClock} {target patience : Nat}
    (due : run.Due target (patience + 1)) (orderly : run.Orderly) (sole : run.Sole clock)
    (reset : clock.reset = false) (cyc : clock.cyc = true) :
    (run.step clock).Due target patience := by
  have more := answered_step sole reset cyc
  cases due with
  | given done => exact .given (by omega)
  | next soon _ => exact .given (by omega)
  | transfer busy bound near =>
      rw [QFlexpress.pending, busy, Bool.toNat_true] at bound
      rcases busy_step orderly reset cyc busy with answer | ⟨still, nearer⟩
      · refine .next ?_ ?_
        · show target ≤ _ + (run.bus.flash.step clock.flashClock).dlyAck.toNat
          rw [answer, Bool.toNat_true]
          omega
        · obtain ⟨counting, -⟩ := (Bool.and_eq_true _ _).mp busy
          have counting' := bne_iff_ne.mp counting
          rw [remaining] at near
          omega
      · refine .transfer still ?_ ?_
        · show target ≤ _ + (run.bus.flash.step clock.flashClock).pending
          rw [QFlexpress.pending, still, Bool.toNat_true]
          omega
        · show remaining (run.bus.flash.step clock.flashClock) ≤ patience
          omega

theorem Due.run {run last : BusRun} {clocks : List BusClock} {target : Nat}
    (continues : run.Continues clocks last) (orderly : run.Orderly)
    (due : run.Due target clocks.length) : target ≤ last.answered := by
  induction continues with
  | nil run =>
      cases due with
      | given done => exact done
      | next _ positive => exact absurd positive (by simp)
      | transfer _ _ near => simp [remaining] at near
  | cons legal sole cyc reset _ ih =>
      exact ih (orderly.step legal) (due.step orderly sole reset cyc)

end BusRun

/-- Under the bus rules, when each configuration request finds the controller
ready, no acknowledgement comes without a request, and while the cycle lasts each
request has its acknowledgement within 36 clocks. -/
theorem flashcfg_requests_answered {run : BusRun}
    (reached : BusRun.Reaches (fun run clock => run.Ready clock ∧ run.Sole clock) run) :
    run.answered ≤ run.asked ∧
      ∀ clocks last, run.Continues clocks last → 36 ≤ clocks.length →
        run.asked ≤ last.answered := by
  have balanced := BusRun.reaches_balanced reached
  refine ⟨by have := balanced.count; omega, ?_⟩
  intro clocks last continues enough
  exact BusRun.Due.run continues balanced.toOrderly (balanced.due enough)

/-! ### Start-up -/

/-- No bus cycle. -/
def quiet : BusClock := ⟨false, false, false, false, 0, 0, false, 0, 0⟩

/-- A cycle in which the master waits. -/
def waiting : BusClock := { quiet with cyc := true }

/-- A read of the configuration port. -/
def cfgRead : BusClock := { waiting with stb := true, addr := 0x40000 }

namespace QFlexpress

/-- Without a request an idle controller stays idle. -/
theorem idle_step {flash : QFlexpress} {clock : FlashClock} (finished : flash.clkCtr = 0)
    (reset : clock.reset = false) (free : flash.taken clock = false) :
    (flash.step clock).clkCtr = 0 ∧ (flash.step clock).dlyAck = false := by
  refine ⟨?_, ?_⟩
  · cases ready : flash.maintenance with
    | true => simp [step, ready]
    | false =>
        rw [(not_taken_lets free reset ready).clkCtr, finished]
        simp
  · rw [dlyAck_free free reset, finished]
    simp

/-- Clocks until the controller takes requests, at most. -/
def untilReady (flash : QFlexpress) : Nat :=
  if flash.maintenance then flash.startup.rank flash.ckstb + 1 else flash.wbStall.toNat

theorem untilReady_step {flash : QFlexpress} {clock : FlashClock} (finished : flash.clkCtr = 0)
    (reset : clock.reset = false) (stb : clock.wbStb = false) (cfg : clock.cfgStb = false) :
    (flash.step clock).untilReady ≤ flash.untilReady - 1 := by
  have free : flash.taken clock = false := by simp [taken, stb, cfg]
  cases starting : flash.maintenance with
  | true =>
      have toggles : (flash.step clock).ckstb = !flash.ckstb := by
        have still : flash.busRequest clock = false := (not_taken free).1
        cases phase : flash.clkCounter <;> simp [ckstb, step, reset, still, starting, phase]
      have falls : (flash.startup.step false flash.ckstb).rank (!flash.ckstb) <
          flash.startup.rank flash.ckstb := Startup.rank_step starting
      have same : (flash.step clock).startup = flash.startup.step false flash.ckstb := by
        simp [step, reset]
      rw [untilReady, untilReady, starting, toggles, same, if_pos rfl]
      split_ifs with later
      · omega
      · have bit := Bool.toNat_le (flash.step clock).wbStall
        omega
  | false =>
      have ready : (flash.step clock).maintenance = false := by
        by_contra later
        rcases maintenance_step _ _ (Bool.not_eq_false _ ▸ later) with restarted | before
        · rw [reset] at restarted
          cases restarted
        · rw [starting] at before
          cases before
      have lets := not_taken_lets free reset starting
      have falls : (flash.step clock).wbStall = false := by
        simp [step, reset, starting, lets.bus, lets.cfg, finished]
      rw [untilReady, ready, falls]
      exact Nat.zero_le _

end QFlexpress

namespace BusRun

/-- Quiet clocks bring the controller through its script. -/
theorem quiet_run {Allowed : BusRun → BusClock → Prop} (allowed : ∀ run, Allowed run quiet)
    {count : Nat} {run : BusRun} (reached : Reaches Allowed run)
    (finished : run.bus.flash.clkCtr = 0) (asked : run.asked = 0) (free : run.held = none)
    (enough : run.bus.flash.untilReady ≤ count) :
    Reaches Allowed (Lib.clocked step run (List.replicate count quiet)) ∧
      (Lib.clocked step run (List.replicate count quiet)).asked = 0 ∧
      (Lib.clocked step run (List.replicate count quiet)).held = none ∧
      (Lib.clocked step run (List.replicate count quiet)).bus.flash.wbStall = false := by
  induction count generalizing run with
  | zero =>
      refine ⟨reached, asked, free, ?_⟩
      rw [QFlexpress.untilReady] at enough
      split_ifs at enough
      · omega
      · cases stall : run.bus.flash.wbStall with
        | false => exact stall
        | true => rw [stall] at enough; cases enough
  | succ count ih =>
      have legal : run.Legal quiet := ⟨nofun, fun _ _ cycle => nomatch cycle⟩
      have falls : (run.bus.flash.step quiet.flashClock).untilReady ≤
          run.bus.flash.untilReady - 1 := QFlexpress.untilReady_step finished rfl rfl rfl
      refine ih (reached.step legal (allowed run)) ?_ rfl rfl ?_
      · exact (QFlexpress.idle_step finished rfl rfl).1
      · exact Nat.le_trans falls (by omega)

/-- While the master only waits, an idle controller gives no answer. -/
theorem waiting_run {run : BusRun} (finished : run.bus.flash.clkCtr = 0)
    (silent : run.bus.flash.dlyAck = false) (free : run.held = none) (count : Nat) :
    run.Continues (List.replicate count waiting)
        (Lib.clocked step run (List.replicate count waiting)) ∧
      (Lib.clocked step run (List.replicate count waiting)).answered = run.answered := by
  induction count generalizing run with
  | zero => exact ⟨.nil run, rfl⟩
  | succ count ih =>
      have legal : run.Legal waiting := by
        refine ⟨nofun, ?_⟩
        intro request held
        rw [free] at held
        cases held
      have sole : run.Sole waiting := fun _ => rfl
      have same : (run.step waiting).answered = run.answered := by
        rw [answered_step sole rfl rfl, silent]
        rfl
      obtain ⟨still, mute⟩ : (run.bus.flash.step waiting.flashClock).clkCtr = 0 ∧
          (run.bus.flash.step waiting.flashClock).dlyAck = false :=
        QFlexpress.idle_step finished rfl rfl
      obtain ⟨continues, none⟩ := @ih (run.step waiting) still mute rfl
      exact ⟨.cons legal sole rfl rfl continues, by
        rw [List.replicate_succ, Lib.clocked_cons, none, same]⟩

end BusRun

/-- The bus as it is built, the registers without a reset being zero. -/
def freshBus : Bus where
  flash :=
    { clkCounter := true, dataPipe := 0, preAck := false, nextAddr := 0, rPipeReq := false,
      clkCtr := 0, qspiSck := true, qspiCsN := true, qspiMod := normalSpi, wbStall := true,
      dlyAck := false, actualSck := false, wbData := 0, cfgMode := false, cfgCs := false,
      cfgSpeed := false, cfgDir := false,
      startup :=
        { maintenance := true, cmdIndex := 0, thisWord := 0x7ff, final := false, midcount := true,
          counter := 0x3ff, csN := true, mod := normalSpi, bitcount := 0, dat := 0, byte := 0,
          clk := true } }
  wbAck := false
  wbManyAck := false

/-- The controller has gone through its script. -/
def startedUp : BusRun :=
  Lib.clocked BusRun.step (BusRun.start freshBus quiet)
    (List.replicate (BusRun.start freshBus quiet).bus.flash.untilReady quiet)

theorem startedUp_ready :
    BusRun.Reaches (fun run clock => run.Ready clock ∧ run.Sole clock) startedUp ∧
      startedUp.asked = 0 ∧ startedUp.held = none ∧ startedUp.bus.flash.wbStall = false := by
  unfold startedUp
  exact BusRun.quiet_run (fun _ => ⟨nofun, fun _ => rfl⟩) (.start freshBus quiet) rfl rfl rfl
    (Nat.le_refl _)

/-- A configuration read behind start-up has its answer. -/
theorem configuration_read_answered :
    (startedUp.step cfgRead).asked = 1 ∧ (startedUp.step cfgRead).answered ≤ 1 ∧
      ∀ clocks last, (startedUp.step cfgRead).Continues clocks last → 36 ≤ clocks.length →
        1 ≤ last.answered := by
  obtain ⟨reached, asked, free, vacant⟩ := startedUp_ready
  have once : (startedUp.step cfgRead).asked = 1 := by
    simp only [BusRun.step, asked]
    rfl
  have legal : startedUp.Legal cfgRead := by
    refine ⟨fun _ => rfl, ?_⟩
    intro request held
    rw [free] at held
    cases held
  have next := flashcfg_requests_answered
    (reached.step legal ⟨fun _ _ => vacant, fun _ => rfl⟩)
  rw [once] at next
  exact ⟨once, next⟩

/-- A configuration read during start-up is accepted and never answered. -/
theorem startup_request_lost :
    ¬ ∀ run, BusRun.Reaches BusRun.Sole run →
        run.answered ≤ run.asked ∧
          ∃ patience, ∀ clocks last, run.Continues clocks last → patience ≤ clocks.length →
            run.asked ≤ last.answered := by
  intro every
  have started : BusRun.Reaches BusRun.Sole (BusRun.start freshBus quiet) := .start freshBus quiet
  have legal : (BusRun.start freshBus quiet).Legal cfgRead := ⟨fun _ => rfl, nofun⟩
  have reached := started.step legal fun _ => rfl
  obtain ⟨-, patience, answers⟩ := every _ reached
  obtain ⟨continues, none⟩ :=
    @BusRun.waiting_run ((BusRun.start freshBus quiet).step cfgRead) rfl rfl rfl patience
  have late := answers _ _ continues (by simp)
  rw [none] at late
  exact absurd late (by decide)

end ZipVersa.Flash
