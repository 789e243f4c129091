import Mathlib.Algebra.Ring.Nat
import Mathlib.Tactic.Common
import ZipVersa.Picorv.PcpiDiv

/-! The multiplications and divisions of the core as `wb_picorv32` sets it up:
`ENABLE_MUL` and `ENABLE_DIV`, no `ENABLE_FAST_MUL` and nothing at the outer
co-processor interface. The core fetches an instruction, and one that it does not
decode itself waits in `cpu_state_ld_rs1` for an answer. -/

set_option autoImplicit false

namespace ZipVersa.Picorv

/-- An instruction and the values of the registers that it names. -/
structure Entry where
  insn : BitVec 32
  rs1 : BitVec 32
  rs2 : BitVec 32
  deriving DecidableEq, Repr

/-- What becomes of an instruction in `cpu_state_ld_rs1`: `pcpi_int_wr` and
`pcpi_int_rd` are taken, or the instruction is none that there is. -/
inductive Outcome where
  | done (wr : Bool) (rd : Option (BitVec 32))
  | illegal
  deriving DecidableEq, Repr

/-- What is to become of it. -/
def Entry.execute (entry : Entry) : Outcome :=
  match MulInstr.decode entry.insn, DivInstr.decode entry.insn with
  | some instr, _ => .done true (some (instr.result entry.rs1 entry.rs2))
  | none, some instr => .done true (some (instr.result entry.rs1 entry.rs2))
  | none, none => .illegal

/-- `instr_ecall_ebreak` -/
def ecallEbreak (insn : BitVec 32) : Bool :=
  (insn.extractLsb' 0 7 == 0b1110011#7 && insn.extractLsb' 21 11 == 0 &&
    insn.extractLsb' 7 13 == 0) || insn.extractLsb' 0 16 == 0x9002#16

/-- `cpu_state`: `ldRs1` is `cpu_state_ld_rs1` with `instr_trap` set, and `away`
every state that an instruction of the core's own goes through. -/
inductive CpuState where
  | fetch
  | ldRs1
  | away
  | trap
  deriving DecidableEq, Repr

/-- What the core does of its own: an instruction has been fetched that it decodes
or does not decode, one of its own is through, or it traps. -/
inductive Move where
  | stay
  | request (entry : Entry)
  | execute
  | fetch
  | trap
  deriving DecidableEq, Repr

/-- The rest of the core at one clock: `mem_done`, what is left in `mem_do_rinst`,
`decoder_trigger` and the operands where they are not the subject here, and
whether an illegal instruction is an interrupt. -/
structure PcpiClock where
  memDone : Bool
  move : Move
  rinst : Bool
  trigger : Bool
  regOp1 : BitVec 32
  regOp2 : BitVec 32
  irq : Bool
  deriving DecidableEq, Repr

structure PcpiCore where
  mul : PcpiMul
  div : PcpiDiv
  cpuState : CpuState
  memDoRinst : Bool
  decoderTrigger : Bool
  /-- `pcpi_insn`, `cpuregs_rs1` and `cpuregs_rs2` -/
  entry : Entry
  pcpiValid : Bool
  regOp1 : BitVec 32
  regOp2 : BitVec 32
  timeoutCounter : BitVec 4
  timeout : Bool
  deriving DecidableEq, Repr

namespace PcpiCore

/-- What both units see. -/
def pcpi (core : PcpiCore) : PcpiIn := ⟨core.pcpiValid, core.entry.insn, core.regOp1, core.regOp2⟩

/-- `pcpi_int_wait` -/
def intWait (core : PcpiCore) : Bool := core.mul.pcpiWait || core.div.pcpiWait

/-- `pcpi_int_ready` -/
def intReady (core : PcpiCore) : Bool := core.mul.pcpiReady || core.div.pcpiReady

/-- `pcpi_int_wr` -/
def intWr (core : PcpiCore) : Bool :=
  if core.mul.pcpiReady then core.mul.pcpiWr
  else if core.div.pcpiReady then core.div.pcpiWr
  else false

/-- `pcpi_int_rd` -/
def intRd (core : PcpiCore) : Option (BitVec 32) :=
  if core.mul.pcpiReady then some core.mul.pcpiRd
  else if core.div.pcpiReady then core.div.pcpiRd
  else none

/-- What `cpu_state_ld_rs1` comes to at this clock. -/
def outcome (core : PcpiCore) : Option Outcome :=
  if core.cpuState = .ldRs1 then
    if core.intReady then some (.done core.intWr core.intRd)
    else if core.timeout || ecallEbreak core.entry.insn then some .illegal
    else none
  else none

def nextState (core : PcpiCore) (clock : PcpiClock) : CpuState :=
  match core.cpuState, core.outcome, clock.move with
  | .fetch, _, .request _ => if core.decoderTrigger then .ldRs1 else .fetch
  | .fetch, _, .execute => if core.decoderTrigger then .away else .fetch
  | .fetch, _, .trap => .trap
  | .fetch, _, _ => .fetch
  | .ldRs1, none, _ => .ldRs1
  | .ldRs1, some (.done _ _), _ => .fetch
  | .ldRs1, some .illegal, _ => if clock.irq then .fetch else .trap
  | .away, _, .fetch => .fetch
  | .away, _, .trap => .trap
  | .away, _, _ => .away
  | .trap, _, _ => .trap

/-- The instruction that is handed over at this clock. -/
def enters (core : PcpiCore) (clock : PcpiClock) : Option Entry :=
  match core.cpuState, clock.move with
  | .fetch, .request entry => if core.decoderTrigger then some entry else none
  | _, _ => none

/-- One rising edge out of reset. -/
def step (core : PcpiCore) (clock : PcpiClock) : PcpiCore where
  mul := core.mul.step true core.pcpi
  div := core.div.step true core.pcpi
  cpuState := core.nextState clock
  memDoRinst :=
    match core.cpuState with
    | .fetch => if (core.enters clock).isSome then false else clock.rinst
    | .ldRs1 => core.memDoRinst || core.intReady
    | .away | .trap => clock.rinst
  decoderTrigger :=
    match core.cpuState with
    | .fetch | .ldRs1 => core.memDoRinst && clock.memDone
    | .away | .trap => clock.trigger
  entry := (core.enters clock).getD core.entry
  pcpiValid := if core.cpuState = .ldRs1 then core.outcome.isNone else core.pcpiValid
  regOp1 := if core.cpuState = .ldRs1 then core.entry.rs1 else clock.regOp1
  regOp2 := if core.cpuState = .ldRs1 then core.entry.rs2 else clock.regOp2
  timeoutCounter :=
    if core.pcpiValid && !core.intWait then
      if core.timeoutCounter = 0 then 0 else core.timeoutCounter - 1
    else 15
  timeout := core.timeoutCounter == 0

/-- One rising edge with `resetn` low. -/
def reset (core : PcpiCore) : PcpiCore :=
  { core with
    mul := core.mul.step false core.pcpi
    div := core.div.step false core.pcpi
    cpuState := .fetch
    memDoRinst := false
    decoderTrigger := false
    pcpiValid := false
    timeoutCounter := 15
    timeout := false }

end PcpiCore

/-- The core, the instructions handed over, those retired with what became of
them, and for how long the last has been waiting. -/
structure PcpiRun where
  core : PcpiCore
  entered : List Entry
  retired : List (Entry × Outcome)
  age : Nat
  deriving DecidableEq, Repr

namespace PcpiRun

/-- Behind two clocks with `resetn` low. -/
def start (core : PcpiCore) : PcpiRun := ⟨core.reset.reset, [], [], 0⟩

def step (run : PcpiRun) (clock : PcpiClock) : PcpiRun where
  core := run.core.step clock
  entered := run.entered ++ (run.core.enters clock).toList
  retired := run.retired ++ (run.core.outcome.map fun outcome => (run.core.entry, outcome)).toList
  age := if run.core.cpuState = .ldRs1 ∧ run.core.outcome = none then run.age + 1 else 0

/-- Every run of the core, whatever it fetches and however long that takes. -/
inductive Reaches : PcpiRun → Prop where
  | start (core : PcpiCore) : Reaches (start core)
  | step {run : PcpiRun} (clock : PcpiClock) : Reaches run → Reaches (run.step clock)

/-- The instructions are retired in the order in which they were handed over, all
but the one that is waiting, each with what is to become of it, and none waits
for long. -/
structure Executes (run : PcpiRun) : Prop where
  order : run.entered = run.retired.map Prod.fst ++
    if run.core.cpuState = .ldRs1 then [run.core.entry] else []
  results : ∀ entry ∈ run.retired, entry.2 = entry.1.execute
  prompt : run.age ≤ 69

end PcpiRun

/-! ### Which unit -/

theorem isM_of_mul {insn : BitVec 32} {instr : MulInstr}
    (decoded : MulInstr.decode insn = some instr) : isM insn = true := by
  cases m : isM insn with
  | true => rfl
  | false => simp [MulInstr.decode, m] at decoded

theorem isM_of_div {insn : BitVec 32} {instr : DivInstr}
    (decoded : DivInstr.decode insn = some instr) : isM insn = true := by
  cases m : isM insn with
  | true => rfl
  | false => simp [DivInstr.decode, m] at decoded

/-- No instruction is for both units. -/
theorem one_unit (insn : BitVec 32) : MulInstr.decode insn = none ∨ DivInstr.decode insn = none := by
  cases m : isM insn with
  | false => simp [MulInstr.decode, m]
  | true =>
      rw [MulInstr.decode, DivInstr.decode, if_pos m, if_pos m]
      generalize insn.extractLsb' 12 3 = funct
      revert funct
      decide

theorem div_of_mul {insn : BitVec 32} {instr : MulInstr}
    (decoded : MulInstr.decode insn = some instr) : DivInstr.decode insn = none := by
  rcases one_unit insn with none | none
  · rw [decoded] at none
    cases none
  · exact none

theorem mul_of_div {insn : BitVec 32} {instr : DivInstr}
    (decoded : DivInstr.decode insn = some instr) : MulInstr.decode insn = none := by
  rcases one_unit insn with none | none
  · exact none
  · rw [decoded] at none
    cases none

/-- No multiplication or division is a call of the environment. -/
theorem not_ecallEbreak {insn : BitVec 32} (m : isM insn = true) : ecallEbreak insn = false := by
  obtain ⟨opcode, -⟩ : insn.extractLsb' 0 7 = 0b0110011#7 ∧ insn.extractLsb' 25 7 = 0b0000001#7 := by
    simpa [isM] using m
  have low : insn.extractLsb' 0 16 ≠ 0x9002#16 := by
    intro compressed
    have narrow : (insn.extractLsb' 0 16).extractLsb' 0 7 = insn.extractLsb' 0 7 := by
      apply BitVec.eq_of_toNat_eq
      simp only [BitVec.extractLsb'_toNat, Nat.shiftRight_zero]
      omega
    rw [compressed, opcode] at narrow
    exact absurd narrow (by decide)
  rw [ecallEbreak, opcode, beq_eq_false_iff_ne.mpr low]
  rfl

theorem execute_mul {entry : Entry} {instr : MulInstr}
    (decoded : MulInstr.decode entry.insn = some instr) :
    entry.execute = .done true (some (instr.result entry.rs1 entry.rs2)) := by
  rw [Entry.execute, decoded]

theorem execute_div {entry : Entry} {instr : DivInstr}
    (decoded : DivInstr.decode entry.insn = some instr) :
    entry.execute = .done true (some (instr.result entry.rs1 entry.rs2)) := by
  rw [Entry.execute, mul_of_div decoded, decoded]

theorem execute_illegal {entry : Entry} (noMul : MulInstr.decode entry.insn = none)
    (noDiv : DivInstr.decode entry.insn = none) : entry.execute = .illegal := by
  rw [Entry.execute, noMul, noDiv]

/-! ### One clock of the core -/

namespace PcpiCore

variable {core : PcpiCore} {clock : PcpiClock} {entry : Entry} {count : Nat}

/-- The instruction that waits is asked for. -/
structure Asking (core : PcpiCore) (entry : Entry) : Prop where
  ld : core.cpuState = .ldRs1
  own : core.entry = entry
  rinst : core.memDoRinst = false
  valid : core.pcpiValid = true
  op1 : core.regOp1 = entry.rs1
  op2 : core.regOp2 = entry.rs2

theorem Asking.step (asking : Asking core entry) (waits : core.outcome = none) :
    Asking (core.step clock) entry := by
  obtain ⟨ld, rfl, rinst, valid, op1, op2⟩ := asking
  have stays : core.enters clock = none := by simp [enters, ld]
  refine ⟨?_, ?_, ?_, ?_, ?_, ?_⟩
  · simp [PcpiCore.step, nextState, ld, waits]
  · simp [PcpiCore.step, stays]
  · cases ready : core.intReady with
    | false => simp [PcpiCore.step, ld, rinst, ready]
    | true => simp [outcome, ld, ready] at waits
  · simp [PcpiCore.step, ld, waits]
  · simp [PcpiCore.step, ld]
  · simp [PcpiCore.step, ld]

theorem Asking.asksMul {instr : MulInstr} (asking : Asking core entry)
    (decoded : MulInstr.decode entry.insn = some instr) :
    PcpiMul.Asks core.pcpi instr entry.rs1 entry.rs2 := by
  obtain ⟨-, rfl, -, valid, op1, op2⟩ := asking
  exact ⟨valid, decoded, op1, op2⟩

theorem Asking.asksDiv {instr : DivInstr} (asking : Asking core entry)
    (decoded : DivInstr.decode entry.insn = some instr) :
    PcpiDiv.Asks core.pcpi instr entry.rs1 entry.rs2 := by
  obtain ⟨-, rfl, -, valid, op1, op2⟩ := asking
  exact ⟨valid, decoded, op1, op2⟩

theorem Asking.passMul (asking : Asking core entry) (other : MulInstr.decode entry.insn = none)
    (idle : PcpiMul.Idle core.mul) : PcpiMul.Idle (core.step clock).mul :=
  idle.pass fun _ => by rw [pcpi, asking.own]; exact other

theorem Asking.passDiv (asking : Asking core entry) (other : DivInstr.decode entry.insn = none)
    (idle : PcpiDiv.Idle core.div) : PcpiDiv.Idle (core.step clock).div :=
  idle.pass fun _ => by rw [pcpi, asking.own]; exact other

/-- `count` of the clocks are gone that an instruction has until a unit says that
it is at work. -/
structure Patient (core : PcpiCore) (count : Nat) : Prop where
  counter : core.timeoutCounter = BitVec.ofNat 4 (15 - count)
  timeout : core.timeout = false

theorem Patient.some_left (patient : Patient core count) (left : count < 15) :
    core.timeoutCounter ≠ 0 := by
  intro none
  have value := congrArg BitVec.toNat (patient.counter.symm.trans none)
  rw [BitVec.toNat_ofNat] at value
  change (15 - count) % 16 = 0 at value
  omega

/-- A unit is at work. -/
theorem Patient.waits (patient : Patient core count) (left : count < 15)
    (wait : core.intWait = true) : Patient (core.step clock) 0 :=
  ⟨by simp [PcpiCore.step, wait], beq_eq_false_iff_ne.mpr (patient.some_left left)⟩

/-- None is. -/
theorem Patient.counts (patient : Patient core count) (left : count < 15)
    (valid : core.pcpiValid = true) (wait : core.intWait = false) :
    Patient (core.step clock) (count + 1) := by
  have some := patient.some_left left
  refine ⟨?_, beq_eq_false_iff_ne.mpr some⟩
  have less : (core.step clock).timeoutCounter = core.timeoutCounter - 1 := by
    simpa [PcpiCore.step, valid, wait] using fun zero => absurd zero some
  rw [less, patient.counter]
  apply BitVec.eq_of_toNat_eq
  have one : (1 : BitVec 4).toNat = 1 := rfl
  rw [BitVec.toNat_sub, BitVec.toNat_ofNat, BitVec.toNat_ofNat, one]
  omega

/-- No instruction is asked for. -/
theorem Patient.silent (patient : Patient core 0) (valid : core.pcpiValid = false) :
    Patient (core.step clock) 0 :=
  ⟨by simp [PcpiCore.step, valid], beq_eq_false_iff_ne.mpr (patient.some_left (by decide))⟩

theorem outcome_none (calm : core.intReady = false) (patient : core.timeout = false)
    (known : ecallEbreak core.entry.insn = false) : core.outcome = none := by
  simp [outcome, calm, patient, known]

/-! ### From the request to the answer -/

/-- How far an instruction has come, and for how many clocks it has waited. -/
inductive Waits (core : PcpiCore) (entry : Entry) : Nat → Prop where
  | mulAsked {instr : MulInstr} : MulInstr.decode entry.insn = some instr →
      PcpiMul.Idle core.mul → PcpiDiv.Idle core.div → Patient core 0 → Waits core entry 1
  | mulDecoded {instr : MulInstr} : MulInstr.decode entry.insn = some instr →
      PcpiMul.Decoded core.mul instr → PcpiDiv.Idle core.div → Patient core 1 → Waits core entry 2
  | mulStarting {instr : MulInstr} : MulInstr.decode entry.insn = some instr →
      PcpiMul.Starting core.mul instr → PcpiDiv.Idle core.div → Patient core 2 → Waits core entry 3
  | mulWorking {instr : MulInstr} {count : Nat} : MulInstr.decode entry.insn = some instr →
      PcpiMul.Working core.mul instr entry.rs1 entry.rs2 count → count < steps instr →
      PcpiDiv.Idle core.div → Patient core 0 → Waits core entry (4 + count)
  | mulFinished {instr : MulInstr} : MulInstr.decode entry.insn = some instr →
      PcpiMul.Finished core.mul instr entry.rs1 entry.rs2 → PcpiDiv.Idle core.div →
      Patient core 0 → Waits core entry (4 + steps instr)
  | mulReady {instr : MulInstr} : MulInstr.decode entry.insn = some instr →
      PcpiMul.Ready core.mul instr entry.rs1 entry.rs2 → PcpiDiv.Idle core.div →
      Patient core 0 → Waits core entry (5 + steps instr)
  | divAsked {instr : DivInstr} : DivInstr.decode entry.insn = some instr →
      PcpiMul.Idle core.mul → PcpiDiv.Idle core.div → Patient core 0 → Waits core entry 1
  | divDecoded {instr : DivInstr} : DivInstr.decode entry.insn = some instr →
      PcpiMul.Idle core.mul → PcpiDiv.Decoded core.div instr → Patient core 1 → Waits core entry 2
  | divStarting {instr : DivInstr} : DivInstr.decode entry.insn = some instr →
      PcpiMul.Idle core.mul → PcpiDiv.Starting core.div instr → Patient core 2 → Waits core entry 3
  | divWorking {instr : DivInstr} {count : Nat} : DivInstr.decode entry.insn = some instr →
      PcpiMul.Idle core.mul → PcpiDiv.Working core.div instr entry.rs1 entry.rs2 count →
      count ≤ 32 → Patient core 0 → Waits core entry (4 + count)
  | divReady {instr : DivInstr} : DivInstr.decode entry.insn = some instr →
      PcpiMul.Idle core.mul → PcpiDiv.Ready core.div instr entry.rs1 entry.rs2 →
      Patient core 0 → Waits core entry 37
  | unknown {count : Nat} : MulInstr.decode entry.insn = none → DivInstr.decode entry.insn = none →
      ecallEbreak entry.insn = false → PcpiMul.Idle core.mul → PcpiDiv.Idle core.div →
      count ≤ 15 → Patient core count → Waits core entry (1 + count)
  | timedOut : MulInstr.decode entry.insn = none → DivInstr.decode entry.insn = none →
      PcpiMul.Idle core.mul → PcpiDiv.Idle core.div → core.timeout = true → Waits core entry 17

/-- Between two instructions: what is left of the last starts no unit, and no
patience has been lost. Behind an illegal instruction the core has two clocks
before it can hand over the next. -/
inductive Apart (core : PcpiCore) : Prop where
  | trapped : core.cpuState = .fetch → core.memDoRinst = false → core.decoderTrigger = false →
      Apart core
  | recovering : core.cpuState = .fetch → core.decoderTrigger = false → core.timeoutCounter = 15 →
      Apart core
  | rested : core.cpuState = .fetch ∨ core.cpuState = .away → Patient core 0 → Apart core

/-- Where the core is, and for how many clocks the instruction has waited. -/
inductive Sound (core : PcpiCore) : Nat → Prop where
  | stopped : core.cpuState = .trap → Sound core 0
  | apart : Apart core → core.pcpiValid = false → PcpiMul.Falling core.mul →
      PcpiDiv.Fallen core.div → Sound core 0
  | entered : core.cpuState = .ldRs1 → core.memDoRinst = false → core.pcpiValid = false →
      PcpiMul.Fallen core.mul → PcpiDiv.Fallen core.div → Patient core 0 → Sound core 0
  | asked {entry : Entry} {age : Nat} : Asking core entry → Waits core entry age → Sound core age

theorem intReady_eq_false (mul : core.mul.pcpiReady = false) (div : core.div.pcpiReady = false) :
    core.intReady = false := by
  rw [intReady, mul, div]
  rfl

theorem intWait_eq_false (mul : core.mul.pcpiWait = false) (div : core.div.pcpiWait = false) :
    core.intWait = false := by
  rw [intWait, mul, div]
  rfl

/-- The core goes on with the result of a unit. -/
theorem Asking.answered {wr : Bool} {rd : Option (BitVec 32)} (asking : Asking core entry)
    (answer : core.outcome = some (.done wr rd)) (wait : core.intWait = true)
    (patient : Patient core 0) (mul : PcpiMul.Falling (core.step clock).mul)
    (div : PcpiDiv.Fallen (core.step clock).div) : Sound (core.step clock) 0 := by
  refine .apart (.rested (.inl ?_) (patient.waits (by decide) wait)) ?_ mul div
  · simp [PcpiCore.step, nextState, asking.ld, answer]
  · simp [PcpiCore.step, asking.ld, answer]

/-- Or with nothing, and has to fetch the next instruction from the start. -/
theorem refused (ld : core.cpuState = .ldRs1) (rinst : core.memDoRinst = false)
    (calm : core.intReady = false) (answer : core.outcome = some .illegal)
    (mul : PcpiMul.Falling (core.step clock).mul) (div : PcpiDiv.Fallen (core.step clock).div) :
    Sound (core.step clock) 0 := by
  cases irq : clock.irq with
  | true =>
      refine .apart (.trapped ?_ ?_ ?_) ?_ mul div
      · simp [PcpiCore.step, nextState, ld, answer, irq]
      · simp [PcpiCore.step, ld, rinst, calm]
      · simp [PcpiCore.step, ld, rinst]
      · simp [PcpiCore.step, ld, answer]
  | false =>
      refine .stopped ?_
      simp [PcpiCore.step, nextState, ld, answer, irq]

/-- An instruction gets one clock nearer to its answer, or has it. -/
def Nears (core : PcpiCore) (clock : PcpiClock) (entry : Entry) (age : Nat) : Prop :=
  (core.outcome = none ∧ Waits (core.step clock) entry (age + 1)) ∨
    (core.outcome = some entry.execute ∧ Sound (core.step clock) 0)

/-! A multiplication. -/

theorem Asking.mul_pending {instr : MulInstr} (asking : Asking core entry)
    (decoded : MulInstr.decode entry.insn = some instr) (mul : core.mul.pcpiReady = false)
    (div : core.div.pcpiReady = false) (patient : core.timeout = false) : core.outcome = none :=
  outcome_none (intReady_eq_false mul div) patient
    (asking.own ▸ not_ecallEbreak (isM_of_mul decoded))

theorem Asking.mulWorking {instr : MulInstr} (asking : Asking core entry)
    (decoded : MulInstr.decode entry.insn = some instr)
    (mul : PcpiMul.Working core.mul instr entry.rs1 entry.rs2 count) (more : count < steps instr)
    (div : PcpiDiv.Idle core.div) (patient : Patient core 0) :
    Nears core clock entry (4 + count) := by
  have wait : core.intWait = true := by simp [intWait, mul.wait]
  have div' : PcpiDiv.Idle (core.step clock).div := asking.passDiv (div_of_mul decoded) div
  have patient' : Patient (core.step clock) 0 := patient.waits (by decide) wait
  refine .inl ⟨asking.mul_pending decoded mul.ready div.ready patient.timeout, ?_⟩
  rcases Nat.lt_or_ge (count + 1) (steps instr) with further | last
  · exact .mulWorking decoded (mul.step (asking.asksMul decoded) further) further div' patient'
  · have final : count + 1 = steps instr := Nat.le_antisymm more last
    rw [Nat.add_assoc, final]
    exact .mulFinished decoded (mul.finishes (asking.asksMul decoded) final) div' patient'

theorem Asking.mulReady {instr : MulInstr} (asking : Asking core entry)
    (decoded : MulInstr.decode entry.insn = some instr)
    (mul : PcpiMul.Ready core.mul instr entry.rs1 entry.rs2) (div : PcpiDiv.Idle core.div)
    (patient : Patient core 0) {age : Nat} : Nears core clock entry age := by
  have ld := asking.ld
  have answer : core.outcome = some entry.execute := by
    simp [outcome, ld, intReady, intWr, intRd, mul.ready, mul.wr, mul.rd, execute_mul decoded]
  have wait : core.intWait = true := by simp [intWait, mul.wait]
  refine .inr ⟨answer, ?_⟩
  rw [execute_mul decoded] at answer
  exact asking.answered answer wait patient (mul.falls core.pcpi)
    (asking.passDiv (div_of_mul decoded) div).fallen

/-! A division. -/

theorem Asking.div_pending {instr : DivInstr} (asking : Asking core entry)
    (decoded : DivInstr.decode entry.insn = some instr) (mul : core.mul.pcpiReady = false)
    (div : core.div.pcpiReady = false) (patient : core.timeout = false) : core.outcome = none :=
  outcome_none (intReady_eq_false mul div) patient
    (asking.own ▸ not_ecallEbreak (isM_of_div decoded))

theorem Asking.divWorking {instr : DivInstr} (asking : Asking core entry)
    (decoded : DivInstr.decode entry.insn = some instr) (mul : PcpiMul.Idle core.mul)
    (div : PcpiDiv.Working core.div instr entry.rs1 entry.rs2 count) (within : count ≤ 32)
    (patient : Patient core 0) : Nears core clock entry (4 + count) := by
  have wait : core.intWait = true := by simp [intWait, div.wait]
  have mul' : PcpiMul.Idle (core.step clock).mul := asking.passMul (mul_of_div decoded) mul
  have patient' : Patient (core.step clock) 0 := patient.waits (by decide) wait
  refine .inl ⟨asking.div_pending decoded mul.ready div.ready patient.timeout, ?_⟩
  rcases Nat.lt_or_ge count 32 with further | last
  · exact .divWorking decoded mul' (div.step (asking.asksDiv decoded) further) further patient'
  · obtain rfl : count = 32 := Nat.le_antisymm within last
    exact .divReady decoded mul' (div.finishes (asking.asksDiv decoded)) patient'

theorem Asking.divReady {instr : DivInstr} (asking : Asking core entry)
    (decoded : DivInstr.decode entry.insn = some instr) (mul : PcpiMul.Idle core.mul)
    (div : PcpiDiv.Ready core.div instr entry.rs1 entry.rs2) (patient : Patient core 0)
    {age : Nat} : Nears core clock entry age := by
  have ld := asking.ld
  have answer : core.outcome = some entry.execute := by
    simp [outcome, ld, intReady, intWr, intRd, mul.ready, div.ready, div.wr, div.rd,
      execute_div decoded]
  have wait : core.intWait = true := by simp [intWait, div.wait]
  refine .inr ⟨answer, ?_⟩
  rw [execute_div decoded] at answer
  exact asking.answered answer wait patient
    (asking.passMul (mul_of_div decoded) mul).fallen.falling (div.falls core.pcpi)

/-! An instruction no unit knows. -/

theorem Asking.unknown (asking : Asking core entry) (noMul : MulInstr.decode entry.insn = none)
    (noDiv : DivInstr.decode entry.insn = none) (known : ecallEbreak entry.insn = false)
    (mul : PcpiMul.Idle core.mul) (div : PcpiDiv.Idle core.div) (within : count ≤ 15)
    (patient : Patient core count) : Nears core clock entry (1 + count) := by
  have calm := intReady_eq_false mul.ready div.ready
  have mul' : PcpiMul.Idle (core.step clock).mul := asking.passMul noMul mul
  have div' : PcpiDiv.Idle (core.step clock).div := asking.passDiv noDiv div
  refine .inl ⟨outcome_none calm patient.timeout (asking.own ▸ known), ?_⟩
  rcases Nat.lt_or_ge count 15 with further | last
  · exact .unknown noMul noDiv known mul' div' further
      (patient.counts further asking.valid (intWait_eq_false mul.wait div.wait))
  · obtain rfl : count = 15 := Nat.le_antisymm within last
    have out : core.timeoutCounter = 0 := patient.counter
    exact .timedOut noMul noDiv mul' div' (by simp [PcpiCore.step, out])

theorem Asking.timedOut (asking : Asking core entry) (noMul : MulInstr.decode entry.insn = none)
    (noDiv : DivInstr.decode entry.insn = none) (mul : PcpiMul.Idle core.mul)
    (div : PcpiDiv.Idle core.div) (timeout : core.timeout = true) {age : Nat} :
    Nears core clock entry age := by
  have ld := asking.ld
  have calm := intReady_eq_false mul.ready div.ready
  have answer : core.outcome = some .illegal := by simp [outcome, ld, calm, timeout]
  refine .inr ⟨by rw [answer, execute_illegal noMul noDiv], ?_⟩
  exact refused ld asking.rinst calm answer (asking.passMul noMul mul).fallen.falling
    (asking.passDiv noDiv div).fallen

theorem Waits.step {age : Nat} (asking : Asking core entry) (waits : Waits core entry age) :
    Nears core clock entry age := by
  have valid := asking.valid
  cases waits with
  | mulAsked decoded mul div patient =>
      refine .inl ⟨asking.mul_pending decoded mul.ready div.ready patient.timeout, ?_⟩
      exact .mulDecoded decoded (mul.decode (asking.asksMul decoded))
        (asking.passDiv (div_of_mul decoded) div)
        (patient.counts (by decide) valid (intWait_eq_false mul.wait div.wait))
  | mulDecoded decoded mul div patient =>
      refine .inl ⟨asking.mul_pending decoded mul.ready div.ready patient.timeout, ?_⟩
      exact .mulStarting decoded (mul.start (asking.asksMul decoded))
        (asking.passDiv (div_of_mul decoded) div)
        (patient.counts (by decide) valid (intWait_eq_false mul.wait div.wait))
  | mulStarting decoded mul div patient =>
      have wait : core.intWait = true := by simp [intWait, mul.wait]
      refine .inl ⟨asking.mul_pending decoded mul.ready div.ready patient.timeout, ?_⟩
      exact .mulWorking decoded (mul.work (asking.asksMul decoded)) (by rw [steps]; split <;> decide)
        (asking.passDiv (div_of_mul decoded) div) (patient.waits (by decide) wait)
  | mulWorking decoded mul more div patient => exact asking.mulWorking decoded mul more div patient
  | @mulFinished instr decoded mul div patient =>
      have wait : core.intWait = true := by simp [intWait, mul.wait]
      refine .inl ⟨asking.mul_pending decoded mul.ready div.ready patient.timeout, ?_⟩
      rw [show 4 + steps instr + 1 = 5 + steps instr by omega]
      exact .mulReady decoded (mul.step (asking.asksMul decoded))
        (asking.passDiv (div_of_mul decoded) div) (patient.waits (by decide) wait)
  | mulReady decoded mul div patient => exact asking.mulReady decoded mul div patient
  | divAsked decoded mul div patient =>
      refine .inl ⟨asking.div_pending decoded mul.ready div.ready patient.timeout, ?_⟩
      exact .divDecoded decoded (asking.passMul (mul_of_div decoded) mul)
        (div.decode (asking.asksDiv decoded))
        (patient.counts (by decide) valid (intWait_eq_false mul.wait div.wait))
  | divDecoded decoded mul div patient =>
      refine .inl ⟨asking.div_pending decoded mul.ready div.ready patient.timeout, ?_⟩
      exact .divStarting decoded (asking.passMul (mul_of_div decoded) mul)
        (div.start (asking.asksDiv decoded))
        (patient.counts (by decide) valid (intWait_eq_false mul.wait div.wait))
  | divStarting decoded mul div patient =>
      have wait : core.intWait = true := by simp [intWait, div.wait]
      refine .inl ⟨asking.div_pending decoded mul.ready div.ready patient.timeout, ?_⟩
      exact .divWorking decoded (asking.passMul (mul_of_div decoded) mul)
        (div.work (asking.asksDiv decoded)) (by decide) (patient.waits (by decide) wait)
  | divWorking decoded mul div within patient =>
      exact asking.divWorking decoded mul div within patient
  | divReady decoded mul div patient => exact asking.divReady decoded mul div patient
  | unknown noMul noDiv known mul div within patient =>
      exact asking.unknown noMul noDiv known mul div within patient
  | timedOut noMul noDiv mul div timeout => exact asking.timedOut noMul noDiv mul div timeout

theorem Waits.age_le {age : Nat} (waits : Waits core entry age) : age ≤ 69 := by
  cases waits with
  | @mulWorking instr _ _ _ more _ _ =>
      have bound := PcpiMul.steps_le instr
      omega
  | @mulFinished instr _ _ _ _ =>
      have bound := PcpiMul.steps_le instr
      omega
  | @mulReady instr _ _ _ _ =>
      have bound := PcpiMul.steps_le instr
      omega
  | _ => omega

/-- Where a core goes that fetches. -/
theorem nextState_fetch (fetch : core.cpuState = .fetch) (clock : PcpiClock) :
    core.nextState clock = .trap ∨ core.nextState clock = .fetch ∨
      (core.decoderTrigger = true ∧ core.nextState clock = .away) ∨
      (core.decoderTrigger = true ∧ core.nextState clock = .ldRs1 ∧
        (core.enters clock).isSome = true) := by
  rw [nextState, enters, fetch]
  cases clock.move <;> cases core.decoderTrigger <;> simp

theorem Apart.step (apart : Apart core) (silent : core.pcpiValid = false)
    (mul : PcpiMul.Falling core.mul) (div : PcpiDiv.Fallen core.div) :
    Sound (core.step clock) 0 := by
  have mul' : PcpiMul.Fallen (core.step clock).mul := mul.step silent
  have div' : PcpiDiv.Fallen (core.step clock).div := (div.step silent).fallen
  have keeps (elsewhere : core.cpuState ≠ .ldRs1) : (core.step clock).pcpiValid = false := by
    simp [PcpiCore.step, elsewhere, silent]
  cases apart with
  | trapped fetch rinst trigger =>
      have silent' := keeps (by simp [fetch])
      rcases nextState_fetch fetch clock with next | next | ⟨entered, -⟩ | ⟨entered, -⟩
      · exact .stopped next
      · exact .apart (.recovering next (by simp [PcpiCore.step, fetch, rinst])
          (by simp [PcpiCore.step, silent])) silent' mul'.falling div'
      · rw [trigger] at entered
        cases entered
      · rw [trigger] at entered
        cases entered
  | recovering fetch trigger counter =>
      have silent' := keeps (by simp [fetch])
      rcases nextState_fetch fetch clock with next | next | ⟨entered, -⟩ | ⟨entered, -⟩
      · exact .stopped next
      · refine .apart (.rested (.inl next) ⟨?_, ?_⟩) silent' mul'.falling div'
        · simp [PcpiCore.step, silent]
        · simp [PcpiCore.step, counter]
      · rw [trigger] at entered
        cases entered
      · rw [trigger] at entered
        cases entered
  | rested place patient =>
      have patient' : Patient (core.step clock) 0 := patient.silent silent
      rcases place with fetch | away
      · have silent' := keeps (by simp [fetch])
        rcases nextState_fetch fetch clock with next | next | ⟨-, next⟩ | ⟨-, next, enters⟩
        · exact .stopped next
        · exact .apart (.rested (.inl next) patient') silent' mul'.falling div'
        · exact .apart (.rested (.inr next) patient') silent' mul'.falling div'
        · exact .entered next (by simp [PcpiCore.step, fetch, enters]) silent' mul' div' patient'
      · have silent' := keeps (by simp [away])
        have next : core.nextState clock = .trap ∨ core.nextState clock = .fetch ∨
            core.nextState clock = .away := by
          rw [nextState, away]
          cases clock.move <;> simp
        rcases next with next | next | next
        · exact .stopped next
        · exact .apart (.rested (.inl next) patient') silent' mul'.falling div'
        · exact .apart (.rested (.inr next) patient') silent' mul'.falling div'

/-- An instruction that has just been handed over is asked for, or is a call of
the environment. -/
theorem entered_step (ld : core.cpuState = .ldRs1) (rinst : core.memDoRinst = false)
    (silent : core.pcpiValid = false) (mul : PcpiMul.Fallen core.mul)
    (div : PcpiDiv.Fallen core.div) (patient : Patient core 0) :
    (core.outcome = none ∧ Sound (core.step clock) 1) ∨
      (core.outcome = some core.entry.execute ∧ Sound (core.step clock) 0) := by
  have calm := intReady_eq_false mul.ready div.ready
  have mul' : PcpiMul.Idle (core.step clock).mul := mul.step silent
  have div' : PcpiDiv.Idle (core.step clock).div := div.step silent
  have patient' : Patient (core.step clock) 0 := patient.silent silent
  cases known : ecallEbreak core.entry.insn with
  | true =>
      have answer : core.outcome = some .illegal := by simp [outcome, ld, calm, known]
      have noM : isM core.entry.insn = false := by
        cases m : isM core.entry.insn with
        | false => rfl
        | true => rw [not_ecallEbreak m] at known; cases known
      have illegal : core.entry.execute = .illegal :=
        execute_illegal (by simp [MulInstr.decode, noM]) (by simp [DivInstr.decode, noM])
      exact .inr ⟨by rw [answer, illegal],
        refused ld rinst calm answer mul'.fallen.falling div'.fallen⟩
  | false =>
      have waits := outcome_none calm patient.timeout known
      have asking : Asking (core.step clock) core.entry := by
        refine ⟨?_, ?_, ?_, ?_, ?_, ?_⟩
        · simp [PcpiCore.step, nextState, ld, waits]
        · simp [PcpiCore.step, enters, ld]
        · simp [PcpiCore.step, ld, rinst, calm]
        · simp [PcpiCore.step, ld, waits]
        · simp [PcpiCore.step, ld]
        · simp [PcpiCore.step, ld]
      refine .inl ⟨waits, .asked asking ?_⟩
      cases decoded : MulInstr.decode core.entry.insn with
      | some instr => exact .mulAsked decoded mul' div' patient'
      | none =>
          cases decoded' : DivInstr.decode core.entry.insn with
          | some instr => exact .divAsked decoded' mul' div' patient'
          | none => exact .unknown decoded decoded' known mul' div' (Nat.zero_le 15) patient'

/-- One clock: an instruction that is retired has become what it is to become. -/
theorem Sound.step {age : Nat} (sound : Sound core age) :
    (∀ outcome, core.outcome = some outcome → outcome = core.entry.execute) ∧
      Sound (core.step clock)
        (if core.cpuState = .ldRs1 ∧ core.outcome = none then age + 1 else 0) := by
  have elsewhere (away : core.cpuState ≠ .ldRs1) :
      ∀ outcome, core.outcome = some outcome → outcome = core.entry.execute := by
    intro outcome answer
    simp [PcpiCore.outcome, away] at answer
  have decided {next : Nat} (ld : core.cpuState = .ldRs1)
      (either : (core.outcome = none ∧ Sound (core.step clock) (next + 1)) ∨
        (core.outcome = some core.entry.execute ∧ Sound (core.step clock) 0)) :
      (∀ outcome, core.outcome = some outcome → outcome = core.entry.execute) ∧
        Sound (core.step clock)
          (if core.cpuState = .ldRs1 ∧ core.outcome = none then next + 1 else 0) := by
    rcases either with ⟨waits, sound'⟩ | ⟨answer, sound'⟩
    · refine ⟨fun outcome answer => ?_, by rwa [if_pos ⟨ld, waits⟩]⟩
      rw [waits] at answer
      cases answer
    · refine ⟨fun outcome answer' => ?_, ?_⟩
      · rw [answer] at answer'
        exact (Option.some.inj answer').symm
      · rw [if_neg (by simp [answer])]
        exact sound'
  cases sound with
  | stopped trap =>
      have away : core.cpuState ≠ .ldRs1 := by simp [trap]
      refine ⟨elsewhere away, ?_⟩
      rw [if_neg fun both => away both.1]
      exact .stopped (by simp [PcpiCore.step, nextState, trap])
  | apart apart silent mul div =>
      have away : core.cpuState ≠ .ldRs1 := by
        cases apart with
        | trapped fetch _ _ => simp [fetch]
        | recovering fetch _ _ => simp [fetch]
        | rested place _ => rcases place with fetch | away <;> simp [*]
      refine ⟨elsewhere away, ?_⟩
      rw [if_neg fun both => away both.1]
      exact apart.step silent mul div
  | entered ld rinst silent mul div patient =>
      exact decided ld (entered_step ld rinst silent mul div patient)
  | @asked entry age asking waits =>
      obtain rfl := asking.own
      refine decided asking.ld ?_
      rcases waits.step asking with ⟨none, waits'⟩ | answered
      · exact .inl ⟨none, .asked (asking.step none) waits'⟩
      · exact .inr answered

theorem Sound.age_le {age : Nat} (sound : Sound core age) : age ≤ 69 := by
  cases sound with
  | asked _ waits => exact waits.age_le
  | _ => exact Nat.zero_le 69

theorem sound_reset (core : PcpiCore) : Sound core.reset.reset 0 := by
  refine .apart (.recovering rfl rfl rfl) rfl ⟨⟨rfl, rfl, ?_⟩, ?_, ?_⟩ ⟨⟨rfl, ?_⟩, ?_, ?_⟩ <;>
    simp [reset, PcpiMul.step, PcpiMul.work, PcpiDiv.step, PcpiDiv.work]

end PcpiCore

/-! ### Every run -/

namespace PcpiRun

variable {run : PcpiRun}

/-- The instruction that waits at a clock is the one before, or has been handed
over at the last one. -/
theorem pending_step (core : PcpiCore) (clock : PcpiClock) :
    (if core.cpuState = .ldRs1 then [core.entry] else []) ++ (core.enters clock).toList =
      (core.outcome.map fun _ => core.entry).toList ++
        if (core.step clock).cpuState = .ldRs1 then [(core.step clock).entry] else [] := by
  cases state : core.cpuState with
  | ldRs1 =>
      have none : core.enters clock = none := by simp [PcpiCore.enters, state]
      cases answer : core.outcome with
      | none => simp [PcpiCore.step, PcpiCore.nextState, state, answer, none]
      | some outcome =>
          cases outcome with
          | done wr rd => simp [PcpiCore.step, PcpiCore.nextState, state, answer, none]
          | illegal =>
              cases irq : clock.irq <;>
                simp [PcpiCore.step, PcpiCore.nextState, state, answer, none, irq]
  | fetch =>
      have none : core.outcome = none := by simp [PcpiCore.outcome, state]
      cases move : clock.move <;> cases trigger : core.decoderTrigger <;>
        simp [PcpiCore.step, PcpiCore.nextState, PcpiCore.enters, state, none, move, trigger]
  | away =>
      have none : core.outcome = none := by simp [PcpiCore.outcome, state]
      cases move : clock.move <;>
        simp [PcpiCore.step, PcpiCore.nextState, PcpiCore.enters, state, none, move]
  | trap =>
      have none : core.outcome = none := by simp [PcpiCore.outcome, state]
      simp [PcpiCore.step, PcpiCore.nextState, PcpiCore.enters, state, none]

/-- What holds in every run. -/
structure Kept (run : PcpiRun) : Prop where
  sound : run.core.Sound run.age
  order : run.entered = run.retired.map Prod.fst ++
    if run.core.cpuState = .ldRs1 then [run.core.entry] else []
  results : ∀ entry ∈ run.retired, entry.2 = entry.1.execute

theorem Kept.step (kept : Kept run) (clock : PcpiClock) : Kept (run.step clock) := by
  obtain ⟨right, sound⟩ := @PcpiCore.Sound.step _ clock _ kept.sound
  refine ⟨sound, ?_, ?_⟩
  · have pending := pending_step run.core clock
    rw [PcpiRun.step, kept.order, List.append_assoc, pending, List.map_append, ← List.append_assoc]
    cases run.core.outcome <;> rfl
  · intro entry retired
    rcases List.mem_append.mp retired with before | now
    · exact kept.results entry before
    · cases answer : run.core.outcome with
      | none => simp [answer] at now
      | some outcome =>
          obtain rfl : entry = (run.core.entry, outcome) := by simpa [answer] using now
          exact right outcome answer

theorem Reaches.kept (reaches : Reaches run) : Kept run := by
  induction reaches with
  | start core =>
      exact ⟨PcpiCore.sound_reset core, rfl, fun _ none => absurd none List.not_mem_nil⟩
  | step clock _ ih => exact ih.step clock

/-- Whatever the core fetches, each multiplication and division is answered with
its result, everything else that the core does not decode is found to be illegal,
and none of it is waited for beyond 70 clocks. -/
theorem pcpi_executes (reaches : Reaches run) : Executes run := by
  have kept := reaches.kept
  exact ⟨kept.order, kept.results, kept.sound.age_le⟩

/-- The run through a list of clocks. -/
def after (core : PcpiCore) (clocks : List PcpiClock) : PcpiRun :=
  clocks.foldl step (start core)

theorem reaches_after (core : PcpiCore) (clocks : List PcpiClock) : Reaches (after core clocks) := by
  have further {run : PcpiRun} (reaches : Reaches run) : Reaches (clocks.foldl step run) := by
    induction clocks generalizing run with
    | nil => exact reaches
    | cons clock clocks ih => exact ih (reaches.step clock)
  exact further (.start core)

/-- A core that stands still. -/
def still : PcpiCore where
  mul := ⟨none, false, false, 0, 0, 0, 0, 0, true, false, false, 0, false⟩
  div := ⟨none, false, false, 0, 0, 0, 0, false, false, false, none, false⟩
  cpuState := .fetch
  memDoRinst := false
  decoderTrigger := false
  entry := ⟨0, 0, 0⟩
  pcpiValid := false
  regOp1 := 0
  regOp2 := 0
  timeoutCounter := 0
  timeout := false

/-- The core fetches at once what it is given, and waits. -/
def fetching (entry : Entry) (waiting : Nat) : List PcpiClock :=
  [⟨false, .stay, true, false, 0, 0, false⟩, ⟨true, .stay, false, false, 0, 0, false⟩,
    ⟨false, .request entry, false, false, 0, 0, false⟩] ++
      List.replicate waiting ⟨false, .stay, false, false, 0, 0, false⟩

/-- A `div` of −7 by 2. -/
def divideSeven : Entry := ⟨0x02c5c533, -7, 2⟩

/-- It is answered with −3. -/
theorem seven_executes :
    (after still (fetching divideSeven 38)).retired = [(divideSeven, .done true (some (-3)))] ∧
      Executes (after still (fetching divideSeven 38)) :=
  ⟨by decide +kernel, pcpi_executes (reaches_after _ _)⟩

end PcpiRun

end ZipVersa.Picorv
