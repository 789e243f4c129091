import Mathlib.Tactic.Common
import ZipVersa.Lib.Clocked

/-! `wbfft`, for any `LGFFT` and `CKPCE`. The core `fftmain` is a parameter: a
circuit with a reset, a clock enable and one input, showing `sync` and an output. -/

set_option autoImplicit false

namespace ZipVersa.Fft

/-- `fftmain`. -/
structure Core (State : Type) where
  step : State → (reset ce : Bool) → (sample : BitVec 32) → State
  sync : State → Bool
  output : State → BitVec 32

namespace Core

variable {State : Type} (core : Core State)

/-- States with a given number of clock enables since the reset. -/
inductive Reached : Nat → State → Prop where
  | reset (state : State) (ce : Bool) (sample : BitVec 32) : Reached 0 (core.step state true ce sample)
  | idle {count : Nat} {state : State} (sample : BitVec 32) :
      Reached count state → Reached count (core.step state false false sample)
  | ce {count : Nat} {state : State} (sample : BitVec 32) :
      Reached count state → Reached (count + 1) (core.step state false true sample)

/-- One output for each clock enable, and no `sync` before the last of the
`2 ^ lg` inputs is in. -/
structure Conforms (lg : Nat) : Prop where
  holds : ∀ state sample, core.sync (core.step state false false sample) = core.sync state ∧
    core.output (core.step state false false sample) = core.output state
  late : ∀ count state, core.Reached count state → count < 2 ^ lg → core.sync state = false

end Core

inductive FsmState where
  | input
  | processing
  | idle
  deriving DecidableEq, Repr

/-- The bus at one clock; `i_wb_cyc` is not used. -/
structure FftClock (lg : Nat) where
  reset : Bool
  stb : Bool
  we : Bool
  addr : BitVec (lg + 1)
  data : BitVec 32
  deriving DecidableEq, Repr

structure Wbfft (lg : Nat) (State : Type) where
  fftReset : Bool
  wbStall : Bool
  stallCount : Nat
  fftCeCount : Nat
  fsmState : FsmState
  samplesIn : BitVec lg
  fftCe : Bool
  fftInput : BitVec 32
  fft : State
  syncd : Bool
  wrAddr : BitVec lg
  mem : BitVec lg → BitVec 32
  wbData : BitVec 32
  wbAck : Bool
  int : Bool

namespace Wbfft

variable {lg : Nat} {State : Type} (core : Core State) (ckpce : Nat)
variable (device : Wbfft lg State) (clock : FftClock lg)

def accepts : Bool := clock.stb && !device.wbStall

/-- `i_wb_addr[LGFFT]`. -/
def dataPort (clock : FftClock lg) : Bool := clock.addr.getLsbD lg

def ctrlWrite : Bool := clock.stb && clock.we && !dataPort clock && !device.wbStall

def dataWrite : Bool :=
  clock.stb && clock.we && dataPort clock && !device.wbStall && device.fsmState == .input

def fftCeDelay : Bool := decide (2 < ckpce) && decide (0 < device.fftCeCount)

def brAddr : BitVec lg := device.wrAddr.reverse

/-- One rising edge. -/
def step : Wbfft lg State where
  fftReset := if clock.reset then true else device.ctrlWrite clock
  wbStall :=
    if ckpce ≤ 1 then false
    else if clock.reset || device.fftReset then false
    else if device.wbStall then decide (1 < device.stallCount)
    else device.dataWrite clock
  stallCount :=
    if ckpce ≤ 1 then 0
    else if clock.reset || device.fftReset then 0
    else if device.wbStall then device.stallCount - 1
    else if device.dataWrite clock then ckpce - 1
    else device.stallCount
  fftCeCount :=
    if ckpce ≤ 2 then 0
    else if clock.reset || device.fftReset then 0
    else if 0 < device.fftCeCount then device.fftCeCount - 1
    else if device.fftCe then ckpce - 2
    else device.fftCeCount
  fsmState :=
    if clock.reset || device.fftReset then .input
    else match device.fsmState with
      | .input =>
          if device.dataWrite clock && device.samplesIn == BitVec.allOnes lg then .processing
          else .input
      | .processing =>
          if device.fftCe && device.wrAddr == BitVec.allOnes lg then .idle else .processing
      | .idle => .idle
  samplesIn :=
    if clock.reset || device.fftReset then 0
    else if device.dataWrite clock then device.samplesIn + 1
    else device.samplesIn
  fftCe :=
    if clock.reset || device.fftReset then false
    else match device.fsmState with
      | .input => device.dataWrite clock
      | .processing =>
          if ckpce = 1 then true
          else if ckpce = 2 then !device.fftCe
          else !device.fftCe && !device.fftCeDelay ckpce
      | .idle => false
  fftInput := if device.dataWrite clock then clock.data else device.fftInput
  fft := core.step device.fft device.fftReset device.fftCe device.fftInput
  syncd := if device.fftReset then false else device.syncd || core.sync device.fft
  wrAddr :=
    if device.fftReset || clock.reset then 0
    else if device.fftCe then
      (if !core.sync device.fft && !device.syncd then 0 else device.wrAddr + 1)
    else device.wrAddr
  mem :=
    if device.fftCe && device.fsmState == .processing then
      fun place => if place = device.brAddr then core.output device.fft else device.mem place
    else device.mem
  wbData := device.mem (clock.addr.setWidth lg)
  wbAck := if clock.reset then false else device.accepts clock
  int :=
    if clock.reset || device.fftReset then false
    else device.int || (device.fftCe && device.wrAddr == BitVec.allOnes lg)

end Wbfft

/-- Below its top a counter counts up. -/
theorem toNat_succ {width : Nat} {counter : BitVec width} (below : counter ≠ BitVec.allOnes width) :
    (counter + 1).toNat = counter.toNat + 1 := by
  have size := counter.isLt
  have top : counter.toNat ≠ 2 ^ width - 1 := fun top =>
    below (BitVec.eq_of_toNat_eq (by rw [top, BitVec.toNat_allOnes]))
  have one : 1 % 2 ^ width = 1 := Nat.mod_eq_of_lt (by omega)
  simp only [BitVec.toNat_add, BitVec.ofNat_eq_ofNat, BitVec.toNat_ofNat, one]
  exact Nat.mod_eq_of_lt (by omega)

/-! ### Runs -/

/-- The device; the data writes accepted since the last control write, what the
core has been given and has shown since its reset, the clocks since its last
clock enable, and the requests accepted and acknowledged. -/
structure FftRun (lg : Nat) (State : Type) where
  device : Wbfft lg State
  written : List (BitVec 32)
  fed : List (BitVec 32)
  shown : List (BitVec 32)
  gap : Nat
  asked : Nat
  acked : Nat

namespace FftRun

variable {lg : Nat} {State : Type} (core : Core State) (ckpce : Nat)

/-- Behind a clock with `i_reset` high. -/
def start (device : Wbfft lg State) (clock : FftClock lg) : FftRun lg State :=
  ⟨device.step core ckpce { clock with reset := true }, [], [], [], ckpce, 0, 0⟩

variable (run : FftRun lg State) (clock : FftClock lg)

/-- A data write is accepted, whatever becomes of it. -/
def writesData : Bool := run.device.accepts clock && clock.we && Wbfft.dataPort clock

/-- The outputs of the core since `sync`. -/
def nextShown (run : FftRun lg State) : List (BitVec 32) :=
  let later := core.step run.device.fft false true run.device.fftInput
  if run.device.fftReset then []
  else if run.device.fftCe then
    (if run.shown.isEmpty && !core.sync later then [] else run.shown ++ [core.output later])
  else run.shown

def step : FftRun lg State where
  device := run.device.step core ckpce clock
  written :=
    if clock.reset || run.device.ctrlWrite clock then []
    else if run.writesData clock then run.written ++ [clock.data]
    else run.written
  fed :=
    if run.device.fftReset then []
    else if run.device.fftCe then run.fed ++ [run.device.fftInput]
    else run.fed
  shown := run.nextShown core
  gap :=
    if clock.reset || run.device.fftReset then ckpce
    else if run.device.fftCe then 1
    else run.gap + 1
  asked := if clock.reset then 0 else run.asked + (run.device.accepts clock).toNat
  acked := if clock.reset then 0 else run.acked + run.device.wbAck.toNat

/-- What the core has been given and is given at this clock. -/
def pulses (run : FftRun lg State) : List (BitVec 32) :=
  run.fed ++ if run.device.fftCe then [run.device.fftInput] else []

/-- The first `2 ^ lg` writes are the first `2 ^ lg` inputs of the core, which
is enabled every `ckpce` clocks at most, and further writes are no more than reads; with `o_int` the outputs are in memory in
bit-reversed order, to stay there; every request accepted has its one acknowledgement. -/
structure Correct : Prop where
  delivered : run.device.fftReset = false →
    run.pulses.take (2 ^ lg) = run.written.take (2 ^ lg)
  apart : run.device.fftReset = false → run.device.fftCe = true → ckpce ≤ run.gap
  ignored : run.device.fftReset = false → 2 ^ lg ≤ run.written.length → ∀ clock,
    run.writesData clock = true →
      (run.step core ckpce clock).device = (run.step core ckpce { clock with we := false }).device
  stored : run.device.int = true →
    ∀ place : BitVec lg, run.shown[place.toNat]? = some (run.device.mem place.reverse)
  kept : run.device.int = true → ∀ clock, (run.step core ckpce clock).device.mem = run.device.mem
  acknowledged : run.asked = run.acked + run.device.wbAck.toNat

/-- No data write at the clock behind a control write or a reset. -/
def Gentle : Prop :=
  run.device.fftReset = true → clock.reset = false → run.writesData clock = false

instance : Decidable (run.Gentle clock) := inferInstanceAs (Decidable (_ → _ → _))

variable {core ckpce run clock}

section Pulses

variable (core ckpce clock)

theorem fed_step (live : run.device.fftReset = false) :
    (run.step core ckpce clock).fed = run.pulses := by
  simp only [step, live, pulses, Bool.false_eq_true, ite_false]
  split_ifs
  · rfl
  · rw [List.append_nil]

theorem pulses_step (live : run.device.fftReset = false) :
    (run.step core ckpce clock).pulses =
      run.pulses ++ if (run.step core ckpce clock).device.fftCe then
        [(run.step core ckpce clock).device.fftInput] else [] := by
  rw [pulses, fed_step core ckpce clock live]

end Pulses

/-! The data writes. -/

structure Delivering (run : FftRun lg State) : Prop where
  input : run.device.fsmState = .input →
    run.pulses = run.written ∧ run.device.samplesIn.toNat = run.written.length
  full : run.device.fsmState ≠ .input →
    2 ^ lg ≤ run.pulses.length ∧ 2 ^ lg ≤ run.written.length ∧
      run.pulses.take (2 ^ lg) = run.written.take (2 ^ lg)

theorem Delivering.take (delivering : run.Delivering) :
    run.pulses.take (2 ^ lg) = run.written.take (2 ^ lg) := by
  by_cases phase : run.device.fsmState = .input
  · rw [(delivering.input phase).1]
  · exact (delivering.full phase).2.2

theorem dataWrite_input (phase : run.device.fsmState = .input) :
    run.device.dataWrite clock = run.writesData clock := by
  simp only [Wbfft.dataWrite, writesData, Wbfft.accepts, phase]
  cases clock.stb <;> cases clock.we <;> cases Wbfft.dataPort clock <;>
    cases run.device.wbStall <;> rfl

/-- Once all samples are in, a data write is no more than a read. -/
theorem Delivering.ignores (delivering : run.Delivering) (full : 2 ^ lg ≤ run.written.length)
    (writes : run.writesData clock = true) :
    (run.step core ckpce clock).device = (run.step core ckpce { clock with we := false }).device := by
  have phase : run.device.fsmState ≠ .input := by
    intro input
    have count := (delivering.input input).2
    have size := run.device.samplesIn.isLt
    omega
  have refused (clock : FftClock lg) : run.device.dataWrite clock = false := by
    simp [Wbfft.dataWrite, phase]
  have port : Wbfft.dataPort clock = true := by
    simp only [writesData, Bool.and_eq_true] at writes
    exact writes.2
  have port' : Wbfft.dataPort { clock with we := false } = true := port
  simp [step, Wbfft.step, refused, Wbfft.ctrlWrite, port, port', Wbfft.accepts]

theorem dataWrite_ready (write : run.device.dataWrite clock = true) :
    run.device.wbStall = false := by
  simp only [Wbfft.dataWrite, Bool.and_eq_true, Bool.not_eq_true'] at write
  exact write.1.2

theorem Delivering.step (delivering : run.Delivering) (live : run.device.fftReset = false)
    (reset : clock.reset = false) (data : run.device.ctrlWrite clock = false) :
    (run.step core ckpce clock).Delivering := by
  have written : (run.step core ckpce clock).written =
      run.written ++ if run.writesData clock then [clock.data] else [] := by
    simp only [FftRun.step, reset, data, Bool.false_eq_true, Bool.or_self, ite_false]
    split_ifs
    · rfl
    · rw [List.append_nil]
  have grows := pulses_step core ckpce clock live
  by_cases phase : run.device.fsmState = .input
  · obtain ⟨same, count⟩ := delivering.input phase
    have wrote : run.device.dataWrite clock = run.writesData clock := dataWrite_input phase
    have more : (run.step core ckpce clock).pulses = (run.step core ckpce clock).written := by
      rw [grows, written, same]
      cases write : run.writesData clock with
      | false => simp [FftRun.step, Wbfft.step, reset, live, phase, wrote, write]
      | true => simp [FftRun.step, Wbfft.step, reset, live, phase, wrote, write]
    cases write : run.writesData clock with
    | false =>
        have still : (run.step core ckpce clock).device.fsmState = .input := by
          simp [FftRun.step, Wbfft.step, reset, live, phase, wrote, write]
        refine ⟨fun _ => ⟨more, ?_⟩, fun other => absurd still other⟩
        rw [written, write]
        simp [FftRun.step, Wbfft.step, reset, live, wrote, write, count]
    | true =>
        have size := run.device.samplesIn.isLt
        rw [write] at written
        have length : (run.step core ckpce clock).written.length = run.written.length + 1 := by
          rw [written]
          simp
        by_cases last : run.device.samplesIn = BitVec.allOnes lg
        · have next : (run.step core ckpce clock).device.fsmState = .processing := by
            simp [FftRun.step, Wbfft.step, reset, live, phase, wrote, write, last]
          have top : run.device.samplesIn.toNat = 2 ^ lg - 1 := by rw [last, BitVec.toNat_allOnes]
          refine ⟨fun input => ?_, fun _ => ⟨?_, ?_, by rw [more]⟩⟩
          · rw [next] at input
            cases input
          · rw [more, length]
            omega
          · rw [length]
            omega
        · have still : (run.step core ckpce clock).device.fsmState = .input := by
            simp [FftRun.step, Wbfft.step, reset, live, phase, last]
          refine ⟨fun _ => ⟨more, ?_⟩, fun other => absurd still other⟩
          have counted : (run.step core ckpce clock).device.samplesIn = run.device.samplesIn + 1 := by
            simp [FftRun.step, Wbfft.step, reset, live, wrote, write]
          rw [counted, length, ← count, toNat_succ last]
  · obtain ⟨enough, all, same⟩ := delivering.full phase
    have still : (run.step core ckpce clock).device.fsmState ≠ .input := by
      simp only [FftRun.step, Wbfft.step, reset, live]
      cases later : run.device.fsmState with
      | input => exact absurd later phase
      | processing => split_ifs <;> simp_all
      | idle => simp
    refine ⟨fun input => absurd input still, fun _ => ⟨?_, ?_, ?_⟩⟩
    · rw [grows, List.length_append]
      omega
    · rw [written, List.length_append]
      omega
    · rw [grows, written, List.take_append_of_le_length enough, List.take_append_of_le_length all,
        same]

/-! The clock enables. -/

/-- The clocks since a clock enable, told by the counter that paces the flushing. -/
structure Counted (ckpce : Nat) (run : FftRun lg State) : Prop where
  short : ckpce ≤ 2 → run.device.fftCeCount = 0
  apart : run.device.fftCe = true → ckpce ≤ run.gap
  due : run.device.fftCe = true → run.device.fftCeCount = 0
  wait : run.device.fftCe = false → ckpce ≤ run.gap + run.device.fftCeCount + 1
  atMost : 0 < run.device.fftCeCount → run.gap + run.device.fftCeCount + 1 ≤ ckpce

/-- The same by the stall counter of the bus. -/
structure Stalled (ckpce : Nat) (run : FftRun lg State) : Prop where
  stall : run.device.wbStall = decide (0 < run.device.stallCount)
  due : run.device.fsmState = .input → run.device.fftCe = true →
    ckpce ≤ run.device.stallCount + 1
  wait : run.device.fsmState = .input → run.device.fftCe = false →
    ckpce ≤ run.gap + run.device.stallCount + 1

section Pace

variable (live : run.device.fftReset = false) (reset : clock.reset = false)
include live reset

theorem gap_step :
    (run.step core ckpce clock).gap = if run.device.fftCe then 1 else run.gap + 1 := by
  simp [step, live, reset]

theorem fftCeCount_step :
    (run.step core ckpce clock).device.fftCeCount =
      if ckpce ≤ 2 then 0
      else if 0 < run.device.fftCeCount then run.device.fftCeCount - 1
      else if run.device.fftCe then ckpce - 2
      else run.device.fftCeCount := by
  simp [step, Wbfft.step, live, reset]

theorem fsmState_input (later : (run.step core ckpce clock).device.fsmState = .input) :
    run.device.fsmState = .input := by
  simp only [step, Wbfft.step, live, reset] at later
  cases phase : run.device.fsmState with
  | input => rfl
  | processing =>
      rw [phase] at later
      revert later
      cases run.device.fftCe && run.device.wrAddr == BitVec.allOnes lg <;> exact nofun
  | idle =>
      rw [phase] at later
      cases later

/-- A clock enable comes at its time. -/
theorem Counted.fires (counted : run.Counted ckpce) (stalled : run.Stalled ckpce)
    (fires : (run.step core ckpce clock).device.fftCe = true) :
    ckpce ≤ (run.step core ckpce clock).gap ∧
      (run.step core ckpce clock).device.fftCeCount = 0 := by
  have atMost := counted.atMost
  have short := counted.short
  rw [gap_step live reset, fftCeCount_step live reset]
  simp only [step, Wbfft.step, live, reset] at fires
  cases phase : run.device.fsmState with
  | idle =>
      rw [phase] at fires
      cases fires
  | input =>
      rw [phase] at fires
      have free : run.device.stallCount = 0 := by
        have ready := dataWrite_ready fires
        rw [stalled.stall, decide_eq_false_iff_not] at ready
        omega
      cases ce : run.device.fftCe with
      | true =>
          have due := stalled.due phase ce
          have none := counted.due ce
          simp only [ite_true, none]
          split_ifs <;> omega
      | false =>
          have wait := stalled.wait phase ce
          simp only [Bool.false_eq_true, ite_false]
          split_ifs <;> omega
  | processing =>
      rw [phase] at fires
      by_cases one : ckpce = 1
      · subst one
        cases run.device.fftCe <;> simp
      · have low : run.device.fftCe = false := by
          by_contra high
          rw [Bool.not_eq_false] at high
          simp [one, high] at fires
        have wait := counted.wait low
        have none : run.device.fftCeCount = 0 := by
          by_cases small : ckpce ≤ 2
          · exact short small
          · simp [one, low, Wbfft.fftCeDelay, show ckpce ≠ 2 by omega, show 2 < ckpce by omega]
              at fires
            exact fires
        simp only [low, none, Bool.false_eq_true, ite_false]
        split_ifs <;> omega

theorem Counted.step (counted : run.Counted ckpce) (stalled : run.Stalled ckpce) :
    (run.step core ckpce clock).Counted ckpce where
  short small := by rw [fftCeCount_step live reset, if_pos small]
  apart fires := (counted.fires live reset stalled fires).1
  due fires := (counted.fires live reset stalled fires).2
  wait _ := by
    rw [gap_step live reset, fftCeCount_step live reset]
    cases ce : run.device.fftCe with
    | true =>
        have none := counted.due ce
        simp only [none, ite_true]
        split_ifs <;> omega
    | false =>
        have wait := counted.wait ce
        have short := counted.short
        simp only [Bool.false_eq_true, ite_false]
        split_ifs <;> omega
  atMost := by
    rw [gap_step live reset, fftCeCount_step live reset]
    have atMost := counted.atMost
    cases ce : run.device.fftCe with
    | true =>
        have none := counted.due ce
        simp only [none, ite_true]
        split_ifs <;> omega
    | false =>
        simp only [Bool.false_eq_true, ite_false]
        split_ifs <;> omega

theorem stallCount_step :
    (run.step core ckpce clock).device.stallCount =
      if ckpce ≤ 1 then 0
      else if run.device.wbStall then run.device.stallCount - 1
      else if run.device.dataWrite clock then ckpce - 1
      else run.device.stallCount := by
  simp [step, Wbfft.step, live, reset]

theorem Stalled.step (stalled : run.Stalled ckpce) :
    (run.step core ckpce clock).Stalled ckpce where
  stall := by
    have before := stalled.stall
    rw [stallCount_step live reset]
    simp only [FftRun.step, Wbfft.step, live, reset]
    by_cases small : ckpce ≤ 1
    · simp [small]
    cases wait : run.device.wbStall with
    | true =>
        simp only [small, ite_false, ite_true, Bool.or_self, Bool.false_eq_true]
        exact decide_eq_decide.mpr (by omega)
    | false =>
        rw [wait, eq_comm, decide_eq_false_iff_not] at before
        cases write : run.device.dataWrite clock with
        | true =>
            have positive : 0 < ckpce - 1 := by omega
            simp [small, positive]
        | false => simpa [small] using before
  due later fires := by
    have phase := fsmState_input live reset later
    have write : run.device.dataWrite clock = true := by
      simpa [FftRun.step, Wbfft.step, live, reset, phase] using fires
    rw [stallCount_step live reset, dataWrite_ready write, write]
    simp only [Bool.false_eq_true, ite_true, ite_false]
    split_ifs <;> omega
  wait later still := by
    have phase := fsmState_input live reset later
    have write : run.device.dataWrite clock = false := by
      simpa [FftRun.step, Wbfft.step, live, reset, phase] using still
    have before := stalled.stall
    rw [stallCount_step live reset, gap_step live reset, write]
    cases ce : run.device.fftCe with
    | true =>
        have due := stalled.due phase ce
        cases wait : run.device.wbStall with
        | true => simp only [Bool.false_eq_true, ite_true, ite_false]; split_ifs <;> omega
        | false => simp_all; omega
    | false =>
        have waits := stalled.wait phase ce
        simp only [Bool.false_eq_true, ite_false]
        split_ifs <;> omega

end Pace

/-! The outputs. -/

/-- The outputs at the places below are in memory. -/
def Holds (run : FftRun lg State) (place : BitVec lg) : Prop :=
  run.shown[place.toNat]? = some (run.device.mem place.reverse)

/-- Where the outputs go: the one shown is to be stored next, those before it are. -/
structure Writing (core : Core State) (run : FftRun lg State) : Prop where
  next : run.device.wrAddr.toNat + 1 = run.shown.length
  current : run.shown[run.device.wrAddr.toNat]? = some (core.output run.device.fft)
  before : ∀ place, place.toNat < run.device.wrAddr.toNat → run.Holds place

structure Storing (core : Core State) (run : FftRun lg State) : Prop where
  reached : core.Reached run.fed.length run.device.fft
  synced : (core.sync run.device.fft || run.device.syncd) = !run.shown.isEmpty
  input : run.device.fsmState = .input → run.shown = []
  waiting : run.shown = [] → run.device.wrAddr = 0
  writing : run.device.fsmState = .processing → run.shown ≠ [] → run.Writing core
  done : run.device.fsmState = .idle → ∀ place, run.Holds place
  int : run.device.int = true ↔ run.device.fsmState = .idle

section Store

variable (live : run.device.fftReset = false) (reset : clock.reset = false)

include live

theorem fft_step : (run.step core ckpce clock).device.fft =
    core.step run.device.fft false run.device.fftCe run.device.fftInput := by
  simp [step, Wbfft.step, live]

theorem shown_still (still : run.device.fftCe = false) :
    (run.step core ckpce clock).shown = run.shown := by
  simp [step, nextShown, live, still]

theorem shown_ce (ce : run.device.fftCe = true) :
    (run.step core ckpce clock).shown =
      if run.shown.isEmpty && !core.sync (run.step core ckpce clock).device.fft then []
      else run.shown ++ [core.output (run.step core ckpce clock).device.fft] := by
  rw [fft_step live, ce]
  simp [step, nextShown, live, ce]

/-- What has been shown stays at its number. -/
theorem shown_grows {index : Nat} {output : BitVec 32} (shows : run.shown[index]? = some output) :
    (run.step core ckpce clock).shown[index]? = some output := by
  cases ce : run.device.fftCe with
  | false => rw [shown_still live ce, shows]
  | true =>
      have some : run.shown ≠ [] := by
        rintro none
        rw [none] at shows
        cases shows
      rw [shown_ce live ce, if_neg (by simp [some])]
      rw [List.getElem?_append_left (List.getElem?_eq_some_iff.mp shows).1, shows]

theorem Storing.reached_step (storing : run.Storing core) :
    core.Reached (run.step core ckpce clock).fed.length (run.step core ckpce clock).device.fft := by
  rw [fft_step live, fed_step core ckpce clock live, pulses]
  cases run.device.fftCe with
  | false =>
      rw [if_neg Bool.false_ne_true, List.append_nil]
      exact .idle _ storing.reached
  | true =>
      rw [List.length_append]
      exact .ce _ storing.reached

theorem Storing.synced_step (conforms : core.Conforms lg) (storing : run.Storing core) :
    (core.sync (run.step core ckpce clock).device.fft || (run.step core ckpce clock).device.syncd) =
      !(run.step core ckpce clock).shown.isEmpty := by
  have latched : (run.step core ckpce clock).device.syncd = !run.shown.isEmpty := by
    rw [← storing.synced]
    simp [step, Wbfft.step, live, Bool.or_comm]
  cases ce : run.device.fftCe with
  | false =>
      rw [latched, shown_still live ce, fft_step live, ce, (conforms.holds _ _).1]
      have seen := storing.synced
      revert seen
      cases core.sync run.device.fft <;> cases run.device.syncd <;> cases run.shown.isEmpty <;> simp
  | true =>
      rw [latched, shown_ce live ce]
      cases core.sync (run.step core ckpce clock).device.fft <;> cases empty : run.shown.isEmpty <;>
        simp

/-- Before the last input is in the core shows nothing. -/
theorem Storing.input_silent (conforms : core.Conforms lg) (storing : run.Storing core)
    (delivering : run.Delivering) (phase : run.device.fsmState = .input) :
    (run.step core ckpce clock).shown = [] := by
  have empty := storing.input phase
  cases ce : run.device.fftCe with
  | false => rw [shown_still live ce, empty]
  | true =>
      have early : (run.step core ckpce clock).fed.length < 2 ^ lg := by
        obtain ⟨same, count⟩ := delivering.input phase
        rw [fed_step core ckpce clock live, same, ← count]
        exact run.device.samplesIn.isLt
      have silent := conforms.late _ _ (storing.reached_step live) early
      rw [shown_ce live ce, silent, empty]
      rfl

include reset

theorem Storing.waits (storing : run.Storing core) (empty : run.shown = []) :
    (run.step core ckpce clock).device.wrAddr = 0 := by
  have seen := storing.synced
  rw [empty, List.isEmpty_nil, Bool.not_true, Bool.or_eq_false_iff] at seen
  have zero := storing.waiting empty
  simp only [step, Wbfft.step, live, reset, seen.1, seen.2, zero]
  cases run.device.fftCe <;> rfl

omit reset in
/-- A clock enable stores the output that is shown. -/
theorem Storing.holds_step (storing : run.Storing core)
    (phase : run.device.fsmState = .processing) (ce : run.device.fftCe = true)
    (some : run.shown ≠ []) {place : BitVec lg}
    (reached : place.toNat ≤ run.device.wrAddr.toNat) :
    (run.step core ckpce clock).Holds place := by
  have writing := storing.writing phase some
  have memory : (run.step core ckpce clock).device.mem place.reverse =
      if place = run.device.wrAddr then core.output run.device.fft
      else run.device.mem place.reverse := by
    have same : place.reverse = run.device.wrAddr.reverse ↔ place = run.device.wrAddr := by
      refine ⟨fun equal => ?_, congrArg _⟩
      rw [← BitVec.reverse_reverse_eq (x := place), equal, BitVec.reverse_reverse_eq]
    simp [FftRun.step, Wbfft.step, ce, phase, Wbfft.brAddr, same]
  rw [Holds, memory]
  split_ifs with here
  · rw [here]
    exact shown_grows live writing.current
  · have below : place.toNat ≠ run.device.wrAddr.toNat := fun equal =>
      here (BitVec.eq_of_toNat_eq equal)
    exact shown_grows live (writing.before place (by omega))

theorem Storing.writing_step (storing : run.Storing core)
    (phase : run.device.fsmState = .processing) (below : run.device.wrAddr ≠ BitVec.allOnes lg)
    (ce : run.device.fftCe = true) (later : (run.step core ckpce clock).shown ≠ []) :
    (run.step core ckpce clock).Writing core := by
  have shows : (run.step core ckpce clock).shown = _ := shown_ce live ce
  by_cases empty : run.shown = []
  · have first : (run.step core ckpce clock).shown =
        [core.output (run.step core ckpce clock).device.fft] := by
      rw [empty] at shows
      split_ifs at shows
      · exact absurd shows later
      · exact shows
    have zero : (run.step core ckpce clock).device.wrAddr = 0 := storing.waits live reset empty
    refine ⟨?_, ?_, ?_⟩
    · simp [zero, first]
    · simp [zero, first]
    · intro place under
      rw [zero] at under
      simp at under
  · have writing := storing.writing phase empty
    rw [if_neg (by simp [empty])] at shows
    have moved : (run.step core ckpce clock).device.wrAddr.toNat = run.device.wrAddr.toNat + 1 := by
      have seen := storing.synced
      have advance : (run.step core ckpce clock).device.wrAddr = run.device.wrAddr + 1 := by
        rw [List.isEmpty_eq_false_iff.mpr empty] at seen
        simp only [step, Wbfft.step, live, reset, ce]
        revert seen
        cases core.sync run.device.fft <;> cases run.device.syncd <;> simp
      rw [advance, toNat_succ below]
    refine ⟨?_, ?_, ?_⟩
    · rw [moved, writing.next, shows]
      simp
    · rw [moved, writing.next, shows]
      simp
    · intro place under
      exact storing.holds_step live phase ce empty (by omega)

omit live reset in
theorem mem_still (other : (run.device.fftCe && run.device.fsmState == .processing) = false) :
    (run.step core ckpce clock).device.mem = run.device.mem := by
  simp [step, Wbfft.step, other]

/-- Nothing moves in the memory or the core without a clock enable. -/
theorem Storing.writing_still (conforms : core.Conforms lg) (storing : run.Storing core)
    (phase : run.device.fsmState = .processing) (still : run.device.fftCe = false)
    (some : run.shown ≠ []) : (run.step core ckpce clock).Writing core := by
  have writing := storing.writing phase some
  have same : (run.step core ckpce clock).shown = run.shown := shown_still live still
  have place : (run.step core ckpce clock).device.wrAddr = run.device.wrAddr := by
    simp [step, Wbfft.step, live, reset, still]
  have memory : (run.step core ckpce clock).device.mem = run.device.mem :=
    mem_still (by simp [still])
  refine ⟨by rw [place, same, writing.next], ?_, ?_⟩
  · rw [place, same, fft_step live, still, (conforms.holds _ _).2, writing.current]
  · intro lower under
    rw [place] at under
    rw [Holds, same, memory]
    exact writing.before lower under

theorem fsmState_processing (phase : run.device.fsmState = .processing) :
    (run.step core ckpce clock).device.fsmState =
      if run.device.fftCe && run.device.wrAddr == BitVec.allOnes lg then .idle else .processing := by
  simp [step, Wbfft.step, live, reset, phase]

theorem fsmState_idle (phase : run.device.fsmState = .idle) :
    (run.step core ckpce clock).device.fsmState = .idle := by
  simp [step, Wbfft.step, live, reset, phase]

theorem int_step :
    (run.step core ckpce clock).device.int =
      (run.device.int || (run.device.fftCe && run.device.wrAddr == BitVec.allOnes lg)) := by
  simp [step, Wbfft.step, live, reset]

omit reset in
theorem shown_stays (some : run.shown ≠ []) : (run.step core ckpce clock).shown ≠ [] := by
  intro none
  obtain ⟨head, tail, list⟩ := List.exists_cons_of_ne_nil some
  have grown : (run.step core ckpce clock).shown[0]? = Option.some head :=
    shown_grows live (by rw [list]; rfl)
  rw [none] at grown
  cases grown

omit live reset in
theorem zero_ne_allOnes (positive : 0 < lg) : (0 : BitVec lg) ≠ BitVec.allOnes lg := by
  intro equal
  have nat := congrArg BitVec.toNat equal
  rw [BitVec.toNat_allOnes] at nat
  have size := Nat.one_lt_two_pow (n := lg) (by omega)
  simp at nat
  omega

omit live reset in
theorem Storing.early (storing : run.Storing core) (phase : run.device.fsmState ≠ .idle) :
    run.device.int = false :=
  Bool.eq_false_iff.mpr (mt storing.int.mp phase)

theorem Storing.writing_next (conforms : core.Conforms lg) (storing : run.Storing core)
    (delivering : run.Delivering)
    (later : (run.step core ckpce clock).device.fsmState = .processing)
    (some : (run.step core ckpce clock).shown ≠ []) : (run.step core ckpce clock).Writing core := by
  cases phase : run.device.fsmState with
  | input => exact absurd (storing.input_silent live conforms delivering phase) some
  | idle =>
      rw [fsmState_idle live reset phase] at later
      cases later
  | processing =>
      rw [fsmState_processing live reset phase] at later
      cases ce : run.device.fftCe with
      | false =>
          refine storing.writing_still live reset conforms phase ce ?_
          rwa [shown_still live ce] at some
      | true =>
          refine storing.writing_step live reset phase (fun top => ?_) ce some
          simp [ce, top] at later

/-- The last output is stored by the clock that ends the processing. -/
theorem Storing.done_next (positive : 0 < lg) (storing : run.Storing core)
    (later : (run.step core ckpce clock).device.fsmState = .idle) (place : BitVec lg) :
    (run.step core ckpce clock).Holds place := by
  cases phase : run.device.fsmState with
  | input =>
      simp only [FftRun.step, Wbfft.step, live, reset, phase] at later
      revert later
      cases run.device.dataWrite clock && run.device.samplesIn == BitVec.allOnes lg <;> exact nofun
  | idle =>
      have memory : (run.step core ckpce clock).device.mem = run.device.mem :=
        mem_still (by simp [phase])
      rw [Holds, memory]
      exact shown_grows live (storing.done phase place)
  | processing =>
      rw [fsmState_processing live reset phase] at later
      split_ifs at later with last
      rw [Bool.and_eq_true, beq_iff_eq] at last
      refine storing.holds_step live phase last.1 (fun empty => ?_) ?_
      · exact zero_ne_allOnes positive ((storing.waiting empty).symm.trans last.2)
      · have size := place.isLt
        rw [last.2, BitVec.toNat_allOnes]
        omega

theorem Storing.int_next (positive : 0 < lg) (storing : run.Storing core) :
    (run.step core ckpce clock).device.int = true ↔
      (run.step core ckpce clock).device.fsmState = .idle := by
  rw [int_step live reset]
  cases phase : run.device.fsmState with
  | input =>
      have early := storing.early (by simp [phase])
      have zero := storing.waiting (storing.input phase)
      simp only [early, zero, beq_eq_false_iff_ne.mpr (zero_ne_allOnes positive), Bool.and_false,
        Bool.or_false, FftRun.step, Wbfft.step, live, reset, phase]
      cases run.device.dataWrite clock && run.device.samplesIn == BitVec.allOnes lg <;> simp
  | idle => simp [fsmState_idle live reset phase, storing.int.mpr phase]
  | processing =>
      rw [fsmState_processing live reset phase, storing.early (by simp [phase])]
      cases run.device.fftCe && run.device.wrAddr == BitVec.allOnes lg <;> simp

theorem Storing.step (positive : 0 < lg) (conforms : core.Conforms lg)
    (storing : run.Storing core) (delivering : run.Delivering) :
    (run.step core ckpce clock).Storing core := by
  refine ⟨storing.reached_step live, storing.synced_step live conforms, ?_, ?_, ?_, ?_,
    storing.int_next live reset positive⟩
  · intro later
    exact storing.input_silent live conforms delivering (fsmState_input live reset later)
  · intro empty
    by_cases before : run.shown = []
    · exact storing.waits live reset before
    · exact absurd empty (shown_stays live before)
  · exact storing.writing_next live reset conforms delivering
  · exact storing.done_next live reset positive

end Store

/-! ### Every run -/

structure Running (core : Core State) (ckpce : Nat) (run : FftRun lg State) : Prop where
  counted : run.Counted ckpce
  stalled : run.Stalled ckpce
  delivering : run.Delivering
  storing : run.Storing core

/-- Behind the clock that resets the core. -/
theorem running_reset (conforms : core.Conforms lg) (restarts : run.device.fftReset = true)
    (empty : (run.step core ckpce clock).written = []) :
    (run.step core ckpce clock).Running core ckpce := by
  have fed : (run.step core ckpce clock).fed = [] := by simp [step, restarts]
  have low : (run.step core ckpce clock).device.fftCe = false := by
    simp [step, Wbfft.step, restarts]
  have shown : (run.step core ckpce clock).shown = [] := by simp [step, nextShown, restarts]
  have phase : (run.step core ckpce clock).device.fsmState = .input := by
    simp [step, Wbfft.step, restarts]
  have reached : core.Reached (run.step core ckpce clock).fed.length
      (run.step core ckpce clock).device.fft := by
    rw [fed]
    simp only [step, Wbfft.step, restarts]
    exact .reset _ _ _
  refine ⟨⟨?_, ?_, ?_, ?_, ?_⟩, ⟨?_, ?_, ?_⟩, ⟨?_, ?_⟩, ⟨reached, ?_, ?_, ?_, ?_, ?_, ?_⟩⟩
  · intro small
    simp [step, Wbfft.step, small]
  · intro high
    rw [low] at high
    cases high
  · intro high
    rw [low] at high
    cases high
  · intro _
    simp [step, Wbfft.step, restarts]
  · simp [step, Wbfft.step, restarts]
  · simp [step, Wbfft.step, restarts]
  · intro _ high
    rw [low] at high
    cases high
  · intro _ _
    simp [step, Wbfft.step, restarts]
  · intro _
    refine ⟨by rw [pulses, fed, low, empty]; rfl, ?_⟩
    rw [empty]
    simp [step, Wbfft.step, restarts]
  · intro other
    exact absurd phase other
  · have silent := conforms.late _ _ reached (by rw [fed]; exact Nat.two_pow_pos lg)
    rw [silent, shown]
    simp [step, Wbfft.step, restarts]
  · intro _
    exact shown
  · intro _
    simp [step, Wbfft.step, restarts]
  · intro other
    rw [phase] at other
    cases other
  · intro other
    rw [phase] at other
    cases other
  · rw [phase]
    simp [step, Wbfft.step, restarts]

structure Sound (core : Core State) (ckpce : Nat) (run : FftRun lg State) : Prop where
  cleared : run.device.fftReset = true → run.written = []
  running : run.device.fftReset = false → run.Running core ckpce
  done : run.device.int = true → run.device.fsmState = .idle ∧ ∀ place, run.Holds place
  acknowledged : run.asked = run.acked + run.device.wbAck.toNat

theorem start_sound (device : Wbfft lg State) (clock : FftClock lg) :
    (start core ckpce device clock).Sound core ckpce where
  cleared _ := rfl
  running ready := nomatch ready
  done high := by simp [start, Wbfft.step] at high
  acknowledged := rfl

theorem Sound.step (positive : 0 < lg) (conforms : core.Conforms lg) (sound : run.Sound core ckpce)
    (gentle : run.Gentle clock) : (run.step core ckpce clock).Sound core ckpce where
  cleared later := by
    have cause : (clock.reset || run.device.ctrlWrite clock) = true := by
      revert later
      simp only [FftRun.step, Wbfft.step]
      cases clock.reset <;> simp
    simp only [FftRun.step, cause, ite_true]
  running later := by
    obtain ⟨reset, data⟩ : clock.reset = false ∧ run.device.ctrlWrite clock = false := by
      revert later
      simp only [FftRun.step, Wbfft.step]
      cases clock.reset <;> simp
    cases live : run.device.fftReset with
    | true =>
        refine running_reset conforms live ?_
        simp only [FftRun.step, reset, data, gentle live reset, sound.cleared live]
        rfl
    | false =>
        have running := sound.running live
        exact ⟨running.counted.step live reset running.stalled, running.stalled.step live reset,
          running.delivering.step live reset data,
          running.storing.step live reset positive conforms running.delivering⟩
  done later := by
    have going : (clock.reset || run.device.fftReset) = false := by
      by_contra restarts
      rw [Bool.not_eq_false] at restarts
      simp [FftRun.step, Wbfft.step, restarts] at later
    obtain ⟨reset, live⟩ := Bool.or_eq_false_iff.mp going
    have running := sound.running live
    have storing : (run.step core ckpce clock).Storing core :=
      running.storing.step live reset positive conforms running.delivering
    exact ⟨storing.int.mp later, storing.done (storing.int.mp later)⟩
  acknowledged := by
    have before := sound.acknowledged
    simp only [FftRun.step, Wbfft.step]
    cases clock.reset with
    | true => rfl
    | false =>
        simp only [Bool.false_eq_true, ite_false]
        omega

theorem Sound.correct (sound : run.Sound core ckpce) : run.Correct core ckpce where
  delivered live := (sound.running live).delivering.take
  apart live := (sound.running live).counted.apart
  ignored live full _ writes := (sound.running live).delivering.ignores full writes
  stored high := (sound.done high).2
  kept high clock := mem_still (by simp [(sound.done high).1])
  acknowledged := sound.acknowledged

/-- A data write at the wrong clock is missing from the core. -/
theorem Correct.gentle (correct : (run.step core ckpce clock).Correct core ckpce) :
    run.Gentle clock := by
  intro restarts reset
  by_contra writes
  rw [Bool.not_eq_false] at writes
  have data : run.device.ctrlWrite clock = false := by
    simp only [writesData, Bool.and_eq_true] at writes
    simp [Wbfft.ctrlWrite, writes.2]
  have live : (run.step core ckpce clock).device.fftReset = false := by
    simp [step, Wbfft.step, reset, data]
  have same := correct.delivered live
  have none : (run.step core ckpce clock).pulses = [] := by
    simp [pulses, step, Wbfft.step, restarts]
  have one : (run.step core ckpce clock).written = run.written ++ [clock.data] := by
    simp [step, reset, data, writes]
  rw [none, one, List.take_nil, eq_comm, List.take_eq_nil_iff] at same
  rcases same with zero | empty
  · exact absurd zero (Nat.ne_of_gt (Nat.two_pow_pos lg))
  · simp at empty

/-- A sound run stays sound as long as its clocks are gentle. -/
theorem Sound.through (positive : 0 < lg) (conforms : core.Conforms lg)
    {clocks : List (FftClock lg)} (sound : run.Sound core ckpce)
    (gentle : ∀ before clock after, clocks = before ++ clock :: after →
      (Lib.clocked (FftRun.step core ckpce) run before).Gentle clock) :
    (Lib.clocked (FftRun.step core ckpce) run clocks).Sound core ckpce := by
  induction clocks generalizing run with
  | nil => exact sound
  | cons clock rest ih =>
      refine ih (sound.step positive conforms (gentle [] clock rest rfl)) ?_
      intro before other after split
      exact gentle (clock :: before) other after (by rw [split, List.cons_append])

end FftRun

/-- At every clock of a run out of reset the device does what it is for, exactly when
no data write comes at a clock at which the core is being reset. -/
theorem wbfft_run_correct_iff {lg : Nat} {State : Type} {core : Core State} (ckpce : Nat)
    (positive : 0 < lg) (conforms : core.Conforms lg) (device : Wbfft lg State)
    (first : FftClock lg) (clocks : List (FftClock lg)) :
    (∀ before after, clocks = before ++ after →
        (Lib.clocked (FftRun.step core ckpce) (FftRun.start core ckpce device first) before).Correct
          core ckpce) ↔
      ∀ before clock after, clocks = before ++ clock :: after →
        (Lib.clocked (FftRun.step core ckpce) (FftRun.start core ckpce device first) before).Gentle
          clock := by
  constructor
  · intro correct before clock after split
    have later := correct (before ++ [clock]) after (by rw [split, List.append_assoc]; rfl)
    rw [Lib.clocked_append] at later
    exact later.gentle
  · intro gentle before after split
    have sound : (FftRun.start core ckpce device first).Sound core ckpce :=
      FftRun.start_sound device first
    refine (sound.through positive conforms ?_).correct
    intro early clock late parts
    exact gentle early clock (late ++ after) (by rw [split, parts, List.append_assoc]; rfl)

/-! ### Two points -/

/-- A core for two samples: their sum, shown with `sync` when both are in, and their
difference. -/
structure Butterfly where
  count : Nat
  first : BitVec 32
  sum : BitVec 32
  difference : BitVec 32
  deriving DecidableEq, Repr

def butterfly : Core Butterfly where
  step state reset ce sample :=
    if reset then ⟨0, 0, 0, 0⟩
    else if ce then
      (if state.count = 0 then { state with count := 1, first := sample }
      else if state.count = 1 then
        ⟨2, state.first, state.first + sample, state.first - sample⟩
      else { state with count := state.count + 1 })
    else state
  sync state := state.count == 2
  output state := if state.count ≤ 2 then state.sum else state.difference

theorem butterfly_conforms : butterfly.Conforms 1 where
  holds _ _ := ⟨rfl, rfl⟩
  late count state reached early := by
    have counts : state.count = count := by
      clear early
      induction reached with
      | reset state ce sample => rfl
      | idle sample _ ih => exact ih
      | @ce before state sample _ ih =>
          simp only [butterfly, Bool.false_eq_true, ite_false, ite_true]
          split_ifs <;> simp <;> omega
    have few : state.count < 2 := by
      rw [counts]
      exact early
    simp only [butterfly, beq_eq_false_iff_ne]
    omega

def still : FftClock 1 := ⟨false, false, false, 0, 0⟩
def sampleWrite (data : BitVec 32) : FftClock 1 := ⟨false, true, true, 2, data⟩
def controlWrite : FftClock 1 := ⟨false, true, true, 0, 0⟩

/-- The device before its first reset. -/
def unset : Wbfft 1 Butterfly :=
  { fftReset := true, wbStall := false, stallCount := 0, fftCeCount := 0, fsmState := .input,
    samplesIn := 0, fftCe := false, fftInput := 0, fft := ⟨0, 0, 0, 0⟩, syncd := false, wrAddr := 0,
    mem := fun _ => 0, wbData := 0, wbAck := false, int := false }

/-- A control write, two samples and the clocks until the end. -/
def transform : List (FftClock 1) :=
  [still, controlWrite, still, sampleWrite 7, still, still, sampleWrite 5] ++ List.replicate 9 still

theorem transform_correct :
    (Lib.clocked (FftRun.step butterfly 3) (FftRun.start butterfly 3 unset still) transform).device.int =
        true ∧
      (Lib.clocked (FftRun.step butterfly 3) (FftRun.start butterfly 3 unset still)
        transform).device.mem 1 = 2 ∧
      (Lib.clocked (FftRun.step butterfly 3) (FftRun.start butterfly 3 unset still)
        transform).Correct butterfly 3 := by
  refine ⟨by decide, by decide, ?_⟩
  refine (wbfft_run_correct_iff 3 (by decide) butterfly_conforms unset still transform).mpr ?_
    transform [] (by simp)
  have gentle : ∀ index : Fin 16,
      (Lib.clocked (FftRun.step butterfly 3) (FftRun.start butterfly 3 unset still)
        (transform.take index)).Gentle (transform.getD index still) := by
    decide
  intro before clock after split
  have length : before.length < 16 := by
    have total := congrArg List.length split
    rw [show transform.length = 16 from rfl, List.length_append, List.length_cons] at total
    omega
  have here := gentle ⟨before.length, length⟩
  simp only [split] at here
  simpa using here

/-- A sample written right behind the control write does not reach the core. -/
theorem early_sample_lost :
    ¬ ∀ clocks : List (FftClock 1), ∀ before after, clocks = before ++ after →
      (Lib.clocked (FftRun.step butterfly 3) (FftRun.start butterfly 3 unset still)
        before).Correct butterfly 3 := by
  intro correct
  have all := correct [still, controlWrite, sampleWrite 7] _ [] (List.append_nil _).symm
  exact absurd (all.delivered rfl) (by decide)

end ZipVersa.Fft
