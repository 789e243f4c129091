import Mathlib.Data.Nat.Count
import ZipVersa.Lib.Clocked
import ZipVersa.Lib.MixedRadix
import ZipVersa.Lib.Pulses
import ZipVersa.Rtc.Bcd

/-! `rtctimer`, the countdown timer, with the eight bits of sub-seconds that
`rtclight` gives it. -/

set_option autoImplicit false

namespace ZipVersa.Rtc

open Lib

/-- 24 bits of a countdown. -/
structure TimerDigits where
  /-- `[3:0]` -/
  seconds : BitVec 4
  /-- `[6:4]` -/
  tenSeconds : BitVec 3
  bit7 : Bool
  /-- `[11:8]` -/
  minutes : BitVec 4
  /-- `[14:12]` -/
  tenMinutes : BitVec 3
  bit15 : Bool
  /-- `[19:16]` -/
  hours : BitVec 4
  /-- `[23:20]` -/
  tenHours : BitVec 4
  deriving DecidableEq, Repr

def TimerDigits.zero : TimerDigits := ⟨0, 0, false, 0, 0, false, 0, 0⟩

/-- `tmr_carry` and `pre_tmr_carry`. -/
structure TmrCarry where
  carry0 : Bool
  carry1 : Bool
  carry2 : Bool
  carry3 : Bool
  carry4 : Bool
  deriving DecidableEq, Repr

/-- A digit of a count down: back to its largest, one less, or kept. -/
def borrowDigit {w : Nat} (wraps borrow : Bool) (top digit : BitVec w) : BitVec w :=
  if wraps then top else if borrow then digit - 1 else digit

structure TimerClock where
  iReset : Bool
  iSubCk : Bool
  iWr : Bool
  /-- `i_data[23:0]` -/
  iData : TimerDigits
  /-- `i_data[24]` -/
  iRun : Bool
  iValid : Fields
  iZero : Bool

structure RtcTimer where
  bcdTimer : TimerDigits
  nextTimer : TimerDigits
  tmrCarry : TmrCarry
  preTmrCarry : TmrCarry
  lastTick : Bool
  tmSub : BitVec 8
  tmPrePps : Bool
  tmInt : Bool
  tmRunning : Bool
  tmAlarm : Bool

namespace RtcTimer

/-- `&i_valid` and not `i_zero`. -/
def startsWith (clock : TimerClock) : Bool :=
  clock.iValid.seconds && clock.iValid.minutes && clock.iValid.hours && !clock.iZero

/-- A write that loads the stopped timer. -/
def loads (timer : RtcTimer) (clock : TimerClock) : Bool :=
  clock.iWr && !timer.tmRunning && startsWith clock

def tmPps (timer : RtcTimer) (clock : TimerClock) : Bool := timer.tmPrePps && clock.iSubCk

def zeroDigits (time : TimerDigits) : TmrCarry where
  carry0 := time.seconds == 0
  carry1 := time.tenSeconds == 0
  carry2 := time.minutes == 0
  carry3 := time.tenMinutes == 0
  carry4 := time.hours == 0

def borrows (pre : TmrCarry) : TmrCarry where
  carry0 := pre.carry0
  carry1 := pre.carry1 && pre.carry0
  carry2 := pre.carry2 && (pre.carry1 && pre.carry0)
  carry3 := pre.carry3 && (pre.carry2 && (pre.carry1 && pre.carry0))
  carry4 := pre.carry4 && (pre.carry3 && (pre.carry2 && (pre.carry1 && pre.carry0)))

/-- `next_timer`. -/
def counted (carry : TmrCarry) (time : TimerDigits) : TimerDigits where
  seconds := borrowDigit carry.carry0 true 9 time.seconds
  tenSeconds := borrowDigit carry.carry1 carry.carry0 5 time.tenSeconds
  bit7 := false
  minutes := borrowDigit carry.carry2 carry.carry1 9 time.minutes
  tenMinutes := borrowDigit carry.carry3 carry.carry2 5 time.tenMinutes
  bit15 := false
  hours := borrowDigit carry.carry4 carry.carry3 9 time.hours
  tenHours := borrowDigit false carry.carry4 0 time.tenHours

/-- `bcd_timer[23:1] == 0`. -/
def atLast (time : TimerDigits) : Bool :=
  time.seconds.extractLsb' 1 3 == 0 && { time with seconds := 0 } == TimerDigits.zero

def step (timer : RtcTimer) (clock : TimerClock) : RtcTimer where
  bcdTimer :=
    if clock.iReset then .zero
    else if timer.loads clock then clock.iData
    else
      { (if timer.tmPps clock && timer.tmRunning then timer.nextTimer else timer.bcdTimer) with
        bit7 := false
        bit15 := false }
  nextTimer := counted timer.tmrCarry timer.bcdTimer
  tmrCarry := borrows timer.preTmrCarry
  preTmrCarry := zeroDigits timer.bcdTimer
  lastTick := atLast timer.bcdTimer
  tmSub :=
    if clock.iReset || timer.loads clock then 0
    else if clock.iSubCk && timer.tmRunning then timer.tmSub + 1
    else timer.tmSub
  tmPrePps :=
    if clock.iReset || clock.iWr && !timer.tmRunning then false
    else if clock.iSubCk && timer.tmRunning then
      timer.tmSub.extractLsb' 1 7 == BitVec.allOnes 7 && !timer.tmSub.getLsbD 0
    else timer.tmSub == BitVec.allOnes 8
  tmInt :=
    if clock.iReset then false
    else timer.tmRunning && timer.tmPps clock && !timer.tmAlarm && timer.lastTick
  tmRunning :=
    if clock.iReset then false
    else if timer.tmPps clock && timer.lastTick then false
    else if clock.iWr then
      (if timer.tmRunning then clock.iRun
      else if clock.iZero && timer.bcdTimer != .zero then clock.iRun
      else startsWith clock)
    else timer.tmRunning
  tmAlarm :=
    if clock.iReset then false
    else if clock.iWr && !timer.tmRunning then false
    else if timer.tmRunning && timer.tmPps clock && timer.lastTick then true
    else timer.tmAlarm

def oInterrupt (timer : RtcTimer) : Bool := timer.tmInt

end RtcTimer

/-! ### The borrows -/

namespace TimerDigits

def digits (time : TimerDigits) : List Nat :=
  [time.seconds.toNat, time.tenSeconds.toNat, time.minutes.toNat, time.tenMinutes.toNat,
    time.hours.toNat, time.tenHours.toNat]

def radices : List Nat := [10, 6, 10, 6, 10, 16]

/-- The seconds of a countdown. -/
def value (time : TimerDigits) : Nat := MixedRadix.value radices time.digits

/-- BCD, but for the tens of hours. -/
structure Valid (time : TimerDigits) : Prop where
  bit7 : time.bit7 = false
  bit15 : time.bit15 = false
  below : MixedRadix.Below radices time.digits

/-- The count once the borrows have settled. -/
def prev (time : TimerDigits) : TimerDigits :=
  RtcTimer.counted (RtcTimer.borrows (RtcTimer.zeroDigits time)) time

theorem borrowDigit_toNat {w : Nat} (borrow : Bool) (top digit : BitVec w) :
    (borrowDigit (digit == 0 && borrow) borrow top digit).toNat =
      if borrow then if digit.toNat = 0 then top.toNat else digit.toNat - 1 else digit.toNat := by
  rw [borrowDigit, beq_zero_eq]
  cases borrow with
  | false => rw [Bool.and_false]; rfl
  | true =>
      rw [Bool.and_true, if_pos rfl, if_pos rfl]
      by_cases none : digit.toNat = 0
      · rw [if_pos (decide_eq_true none), if_pos none]
      · have below := digit.isLt
        have one : (1 : BitVec w).toNat = 1 := (BitVec.toNat_ofNat 1 w).trans
          (Nat.mod_eq_of_lt (by omega))
        rw [if_neg (by simpa using none), if_neg none,
          BitVec.toNat_sub_of_le (by rw [BitVec.le_def]; omega), one]

/-- The borrow ends at the first digit that is not zero. -/
theorem prev_digits (time : TimerDigits) :
    time.prev.digits = MixedRadix.prev radices time.digits := by
  have lowered : MixedRadix.prev radices time.digits = MixedRadix.lower true radices time.digits :=
    rfl
  rw [lowered]
  simp only [digits, radices, MixedRadix.lower_cons, MixedRadix.lower_nil, ← beq_zero_eq,
    Bool.and_true]
  have seconds := borrowDigit_toNat true 9 time.seconds
  have tenHours (borrow : Bool) : (borrowDigit false borrow 0 time.tenHours).toNat =
      if borrow then if time.tenHours.toNat = 0 then 15 else time.tenHours.toNat - 1
      else time.tenHours.toNat := by
    generalize time.tenHours = digit
    revert borrow digit
    decide
  rw [Bool.and_true] at seconds
  exact congrArg₂ List.cons seconds (congrArg₂ List.cons (borrowDigit_toNat _ 5 _)
    (congrArg₂ List.cons (borrowDigit_toNat _ 9 _) (congrArg₂ List.cons (borrowDigit_toNat _ 5 _)
      (congrArg₂ List.cons (borrowDigit_toNat _ 9 _) (congrArg₂ List.cons (tenHours _) rfl)))))

theorem value_eq (time : TimerDigits) : time.value =
    time.seconds.toNat + 10 * (time.tenSeconds.toNat + 6 * (time.minutes.toNat +
      10 * (time.tenMinutes.toNat + 6 * (time.hours.toNat + 10 * time.tenHours.toNat)))) := rfl

variable {time : TimerDigits}

theorem Valid.prev (valid : time.Valid) : time.prev.Valid where
  bit7 := rfl
  bit15 := rfl
  below := by
    rw [prev_digits]
    exact MixedRadix.Below.prev valid.below

theorem Valid.value_prev (valid : time.Valid) (some : 0 < time.value) :
    time.prev.value + 1 = time.value := by
  rw [value, prev_digits]
  exact MixedRadix.Below.value_prev valid.below some

theorem Valid.eq_zero_iff (valid : time.Valid) : time = .zero ↔ time.value = 0 := by
  constructor
  · rintro rfl
    rfl
  · intro none
    obtain ⟨seconds, tenSeconds, bit7, minutes, tenMinutes, bit15, hours, tenHours⟩ := time
    rw [value_eq] at none
    obtain rfl : bit7 = false := valid.bit7
    obtain rfl : bit15 = false := valid.bit15
    have digit {w : Nat} {b : BitVec w} (zero : b.toNat = 0) : b = 0 :=
      BitVec.eq_of_toNat_eq zero
    simp only at none
    rw [digit (b := seconds) (by omega), digit (b := tenSeconds) (by omega),
      digit (b := minutes) (by omega), digit (b := tenMinutes) (by omega),
      digit (b := hours) (by omega), digit (b := tenHours) (by omega), zero]

theorem Valid.atLast_iff (valid : time.Valid) : RtcTimer.atLast time = true ↔ time.value ≤ 1 := by
  have rest : ({ time with seconds := 0 } : TimerDigits).Valid := by
    refine ⟨valid.bit7, valid.bit15, ?_⟩
    cases valid.below with
    | cons first others => exact .cons (Nat.zero_lt_succ 9) others
  have upper (digit : BitVec 4) : digit.extractLsb' 1 3 = 0 ↔ digit.toNat ≤ 1 := by
    revert digit
    decide
  obtain ⟨tens, multiple, sum⟩ : ∃ tens, ({ time with seconds := 0 } : TimerDigits).value = 10 * tens ∧
      time.value = time.seconds.toNat + 10 * tens :=
    ⟨_, (value_eq _).trans (Nat.zero_add _), value_eq time⟩
  rw [RtcTimer.atLast, Bool.and_eq_true, beq_iff_eq, beq_iff_eq, upper, rest.eq_zero_iff, sum,
    multiple]
  omega

end TimerDigits

/-! ### Counting down -/

namespace RtcTimer

/-- A sub-tick counted while running. -/
def counts (timer : RtcTimer) (clock : TimerClock) : Bool := clock.iSubCk && timer.tmRunning

/-- The borrows some clocks after the count has changed. -/
structure Settled (timer : RtcTimer) (age : Nat) : Prop where
  pre : 1 ≤ age → timer.preTmrCarry = zeroDigits timer.bcdTimer
  last : 1 ≤ age → timer.lastTick = atLast timer.bcdTimer
  carry : 2 ≤ age → timer.tmrCarry = borrows (zeroDigits timer.bcdTimer)
  next : 3 ≤ age → timer.nextTimer = timer.bcdTimer.prev

variable {timer : RtcTimer} {clock : TimerClock}

theorem Settled.stay {age : Nat} (settled : Settled timer age)
    (still : (timer.step clock).bcdTimer = timer.bcdTimer) :
    Settled (timer.step clock) (age + 1) where
  pre _ := by rw [still]; rfl
  last _ := by rw [still]; rfl
  carry late := by
    rw [still, ← settled.pre (by omega)]
    rfl
  next late := by
    rw [still, TimerDigits.prev, ← settled.carry (by omega)]
    rfl

/-- The sub-seconds and the flag beside them, after a clock that may have written
to the stopped timer. -/
def flag (timer : RtcTimer) (written : Bool) : Bool :=
  timer.tmSub == BitVec.allOnes 8 && !written

/-- The timer with time left: `count` sub-ticks counted of 256 for each second of
`goal`, the last change of the time `age` clocks ago and the last sub-tick `quiet`. -/
structure Active (timer : RtcTimer) (goal count age quiet : Nat) (written : Bool) : Prop where
  valid : timer.bcdTimer.Valid
  some : 0 < timer.bcdTimer.value
  settled : Settled timer age
  waited : timer.tmSub = 0 ∨ quiet ≤ age
  total : count + 256 * timer.bcdTimer.value = 256 * goal + timer.tmSub.toNat
  alarm : timer.tmAlarm = false
  prePps : timer.tmPrePps = timer.flag written

/-- The timer at its end. -/
structure Done (timer : RtcTimer) : Prop where
  zero : timer.bcdTimer = .zero
  stopped : timer.tmRunning = false

/-- A clock without a reset or a load. -/
theorem step_fields (reset : clock.iReset = false) (loads : timer.loads clock = false) :
    (timer.step clock).bcdTimer =
        { (if timer.tmPps clock && timer.tmRunning then timer.nextTimer else timer.bcdTimer) with
          bit7 := false
          bit15 := false } ∧
      (timer.step clock).tmSub = (if timer.counts clock then timer.tmSub + 1 else timer.tmSub) ∧
      (timer.step clock).tmPrePps =
        (if clock.iWr && !timer.tmRunning then false
        else if timer.counts clock then
          timer.tmSub.extractLsb' 1 7 == BitVec.allOnes 7 && !timer.tmSub.getLsbD 0
        else timer.tmSub == BitVec.allOnes 8) ∧
      (timer.step clock).oInterrupt =
        (timer.tmRunning && timer.tmPps clock && !timer.tmAlarm && timer.lastTick) ∧
      (timer.step clock).tmAlarm =
        (if clock.iWr && !timer.tmRunning then false
        else if timer.tmRunning && timer.tmPps clock && timer.lastTick then true
        else timer.tmAlarm) := by
  simp only [step, oInterrupt, reset, loads, Bool.false_or, Bool.false_eq_true, if_false]
  exact ⟨trivial, rfl, rfl, trivial, trivial⟩

theorem Done.step (done : Done timer) (reset : clock.iReset = false)
    (loads : timer.loads clock = false) :
    Done (timer.step clock) ∧ (timer.step clock).oInterrupt = false := by
  obtain ⟨bcdTimer, _, _, interrupt, _⟩ := step_fields reset loads
  rw [done.stopped, Bool.and_false, if_neg Bool.false_ne_true, done.zero] at bcdTimer
  rw [done.stopped, Bool.false_and, Bool.false_and, Bool.false_and] at interrupt
  refine ⟨⟨bcdTimer, ?_⟩, interrupt⟩
  rw [RtcTimer.loads, done.stopped, Bool.not_false, Bool.and_true] at loads
  simp only [RtcTimer.step, reset, done.stopped, done.zero, Bool.false_eq_true, if_false,
    bne_self_eq_false, Bool.and_false]
  split_ifs with pulse write
  · rfl
  · rwa [write, Bool.true_and] at loads
  · rfl

variable {goal count age quiet : Nat} {written : Bool}

theorem valid_bits {time : TimerDigits} (valid : time.Valid) :
    { time with bit7 := false, bit15 := false } = time := by
  have low := valid.bit7
  have high := valid.bit15
  cases time
  simp only at low high
  rw [low, high]

/-- Without a second pulse the time stays. -/
theorem Active.still (active : Active timer goal count age quiet written)
    (reset : clock.iReset = false) (loads : timer.loads clock = false)
    (silent : (timer.tmPps clock && timer.tmRunning) = false) :
    (timer.step clock).bcdTimer = timer.bcdTimer ∧ (timer.step clock).oInterrupt = false ∧
      (timer.step clock).tmAlarm = false := by
  obtain ⟨bcdTimer, _, _, interrupt, alarm⟩ := step_fields reset loads
  rw [Bool.and_comm] at silent
  rw [silent, Bool.false_and, Bool.false_and] at interrupt
  rw [silent, Bool.false_and, if_neg Bool.false_ne_true, active.alarm, ite_self] at alarm
  rw [Bool.and_comm, silent, if_neg Bool.false_ne_true, valid_bits active.valid] at bcdTimer
  exact ⟨bcdTimer, interrupt, alarm⟩

theorem Active.idle (active : Active timer goal count age quiet written)
    (reset : clock.iReset = false) (loads : timer.loads clock = false)
    (uncounted : timer.counts clock = false) {quiet' : Nat} (clocks : quiet' ≤ quiet + 1) :
    Active (timer.step clock) goal count (age + 1) quiet' (clock.iWr && !timer.tmRunning) ∧
      (timer.step clock).oInterrupt = false := by
  obtain ⟨_, tmSub, prePps, _, _⟩ := step_fields reset loads
  have silent : (timer.tmPps clock && timer.tmRunning) = false := by
    rw [tmPps, Bool.and_assoc, ← counts, uncounted, Bool.and_false]
  obtain ⟨still, interrupt, alarm⟩ := active.still reset loads silent
  rw [uncounted, if_neg Bool.false_ne_true] at tmSub prePps
  refine ⟨?_, interrupt⟩
  constructor
  case valid => rw [still]; exact active.valid
  case some => rw [still]; exact active.some
  case settled => exact active.settled.stay still
  case waited =>
    rw [tmSub]
    exact active.waited.imp_right fun waited => by omega
  case total => rw [still, tmSub]; exact active.total
  case alarm => exact alarm
  case prePps =>
    rw [prePps, flag, tmSub]
    cases clock.iWr && !timer.tmRunning <;> simp

/-- The flag after a counted sub-tick. -/
theorem flag_counted (sub : BitVec 8) :
    (sub.extractLsb' 1 7 == BitVec.allOnes 7 && !sub.getLsbD 0) = (sub + 1 == BitVec.allOnes 8) := by
  revert sub
  decide +kernel

theorem tmSub_counted (sub : BitVec 8) : (sub + 1).toNat + 256 * (sub == BitVec.allOnes 8).toNat =
    sub.toNat + 1 := by
  revert sub
  decide +kernel

/-- A sub-tick without a second pulse: within a second, or the last of one after a
write that has cleared the flag. That second is lost. -/
theorem Active.tick (active : Active timer goal count age quiet written)
    (reset : clock.iReset = false) (loads : timer.loads clock = false)
    (counted : timer.counts clock = true)
    (silent : timer.flag written = false) :
    Active (timer.step clock) (goal + (timer.tmSub == BitVec.allOnes 8).toNat) (count + 1)
        (age + 1) 0 false ∧
      (timer.step clock).oInterrupt = false := by
  obtain ⟨_, tmSub, prePps, _, _⟩ := step_fields reset loads
  obtain ⟨_, running⟩ := (Bool.and_eq_true _ _).mp counted
  obtain ⟨still, interrupt, alarm⟩ := active.still reset loads (by
    rw [tmPps, active.prePps, silent, Bool.false_and, Bool.false_and])
  rw [counted, if_pos rfl] at tmSub prePps
  rw [running, Bool.not_true, Bool.and_false, if_neg Bool.false_ne_true, flag_counted] at prePps
  refine ⟨?_, interrupt⟩
  constructor
  case valid => rw [still]; exact active.valid
  case some => rw [still]; exact active.some
  case settled => exact active.settled.stay still
  case waited => exact .inr (Nat.zero_le _)
  case total =>
    have total := active.total
    have next := tmSub_counted timer.tmSub
    rw [still, tmSub]
    omega
  case alarm => exact alarm
  case prePps => rw [prePps, flag, tmSub, Bool.not_false, Bool.and_true]

section Pulse

variable (active : Active timer goal count age quiet written) (reset : clock.iReset = false)
  (loads : timer.loads clock = false) (counted : timer.counts clock = true)
  (pulse : timer.flag written = true) (late : 3 ≤ quiet)
include active reset loads counted pulse late

/-- A second pulse finds the borrows settled. -/
theorem Active.pulsed : (timer.step clock).bcdTimer = timer.bcdTimer.prev ∧
    (timer.step clock).tmSub = 0 ∧ (timer.step clock).tmPrePps = false ∧
    (timer.step clock).oInterrupt = timer.lastTick ∧
    (timer.step clock).tmAlarm = timer.lastTick ∧
    (timer.lastTick = true ↔ timer.bcdTimer.value ≤ 1) ∧
    count + 256 * timer.bcdTimer.value = 256 * goal + 255 := by
  obtain ⟨bcdTimer, tmSub, prePps, interrupt, alarm⟩ := step_fields reset loads
  obtain ⟨ticked, running⟩ := (Bool.and_eq_true _ _).mp counted
  have pps : timer.tmPps clock = true := by rw [tmPps, active.prePps, pulse, ticked]; rfl
  have full : timer.tmSub = BitVec.allOnes 8 := by
    rw [flag, Bool.and_eq_true, beq_iff_eq] at pulse
    exact pulse.1
  have settled : 3 ≤ age := by
    rcases active.waited with zero | waited
    · rw [full] at zero
      exact absurd zero (by decide)
    · omega
  have last := active.valid.atLast_iff
  rw [← active.settled.last (by omega)] at last
  rw [pps, running, Bool.and_true, if_pos rfl, active.settled.next settled,
    valid_bits active.valid.prev] at bcdTimer
  rw [counted, if_pos rfl, full] at tmSub
  rw [counted, if_pos rfl, running, Bool.not_true, Bool.and_false, if_neg Bool.false_ne_true,
    flag_counted, full] at prePps
  rw [running, pps, active.alarm, Bool.and_self, Bool.not_false, Bool.and_self,
    Bool.true_and] at interrupt
  rw [running, pps, active.alarm, Bool.not_true, Bool.and_false, if_neg Bool.false_ne_true,
    Bool.and_self, Bool.true_and] at alarm
  have total := active.total
  rw [full] at total
  refine ⟨bcdTimer, tmSub, prePps, interrupt, alarm.trans ?_, last, total⟩
  cases timer.lastTick <;> rfl

/-- The last pulse, at one second left. -/
theorem Active.last (one : timer.bcdTimer.value = 1) :
    Done (timer.step clock) ∧ count + 1 = 256 * goal ∧ (timer.step clock).oInterrupt = true := by
  obtain ⟨bcdTimer, _, _, interrupt, _, last, total⟩ :=
    active.pulsed reset loads counted pulse late
  have prev := active.valid.value_prev active.some
  have ends : timer.lastTick = true := last.mpr (by omega)
  have pps : timer.tmPps clock = true := by
    rw [tmPps, active.prePps, pulse, ((Bool.and_eq_true _ _).mp counted).1]
    rfl
  refine ⟨⟨?_, ?_⟩, by omega, interrupt.trans ends⟩
  · rw [bcdTimer]
    exact active.valid.prev.eq_zero_iff.mpr (by omega)
  · simp only [step, reset, pps, ends, Bool.and_self, if_true, Bool.false_eq_true, if_false]

/-- A pulse before the last one. -/
theorem Active.second (more : timer.bcdTimer.value ≠ 1) :
    Active (timer.step clock) goal (count + 1) 0 0 false ∧
      (timer.step clock).oInterrupt = false := by
  obtain ⟨bcdTimer, tmSub, prePps, interrupt, alarm, last, total⟩ :=
    active.pulsed reset loads counted pulse late
  have prev := active.valid.value_prev active.some
  have some := active.some
  have goes : timer.lastTick = false := Bool.eq_false_of_not_eq_true fun ends => by
    have := last.mp ends
    omega
  refine ⟨?_, interrupt.trans goes⟩
  constructor
  case valid => rw [bcdTimer]; exact active.valid.prev
  case some => rw [bcdTimer]; omega
  case settled => exact ⟨fun never => absurd never (by decide), fun never => absurd never (by decide),
      fun never => absurd never (by decide), fun never => absurd never (by decide)⟩
  case waited => exact .inr (Nat.le_refl 0)
  case total =>
    rw [bcdTimer, tmSub]
    change count + 1 + 256 * timer.bcdTimer.prev.value = 256 * goal + 0
    omega
  case alarm => exact alarm.trans goes
  case prePps =>
    rw [prePps, flag, tmSub]
    decide

end Pulse

/-! ### Runs -/

section Run

variable (timer : Nat → RtcTimer) (inputs : Nat → TimerClock)

/-- The sub-ticks counted before a clock. -/
def ticks (time : Nat) : Nat :=
  Nat.count (fun before => (timer before).counts (inputs before) = true) time

/-- The clock before wrote to the stopped timer. -/
def resumed : Nat → Bool
  | 0 => false
  | time + 1 => (inputs time).iWr && !(timer time).tmRunning

/-- A sub-tick counted right after a write that found the sub-seconds at their end. -/
def isLate (time : Nat) : Bool :=
  (timer time).counts (inputs time) && (timer time).tmSub == BitVec.allOnes 8 &&
    resumed timer inputs time

def lates (time : Nat) : Nat := Nat.count (fun before => isLate timer inputs before = true) time

/-- The alarm of a countdown: one interrupt, at the last of its sub-ticks, and then
nothing left. -/
structure CountsDown (seconds : Nat) : Prop where
  silent : (timer 0).oInterrupt = false
  interrupt : ∀ time, (timer (time + 1)).oInterrupt = true ↔
    (timer time).counts (inputs time) = true ∧ ticks timer inputs time + 1 = 256 * seconds
  stopped : ∀ time, 256 * seconds ≤ ticks timer inputs time →
    (timer time).bcdTimer = .zero ∧ (timer time).tmRunning = false
  running : ∀ time, (timer time).tmRunning = true → (timer time).bcdTimer ≠ .zero

variable {timer : Nat → RtcTimer} {inputs : Nat → TimerClock} {seconds : Nat}

/-- A timer and its inputs from the load on. -/
structure Loaded (timer : Nat → RtcTimer) (inputs : Nat → TimerClock) (seconds : Nat) : Prop where
  steps : ∀ time, timer (time + 1) = (timer time).step (inputs time)
  reset : ∀ time, (inputs time).iReset = false
  loads : ∀ time, (timer time).loads (inputs time) = false
  apart : Apart 4 fun time => (inputs time).iSubCk
  silent : (timer 0).oInterrupt = false
  start : Active (timer 0) seconds 0 0 4 false

theorem Active.less {timer : RtcTimer} (active : Active timer goal count age quiet written) :
    count < 256 * goal := by
  have total := active.total
  have some := active.some
  have sub := timer.tmSub.isLt
  omega

/-- The timer at a clock: with time left or at its end, 256 sub-ticks for each
second, those that were lost included. -/
def At (timer : Nat → RtcTimer) (inputs : Nat → TimerClock) (seconds time : Nat) : Prop :=
  (∃ age, Active (timer time) (seconds + lates timer inputs time) (ticks timer inputs time) age
    (since 4 (fun time => (inputs time).iSubCk) time) (resumed timer inputs time)) ∨
  Done (timer time) ∧ ticks timer inputs time = 256 * (seconds + lates timer inputs time)

/-- The interrupt after a clock is that of the last sub-tick. -/
def Rings (timer : Nat → RtcTimer) (inputs : Nat → TimerClock) (seconds time : Nat) : Prop :=
  (timer (time + 1)).oInterrupt = true ↔ (timer time).counts (inputs time) = true ∧
    ticks timer inputs time + 1 = 256 * (seconds + lates timer inputs (time + 1))

theorem ticks_succ (time : Nat) : ticks timer inputs (time + 1) =
    ticks timer inputs time + ((timer time).counts (inputs time)).toNat := by
  rw [ticks, Nat.count_succ, ← ticks]
  cases (timer time).counts (inputs time) <;> rfl

theorem lates_succ (time : Nat) : lates timer inputs (time + 1) =
    lates timer inputs time + (isLate timer inputs time).toNat := by
  rw [lates, Nat.count_succ, ← lates]
  cases isLate timer inputs time <;> rfl

theorem Loaded.step (loaded : Loaded timer inputs seconds) {time : Nat}
    (now : At timer inputs seconds time) :
    At timer inputs seconds (time + 1) ∧ Rings timer inputs seconds time := by
  have reset := loaded.reset time
  have loads := loaded.loads time
  rw [At, Rings, ticks_succ, lates_succ, isLate, loaded.steps, since, resumed]
  rcases now with ⟨age, active⟩ | ⟨done, all⟩
  · cases counted : (timer time).counts (inputs time) with
    | false =>
        obtain ⟨next, interrupt⟩ := active.idle reset loads counted
          (aged_le (inputs time).iSubCk (since 4 (fun time => (inputs time).iSubCk) time))
        rw [interrupt, Bool.false_and, Bool.false_and]
        exact ⟨.inl ⟨_, next⟩, iff_of_false Bool.false_ne_true fun rings => absurd rings.1 Bool.false_ne_true⟩
    | true =>
        obtain ⟨ticked, running⟩ := (Bool.and_eq_true _ _).mp counted
        rw [running, ticked, Bool.not_true, Bool.and_false, Bool.true_and, aged, if_pos rfl,
          Bool.toNat_true]
        cases flag : (timer time).flag (resumed timer inputs time) with
        | false =>
            obtain ⟨next, interrupt⟩ := active.tick reset loads counted flag
            have late : ((timer time).tmSub == BitVec.allOnes 8 && resumed timer inputs time) =
                ((timer time).tmSub == BitVec.allOnes 8) := by
              rw [RtcTimer.flag] at flag
              revert flag
              cases (timer time).tmSub == BitVec.allOnes 8 <;> cases resumed timer inputs time <;>
                decide
            rw [interrupt, late, ← Nat.add_assoc]
            exact ⟨.inl ⟨_, next⟩, iff_of_false Bool.false_ne_true fun rings => next.less.ne rings.2⟩
        | true =>
            obtain ⟨_, unwritten⟩ := (Bool.and_eq_true _ _).mp flag
            have late := loaded.apart.since_ge ticked
            rw [Bool.not_eq_true'] at unwritten
            rw [unwritten, Bool.and_false, Bool.toNat_false, Nat.add_zero]
            rcases Decidable.em ((timer time).bcdTimer.value = 1) with one | more
            · obtain ⟨done, all, interrupt⟩ :=
                active.last reset loads counted flag (by omega) one
              rw [interrupt]
              exact ⟨.inr ⟨done, all⟩, iff_of_true rfl ⟨rfl, all⟩⟩
            · obtain ⟨next, interrupt⟩ :=
                active.second reset loads counted flag (by omega) more
              rw [interrupt]
              exact ⟨.inl ⟨_, next⟩,
                iff_of_false Bool.false_ne_true fun rings => next.less.ne rings.2⟩
  · have counted : (timer time).counts (inputs time) = false := by
      rw [counts, done.stopped, Bool.and_false]
    obtain ⟨next, interrupt⟩ := done.step reset loads
    rw [interrupt, counted, Bool.false_and, Bool.false_and]
    exact ⟨.inr ⟨next, all⟩, iff_of_false Bool.false_ne_true fun rings => absurd rings.1 Bool.false_ne_true⟩

theorem Loaded.at (loaded : Loaded timer inputs seconds) (time : Nat) :
    At timer inputs seconds time := by
  induction time with
  | zero => exact .inl ⟨0, loaded.start⟩
  | succ time ih => exact (loaded.step ih).1

theorem Loaded.done (loaded : Loaded timer inputs seconds) {time later : Nat}
    (done : Done (timer time)) (after : time ≤ later) : Done (timer later) := by
  induction later, after using Nat.le_induction with
  | base => exact done
  | succ later _ ih =>
      rw [loaded.steps]
      exact (ih.step (loaded.reset later) (loaded.loads later)).1

theorem lates_eq_zero {time : Nat} : lates timer inputs time = 0 ↔
    ∀ before < time, isLate timer inputs before = false := by
  induction time with
  | zero => exact iff_of_true rfl fun before never => nomatch never
  | succ time ih =>
      rw [lates_succ, Nat.add_eq_zero_iff, ih, Bool.toNat_eq_zero]
      constructor
      · rintro ⟨earlier, now⟩ before less
        rcases Nat.lt_succ_iff_lt_or_eq.mp less with before' | rfl
        · exact earlier before before'
        · exact now
      · intro all
        exact ⟨fun before less => all before (Nat.lt_succ_of_lt less), all time (Nat.lt_succ_self time)⟩

theorem ticks_reach {count time : Nat} (passed : count < ticks timer inputs time) :
    ∃ before < time, (timer before).counts (inputs before) = true ∧
      ticks timer inputs before = count := by
  induction time with
  | zero => cases passed
  | succ time ih =>
      rcases Nat.lt_or_ge count (ticks timer inputs time) with earlier | now
      · obtain ⟨before, less, counted⟩ := ih earlier
        exact ⟨before, Nat.lt_succ_of_lt less, counted⟩
      · rw [ticks_succ] at passed
        cases counted : (timer time).counts (inputs time) with
        | false =>
            rw [counted, Bool.toNat_false] at passed
            omega
        | true =>
            rw [counted, Bool.toNat_true] at passed
            exact ⟨time, Nat.lt_succ_self time, counted, by omega⟩

/-- With no late sub-tick the countdown ends with the last of its sub-ticks. -/
theorem Loaded.ends (loaded : Loaded timer inputs seconds)
    (timely : ∀ time, (timer time).counts (inputs time) = true →
      ticks timer inputs time + 1 = 256 * seconds → lates timer inputs (time + 1) = 0)
    {time : Nat} (passed : 256 * seconds ≤ ticks timer inputs time) :
    ∃ last < time, Done (timer (last + 1)) ∧ lates timer inputs (last + 1) = 0 ∧
      (timer last).counts (inputs last) = true ∧ ticks timer inputs last + 1 = 256 * seconds := by
  have positive : 0 < 256 * seconds := by
    have := loaded.start.less
    exact this
  obtain ⟨last, less, counted, count⟩ := ticks_reach
    (show 256 * seconds - 1 < ticks timer inputs time by omega)
  have full : ticks timer inputs last + 1 = 256 * seconds := by omega
  have none := timely last counted full
  refine ⟨last, less, ?_, none, counted, full⟩
  rcases loaded.at (last + 1) with ⟨age, active⟩ | ⟨done, _⟩
  · have left := active.less
    rw [none, ticks_succ, counted, Bool.toNat_true] at left
    omega
  · exact done

theorem Loaded.countsDown_iff (loaded : Loaded timer inputs seconds) :
    CountsDown timer inputs seconds ↔ ∀ time, (timer time).counts (inputs time) = true →
      ticks timer inputs time + 1 = 256 * seconds → ∀ before ≤ time,
        isLate timer inputs before = false := by
  have timely_iff : (∀ time, (timer time).counts (inputs time) = true →
      ticks timer inputs time + 1 = 256 * seconds → ∀ before ≤ time,
        isLate timer inputs before = false) ↔
      ∀ time, (timer time).counts (inputs time) = true →
        ticks timer inputs time + 1 = 256 * seconds → lates timer inputs (time + 1) = 0 := by
    simp only [lates_eq_zero, Nat.lt_succ_iff]
  have rings (time : Nat) := (loaded.step (loaded.at time)).2
  rw [timely_iff]
  constructor
  · intro down time counted full
    have now := (rings time).mp ((down.interrupt time).mpr ⟨counted, full⟩)
    omega
  · intro timely
    constructor
    case silent => exact loaded.silent
    case interrupt =>
      intro time
      constructor
      · intro rung
        obtain ⟨counted, total⟩ := (rings time).mp rung
        obtain ⟨last, less, done, none, _, full⟩ := loaded.ends timely
          (show 256 * seconds ≤ ticks timer inputs (time + 1) by
            rw [ticks_succ, counted, Bool.toNat_true]
            omega)
        rcases Nat.lt_succ_iff_lt_or_eq.mp less with earlier | rfl
        · rw [counts, (loaded.done done earlier).stopped, Bool.and_false] at counted
          cases counted
        · exact ⟨counted, full⟩
      · rintro ⟨counted, full⟩
        exact (rings time).mpr ⟨counted, by rw [timely time counted full]; exact full⟩
    case stopped =>
      intro time passed
      obtain ⟨last, less, done, _⟩ := loaded.ends timely passed
      have at' := loaded.done done less
      exact ⟨at'.zero, at'.stopped⟩
    case running =>
      intro time running
      rcases loaded.at time with ⟨age, active⟩ | ⟨done, _⟩
      · intro zero
        have := active.valid.eq_zero_iff.mp zero
        have := active.some
        omega
      · rw [done.stopped] at running
        cases running

end Run

/-- A load of the stopped timer. -/
theorem step_load {timer : RtcTimer} {clock : TimerClock} (reset : clock.iReset = false)
    (loads : timer.loads clock = true) (valid : clock.iData.Valid) (some : 0 < clock.iData.value) :
    (timer.step clock).oInterrupt = false ∧
      Active (timer.step clock) clock.iData.value 0 0 4 false := by
  have write : clock.iWr = true ∧ timer.tmRunning = false := by
    simp only [RtcTimer.loads, Bool.and_eq_true, Bool.not_eq_true'] at loads
    exact loads.1
  have bcdTimer : (timer.step clock).bcdTimer = clock.iData := by
    simp only [step, reset, loads, Bool.false_eq_true, if_false, if_true]
  have tmSub : (timer.step clock).tmSub = 0 := by
    simp only [step, reset, loads, Bool.or_true, if_true]
  have prePps : (timer.step clock).tmPrePps = false := by
    simp only [step, write, Bool.not_false, Bool.and_self, Bool.or_true, if_true]
  have alarm : (timer.step clock).tmAlarm = false := by
    simp only [step, reset, write, Bool.not_false, Bool.and_self, Bool.false_eq_true, if_false,
      if_true]
  refine ⟨by simp only [oInterrupt, step, reset, write, Bool.false_and, Bool.false_eq_true,
    if_false], ?_⟩
  constructor
  case valid => rw [bcdTimer]; exact valid
  case some => rw [bcdTimer]; exact some
  case settled => exact ⟨fun never => absurd never (by decide), fun never => absurd never (by decide),
      fun never => absurd never (by decide), fun never => absurd never (by decide)⟩
  case waited => exact .inl tmSub
  case total =>
    rw [bcdTimer, tmSub, Nat.zero_add]
    exact (Nat.add_zero _).symm
  case alarm => exact alarm
  case prePps => rw [prePps, flag, tmSub]; decide

/-- A valid countdown written to the stopped timer, then writes that pause and
resume it: it rings once and in time exactly if, by the last of its sub-ticks, none
came right after a write that resumed it at the end of a second. -/
theorem counts_down_iff (start : RtcTimer) (first : TimerClock) (inputs : Nat → TimerClock)
    (reset : first.iReset = false) (loads : start.loads first = true) (valid : first.iData.Valid)
    (some : 0 < first.iData.value) (apart : Apart 4 fun time => (inputs time).iSubCk) :
    let timer := streamed step (start.step first) inputs
    (∀ time, (inputs time).iReset = false ∧ (timer time).loads (inputs time) = false) →
    (CountsDown timer inputs first.iData.value ↔
      ∀ time, (timer time).counts (inputs time) = true →
        ticks timer inputs time + 1 = 256 * first.iData.value → ∀ before ≤ time,
          isLate timer inputs before = false) := by
  intro timer kept
  obtain ⟨silent, active⟩ := step_load reset loads valid some
  exact Loaded.countsDown_iff
    { steps := fun _ => rfl
      reset := fun time => (kept time).1
      loads := fun time => (kept time).2
      apart := apart
      silent := silent
      start := active }

/-- Power-up; `pre_tmr_carry` and `last_tick` have no initial values. -/
def init : RtcTimer where
  bcdTimer := .zero
  nextTimer := .zero
  tmrCarry := ⟨false, false, false, false, false⟩
  preTmrCarry := ⟨false, false, false, false, false⟩
  lastTick := false
  tmSub := 0
  tmPrePps := false
  tmInt := false
  tmRunning := false
  tmAlarm := false

/-- One second written. -/
def oneSecond : TimerClock where
  iReset := false
  iSubCk := false
  iWr := true
  iData := { TimerDigits.zero with seconds := 1 }
  iRun := true
  iValid := ⟨true, true, true⟩
  iZero := false

/-- A sub-tick every four clocks, a pause and a resuming write. -/
def paused (pause resume time : Nat) : TimerClock where
  iReset := false
  iSubCk := time % 4 == 3
  iWr := time == pause || time == resume
  iData := .zero
  iRun := time == resume
  iValid := ⟨false, false, false⟩
  iZero := true

theorem paused_apart (pause resume : Nat) :
    Apart 4 fun time => (paused pause resume time).iSubCk := by
  intro first second before pulsed again
  simp only [paused, beq_iff_eq] at pulsed again
  omega

theorem oneSecond_valid : oneSecond.iData.Valid :=
  ⟨rfl, rfl, .cons (by decide) (.cons (by decide) (.cons (by decide) (.cons (by decide)
    (.cons (by decide) (.cons (by decide) .nil)))))⟩

/-- Paused behind its second sub-tick and resumed between two others, the second ends
in time. -/
theorem one_second_paused :
    CountsDown (streamed step (init.step oneSecond) (paused 10 20)) (paused 10 20) 1 := by
  refine (counts_down_iff init oneSecond (paused 10 20) rfl rfl oneSecond_valid (by decide)
    (paused_apart 10 20) fun _ => ⟨rfl, Bool.and_false _⟩).mpr fun _ _ _ before _ => ?_
  -- the writes come at 10, when it runs, and at 20, with no sub-tick behind
  refine Bool.eq_false_iff.mpr fun late => ?_
  rw [isLate, Bool.and_eq_true, Bool.and_eq_true] at late
  obtain ⟨⟨counted, -⟩, again⟩ := late
  cases before with
  | zero => cases again
  | succ before =>
      obtain ⟨written, stopped⟩ := (Bool.and_eq_true _ _).mp again
      simp only [paused, Bool.or_eq_true, beq_iff_eq] at written
      rcases written with rfl | rfl
      · exact absurd stopped (by decide)
      · exact absurd counted (by decide)

/-- The last second of a countdown that has been left alone. -/
def lastSecond (sub : BitVec 8) : RtcTimer where
  bcdTimer := { TimerDigits.zero with seconds := 1 }
  nextTimer := .zero
  tmrCarry := ⟨false, false, false, false, false⟩
  preTmrCarry := ⟨false, true, true, true, true⟩
  lastTick := true
  tmSub := sub
  tmPrePps := sub == BitVec.allOnes 8
  tmInt := false
  tmRunning := true
  tmAlarm := false

theorem lastSecond_step {sub : BitVec 8} {clock : TimerClock} (reset : clock.iReset = false)
    (unwritten : clock.iWr = false) (more : sub ≠ BitVec.allOnes 8) :
    (lastSecond sub).step clock = lastSecond (if clock.iSubCk then sub + 1 else sub) := by
  have digits : counted ⟨false, false, false, false, false⟩ { TimerDigits.zero with seconds := 1 } =
      .zero := by decide
  have borrow : borrows ⟨false, true, true, true, true⟩ = ⟨false, false, false, false, false⟩ := by
    decide
  have zeros : zeroDigits { TimerDigits.zero with seconds := 1 } = ⟨false, true, true, true, true⟩ := by
    decide
  have last : atLast { TimerDigits.zero with seconds := 1 } = true := by decide
  cases pulse : clock.iSubCk <;>
    simp only [step, lastSecond, digits, borrow, zeros, last, loads, tmPps, reset, unwritten, pulse,
      beq_eq_false_iff_ne.mpr more, flag_counted, if_true, if_false, Bool.false_eq_true] <;>
    rfl

/-- The run before the pause. -/
theorem streamed_paused {time : Nat} (settled : 3 ≤ time) (early : time ≤ 1020) :
    streamed step (init.step oneSecond) (paused 1020 1022) time =
        lastSecond (BitVec.ofNat 8 (time / 4)) ∧
      ticks (streamed step (init.step oneSecond) (paused 1020 1022)) (paused 1020 1022) time =
        time / 4 := by
  induction settled with
  | refl => exact ⟨rfl, by decide⟩
  | @step time settled ih =>
      obtain ⟨state, passed⟩ := ih (by omega)
      have more : BitVec.ofNat 8 (time / 4) ≠ BitVec.allOnes 8 := fun full => by
        have same := congrArg BitVec.toNat full
        rw [BitVec.toNat_ofNat, Nat.mod_eq_of_lt (by omega)] at same
        change time / 4 = 255 at same
        omega
      have unwritten : (paused 1020 1022 time).iWr = false := by
        simp only [paused, Bool.or_eq_false_iff, beq_eq_false_iff_ne]
        omega
      rw [streamed, ticks_succ, state, passed, lastSecond_step rfl unwritten more, counts]
      change lastSecond (if time % 4 == 3 then _ else _) = _ ∧
        time / 4 + (time % 4 == 3 && true).toNat = _
      by_cases pulse : time % 4 = 3
      · rw [if_pos (beq_iff_eq.mpr pulse), beq_iff_eq.mpr pulse,
          show (time + 1) / 4 = time / 4 + 1 by omega, BitVec.ofNat_add]
        exact ⟨rfl, rfl⟩
      · rw [if_neg (mt beq_iff_eq.mp pulse), beq_eq_false_iff_ne.mpr pulse,
          show (time + 1) / 4 = time / 4 by omega]
        exact ⟨rfl, rfl⟩

/-- Paused and resumed within the 256th sub-tick of its second, the timer goes on. -/
theorem second_lost_by_pause :
    ¬ CountsDown (streamed step (init.step oneSecond) (paused 1020 1022)) (paused 1020 1022) 1 := by
  intro down
  obtain ⟨state, passed⟩ := streamed_paused (show 3 ≤ 1020 by decide) (Nat.le_refl _)
  have three : streamed step (init.step oneSecond) (paused 1020 1022) 1023 =
    (((lastSecond 255).step (paused 1020 1022 1020)).step (paused 1020 1022 1021)).step
      (paused 1020 1022 1022) := by
    rw [streamed, streamed, streamed, state]
    rfl
  have counted : ticks (streamed step (init.step oneSecond) (paused 1020 1022)) (paused 1020 1022)
      1023 = 255 := by
    have silent (time : Nat) (between : time % 4 ≠ 3) :
        ticks (streamed step (init.step oneSecond) (paused 1020 1022)) (paused 1020 1022)
          (time + 1) = ticks (streamed step (init.step oneSecond) (paused 1020 1022))
            (paused 1020 1022) time := by
      rw [ticks_succ, counts, paused, beq_eq_false_iff_ne.mpr between, Bool.false_and,
        Bool.toNat_false, Nat.add_zero]
    exact (silent 1022 (by decide)).trans ((silent 1021 (by decide)).trans
      ((silent 1020 (by decide)).trans passed))
  have rings := (down.interrupt 1023).mpr ⟨by rw [three]; decide, by rw [counted]⟩
  rw [streamed, three] at rings
  revert rings
  decide

end RtcTimer

end ZipVersa.Rtc
