import ZipVersa.Lib.Clocked
import Mathlib.Logic.Function.Basic
import Mathlib.Data.Nat.Init

/-! `wbscope` with `SYNCHRONOUS` set: what it records, and what the bus reads back. The
registers that control it are kept apart from those that hold samples, on which they
do not depend. -/

set_option autoImplicit false

namespace ZipVersa.Scope

open Lib

/-- The inputs at a clock, but for `i_data`. -/
structure Clock where
  iCe : Bool
  iTrigger : Bool
  iWbCyc : Bool
  iWbStb : Bool
  iWbWe : Bool
  iWbAddr : Bool
  iWbData : BitVec 32

namespace Clock

def readFromData (clock : Clock) : Bool := clock.iWbStb && !clock.iWbWe && clock.iWbAddr

def writeToControl (clock : Clock) : Bool := clock.iWbStb && clock.iWbWe && !clock.iWbAddr

end Clock

/-- The control registers; `lg` is `LGMEM` and `hb` is `HOLDOFFBITS`. -/
structure Control (lg hb : Nat) where
  brConfig : BitVec 3
  brHoldoff : BitVec hb
  drTriggered : Bool
  drPrimed : Bool
  drStopped : Bool
  counter : BitVec hb
  waddr : BitVec lg
  raddr : BitVec lg
  thisAddr : BitVec lg
  readAddress : Bool
  brPreWbAck : Bool
  brWbAck : Bool

namespace Control

variable {lg hb : Nat}

def bwResetRequest (control : Control lg hb) : Bool := !control.brConfig.getLsbD 2

def bwManualTrigger (control : Control lg hb) : Bool := control.brConfig.getLsbD 1

def bwDisableTrigger (control : Control lg hb) : Bool := control.brConfig.getLsbD 0

def dwTrigger (control : Control lg hb) (clock : Clock) : Bool :=
  control.drPrimed &&
    ((clock.iTrigger && !control.bwDisableTrigger) || control.bwManualTrigger)

/-- `bw_reset_complete` is `bw_reset_request` in a synchronous scope. -/
def nextConfig (control : Control lg hb) (clock : Clock) : BitVec 3 :=
  if clock.writeToControl then
    BitVec.ofBool (clock.iWbData.getLsbD 31) ++ BitVec.ofBool (clock.iWbData.getLsbD 27) ++
      BitVec.ofBool (clock.iWbData.getLsbD 26)
  else if control.bwResetRequest then control.brConfig ||| 4
  else control.brConfig

def nextStopped (control : Control lg hb) (clock : Clock) : Bool :=
  if !control.drTriggered || control.bwResetRequest then false
  else if 1 < hb then control.brHoldoff ≤ control.counter
  else clock.iCe && control.dwTrigger clock

def step (control : Control lg hb) (clock : Clock) : Control lg hb where
  brConfig := control.nextConfig clock
  brHoldoff := if clock.writeToControl then clock.iWbData.setWidth hb else control.brHoldoff
  drTriggered :=
    if control.bwResetRequest then false
    else control.drTriggered || (clock.iCe && control.dwTrigger clock)
  drPrimed :=
    if control.bwResetRequest then false
    else if clock.iCe && !control.drStopped then
      control.drPrimed || control.waddr == BitVec.allOnes lg
    else control.drPrimed
  drStopped := control.nextStopped clock
  counter :=
    if control.bwResetRequest then 0
    else if clock.iCe && control.drTriggered && !control.drStopped then control.counter + 1
    else control.counter
  waddr :=
    if control.bwResetRequest then 0
    else if clock.iCe && !control.drStopped then control.waddr + 1
    else control.waddr
  raddr :=
    if control.bwResetRequest || clock.writeToControl then 0
    else if clock.readFromData && control.drStopped then control.raddr + 1
    else control.raddr
  thisAddr :=
    if clock.readFromData then control.raddr + control.waddr + 1
    else control.raddr + control.waddr
  readAddress := clock.iWbAddr
  brPreWbAck := clock.iWbStb
  brWbAck := control.brPreWbAck && clock.iWbCyc

def oWbAck (control : Control lg hb) (clock : Clock) : Bool := clock.iWbCyc && control.brWbAck

/-- What a read of the control register returns. -/
def status (control : Control lg hb) : BitVec 32 :=
  BitVec.ofBool control.bwResetRequest ++ BitVec.ofBool control.drStopped ++
    BitVec.ofBool control.drTriggered ++ BitVec.ofBool control.drPrimed ++
    BitVec.ofBool control.bwManualTrigger ++ BitVec.ofBool control.bwDisableTrigger ++
    BitVec.ofBool (control.raddr == 0) ++ BitVec.ofNat 5 lg ++ control.brHoldoff.setWidth 20

end Control

/-- The registers that hold samples. -/
structure Samples (lg : Nat) where
  mem : BitVec lg → BitVec 32
  dataPipe : BitVec 32
  nxtMem : BitVec 32
  oBusData : BitVec 32

/-- `wbscope`. -/
structure Capture (lg hb : Nat) where
  control : Control lg hb
  samples : Samples lg

namespace Capture

variable {lg hb : Nat}

def nextSamples (control : Control lg hb) (samples : Samples lg) (clock : Clock)
    (iData : BitVec 32) : Samples lg where
  mem :=
    if clock.iCe && !control.drStopped then
      Function.update samples.mem control.waddr samples.dataPipe
    else samples.mem
  dataPipe := if clock.iCe then iData else samples.dataPipe
  nxtMem := samples.mem control.thisAddr
  oBusData :=
    if !control.readAddress then control.status
    else if !control.drStopped then iData
    else samples.nxtMem

def step (capture : Capture lg hb) (input : Clock × BitVec 32) : Capture lg hb :=
  ⟨capture.control.step input.1, nextSamples capture.control capture.samples input.1 input.2⟩

end Capture

namespace Control

variable {lg hb : Nat} {control : Control lg hb} {h : BitVec hb} {clocks : Nat → Clock}

/-- A scope that has just been reset, with its hold-off. -/
structure Armed (h : BitVec hb) (control : Control lg hb) : Prop where
  running : control.bwResetRequest = false
  holdoff : control.brHoldoff = h
  triggered : control.drTriggered = false
  primed : control.drPrimed = false
  stopped : control.drStopped = false
  counter : control.counter = 0
  waddr : control.waddr = 0

/-- `i_ce` is held high, and the control register is written with the same hold-off and
without a reset, if at all. -/
structure Held (h : BitVec hb) (clocks : Nat → Clock) : Prop where
  ce : ∀ time, (clocks time).iCe = true
  config : ∀ time, (clocks time).writeToControl = true →
    (clocks time).iWbData.getLsbD 31 = true ∧ (clocks time).iWbData.setWidth hb = h

/-- The registers at a clock. -/
def after (control : Control lg hb) (clocks : Nat → Clock) (time : Nat) : Control lg hb :=
  streamed step control clocks time

/-- The first trigger that is seen after priming. -/
structure Fires (control : Control lg hb) (clocks : Nat → Clock) (trigger : Nat) : Prop where
  fires : (control.after clocks trigger).dwTrigger (clocks trigger) = true
  first : ∀ time < trigger, (control.after clocks time).dwTrigger (clocks time) = false

theorem after_succ (control : Control lg hb) (clocks : Nat → Clock) (time : Nat) :
    control.after clocks (time + 1) = (control.after clocks time).step (clocks time) := rfl

theorem reset_armed (control : Control lg hb) (clock : Clock)
    (asked : control.bwResetRequest = true) (quiet : clock.writeToControl = false) :
    (control.step clock).Armed control.brHoldoff where
  running := by
    rw [bwResetRequest, step, nextConfig, quiet, asked, if_neg Bool.false_ne_true, if_pos rfl,
      BitVec.getLsbD_or]
    simp
  holdoff := by rw [step, quiet]; rfl
  triggered := by rw [step, asked]; rfl
  primed := by rw [step, asked]; rfl
  stopped := by rw [step, nextStopped, asked, Bool.or_true]; rfl
  counter := by rw [step, asked]; rfl
  waddr := by rw [step, asked]; rfl

theorem config_bit (manual disable : Bool) :
    (BitVec.ofBool true ++ BitVec.ofBool manual ++ BitVec.ofBool disable).getLsbD 2 = true := by
  revert manual disable
  decide

theorem nextConfig_running (running : control.bwResetRequest = false) {clock : Clock}
    (kept : clock.writeToControl = true → clock.iWbData.getLsbD 31 = true) :
    (control.step clock).bwResetRequest = false := by
  change (!(control.nextConfig clock).getLsbD 2) = false
  rw [nextConfig]
  split
  · next write => rw [kept write, config_bit, Bool.not_true]
  · rw [running, if_neg Bool.false_ne_true]
    exact running

theorem config_held (armed : control.Armed h) (held : Held h clocks) (time : Nat) :
    (control.after clocks time).bwResetRequest = false ∧
      (control.after clocks time).brHoldoff = h := by
  induction time with
  | zero => exact ⟨armed.running, armed.holdoff⟩
  | succ time ih =>
      obtain ⟨running, holdoff⟩ := ih
      refine ⟨nextConfig_running running fun write => (held.config time write).1, ?_⟩
      rw [after_succ, step]
      dsimp only
      split
      · next write => exact (held.config time write).2
      · exact holdoff

/-! ### Before the trigger -/

/-- Up to the trigger every clock has written a sample. -/
structure Filling (time : Nat) (control : Control lg hb) : Prop where
  triggered : control.drTriggered = false
  stopped : control.drStopped = false
  counter : control.counter = 0
  waddr : control.waddr = BitVec.ofNat lg time
  primed : control.drPrimed = decide (2 ^ lg ≤ time)

theorem allOnes_eq_ofNat {time : Nat} (inside : time < 2 ^ lg) :
    (BitVec.ofNat lg time == BitVec.allOnes lg) = decide (2 ^ lg ≤ time + 1) := by
  rw [Bool.eq_iff_iff, beq_iff_eq, decide_eq_true_iff, ← BitVec.toNat_inj, BitVec.toNat_ofNat,
    BitVec.toNat_allOnes, Nat.mod_eq_of_lt inside]
  omega

theorem Filling.step {time : Nat} (filling : control.Filling time)
    (running : control.bwResetRequest = false) {clock : Clock} (ce : clock.iCe = true)
    (quiet : control.dwTrigger clock = false) : (control.step clock).Filling (time + 1) where
  triggered := by
    simp [Control.step, running, filling.triggered, quiet]
  stopped := by simp [Control.step, nextStopped, filling.triggered]
  counter := by simp [Control.step, running, filling.triggered, filling.counter]
  waddr := by
    simp [Control.step, running, ce, filling.stopped, filling.waddr, BitVec.ofNat_add]
  primed := by
    simp only [Control.step, running, ce, filling.stopped, filling.primed, filling.waddr]
    by_cases before : 2 ^ lg ≤ time
    · simp [before, Nat.le_succ_of_le before]
    · simp [before, allOnes_eq_ofNat (Nat.lt_of_not_le before)]

theorem filling_at {trigger : Nat} (armed : control.Armed h) (held : Held h clocks)
    (fires : control.Fires clocks trigger) {time : Nat} (early : time ≤ trigger) :
    (control.after clocks time).Filling time := by
  induction time with
  | zero =>
      have empty : ¬ 2 ^ lg ≤ 0 := Nat.not_le.mpr (Nat.two_pow_pos lg)
      exact ⟨armed.triggered, armed.stopped, armed.counter, armed.waddr,
        armed.primed.trans (decide_eq_false empty).symm⟩
  | succ time ih =>
      exact (ih (by omega)).step (config_held armed held time).1 (held.ce time)
        (fires.first time early)

/-- The memory has been filled when the trigger is seen. -/
theorem primed_before {trigger : Nat} (armed : control.Armed h) (held : Held h clocks)
    (fires : control.Fires clocks trigger) : 2 ^ lg ≤ trigger := by
  have seen := fires.fires
  rw [dwTrigger, (filling_at armed held fires (Nat.le_refl trigger)).primed] at seen
  simp only [Bool.and_eq_true, decide_eq_true_eq] at seen
  exact seen.1

/-! ### From the trigger on -/

/-- `count` clocks after the trigger, with the hold-off still to run. -/
structure Holding (trigger count : Nat) (control : Control lg hb) : Prop where
  triggered : control.drTriggered = true
  stopped : control.drStopped = false
  counter : control.counter = BitVec.ofNat hb count
  waddr : control.waddr = BitVec.ofNat lg (trigger + 1 + count)

/-- The clock after the last sample has been written. -/
structure Ended (trigger count : Nat) (control : Control lg hb) : Prop where
  triggered : control.drTriggered = true
  stopped : control.drStopped = true
  counter : control.counter = BitVec.ofNat hb count
  waddr : control.waddr = BitVec.ofNat lg (trigger + 1 + count)

theorem Filling.fires {trigger : Nat} (filling : control.Filling trigger)
    (running : control.bwResetRequest = false) {clock : Clock} (ce : clock.iCe = true)
    (seen : control.dwTrigger clock = true) : (control.step clock).Holding trigger 0 where
  triggered := by simp [Control.step, running, ce, seen]
  stopped := by simp [Control.step, nextStopped, filling.triggered]
  counter := by simp [Control.step, running, filling.triggered, filling.counter]
  waddr := by simp [Control.step, running, ce, filling.stopped, filling.waddr, BitVec.ofNat_add]

theorem nextStopped_eq (wide : 1 < hb) (triggered : control.drTriggered = true)
    (running : control.bwResetRequest = false) (clock : Clock) :
    control.nextStopped clock = decide (control.brHoldoff ≤ control.counter) := by
  rw [nextStopped, triggered, running, if_neg (by decide), if_pos wide]

theorem Holding.counts {trigger count : Nat} (holding : control.Holding trigger count)
    (running : control.bwResetRequest = false) {clock : Clock} (ce : clock.iCe = true) :
    (control.step clock).drTriggered = true ∧
      (control.step clock).counter = BitVec.ofNat hb (count + 1) ∧
      (control.step clock).waddr = BitVec.ofNat lg (trigger + 1 + (count + 1)) := by
  refine ⟨?_, ?_, ?_⟩
  · simp [Control.step, running, holding.triggered]
  · simp [Control.step, running, ce, holding.triggered, holding.stopped, holding.counter,
      BitVec.ofNat_add]
  · simp [Control.step, running, ce, holding.stopped, holding.waddr, BitVec.ofNat_add,
      BitVec.add_assoc]

theorem holdoff_le {count : Nat} (inside : count ≤ h.toNat) :
    h ≤ BitVec.ofNat hb count ↔ h.toNat ≤ count := by
  rw [BitVec.le_def, BitVec.toNat_ofNat, Nat.mod_eq_of_lt (by have := h.isLt; omega)]

theorem Holding.step {trigger count : Nat} (wide : 1 < hb) (holding : control.Holding trigger count)
    (running : control.bwResetRequest = false) (holdoff : control.brHoldoff = h) {clock : Clock}
    (ce : clock.iCe = true) (more : count < h.toNat) :
    (control.step clock).Holding trigger (count + 1) := by
  obtain ⟨triggered, counter, waddr⟩ := holding.counts running ce
  refine ⟨triggered, ?_, counter, waddr⟩
  have early : ¬ h ≤ BitVec.ofNat hb count := by rw [holdoff_le (by omega)]; omega
  exact (nextStopped_eq wide holding.triggered running clock).trans
    (by rw [holdoff, holding.counter, decide_eq_false early])

theorem Holding.ends {trigger : Nat} (wide : 1 < hb) (holding : control.Holding trigger h.toNat)
    (running : control.bwResetRequest = false) (holdoff : control.brHoldoff = h) {clock : Clock}
    (ce : clock.iCe = true) : (control.step clock).Ended trigger (h.toNat + 1) := by
  obtain ⟨triggered, counter, waddr⟩ := holding.counts running ce
  refine ⟨triggered, ?_, counter, waddr⟩
  have now : h ≤ BitVec.ofNat hb h.toNat := (holdoff_le (Nat.le_refl _)).mpr (Nat.le_refl _)
  exact (nextStopped_eq wide holding.triggered running clock).trans
    (by rw [holdoff, holding.counter, decide_eq_true now])

/-- The scope stays stopped, unless the counter has wrapped around. -/
theorem Ended.step {trigger : Nat} (wide : 1 < hb) (ended : control.Ended trigger (h.toNat + 1))
    (running : control.bwResetRequest = false) (holdoff : control.brHoldoff = h)
    (fits : h.toNat + 1 < 2 ^ hb) (clock : Clock) :
    (control.step clock).Ended trigger (h.toNat + 1) where
  triggered := by simp [Control.step, running, ended.triggered]
  stopped := by
    have past : h ≤ BitVec.ofNat hb (h.toNat + 1) := by
      rw [BitVec.le_def, BitVec.toNat_ofNat, Nat.mod_eq_of_lt fits]
      exact Nat.le_succ _
    exact (nextStopped_eq wide ended.triggered running clock).trans
      (by rw [holdoff, ended.counter, decide_eq_true past])
  counter := by simp [Control.step, running, ended.stopped, ended.counter]
  waddr := by simp [Control.step, running, ended.stopped, ended.waddr]

/-- With the largest hold-off of all: stopped only while the counter is zero. -/
structure Wraps (control : Control lg hb) : Prop where
  triggered : control.drTriggered = true
  zero : control.drStopped = true → control.counter = 0

theorem Wraps.stops (wide : 1 < hb) (wraps : control.Wraps)
    (running : control.bwResetRequest = false) (holdoff : control.brHoldoff = h)
    (largest : h.toNat + 1 = 2 ^ hb) {clock : Clock}
    (stopped : (control.step clock).drStopped = true) :
    control.drStopped = false ∧ control.counter = h := by
  have passed : h ≤ control.counter := by
    rw [← holdoff]
    exact of_decide_eq_true ((nextStopped_eq wide wraps.triggered running clock).symm.trans stopped)
  have top : control.counter = h := by
    apply BitVec.eq_of_toNat_eq
    have bound := control.counter.isLt
    rw [BitVec.le_def] at passed
    omega
  refine ⟨?_, top⟩
  rw [← Bool.not_eq_true]
  intro before
  have two : 2 ^ 2 ≤ 2 ^ hb := Nat.pow_le_pow_right (by decide) wide
  rw [← top, wraps.zero before] at largest
  change 0 + 1 = 2 ^ hb at largest
  omega

theorem Wraps.step (wide : 1 < hb) (wraps : control.Wraps)
    (running : control.bwResetRequest = false) (holdoff : control.brHoldoff = h)
    (largest : h.toNat + 1 = 2 ^ hb) {clock : Clock} (ce : clock.iCe = true) :
    (control.step clock).Wraps where
  triggered := by simp [Control.step, running, wraps.triggered]
  zero stopped := by
    obtain ⟨before, top⟩ := wraps.stops wide running holdoff largest stopped
    have zero : h + BitVec.ofNat hb 1 = BitVec.ofNat hb 0 := by
      apply BitVec.eq_of_toNat_eq
      rw [BitVec.toNat_add, BitVec.toNat_ofNat, Nat.add_mod_mod, largest, Nat.mod_self]
      exact (Nat.zero_mod _).symm
    simp [Control.step, running, ce, wraps.triggered, before, top, zero]

section Trigger

variable {trigger : Nat} (wide : 1 < hb) (armed : control.Armed h) (held : Held h clocks)
  (fires : control.Fires clocks trigger)

include wide armed held fires

theorem holding_at {count : Nat} (inside : count ≤ h.toNat) :
    (control.after clocks (trigger + 1 + count)).Holding trigger count := by
  induction count with
  | zero =>
      exact (filling_at armed held fires (Nat.le_refl trigger)).fires
        (config_held armed held trigger).1 (held.ce trigger) fires.fires
  | succ count ih =>
      obtain ⟨running, holdoff⟩ := config_held armed held (trigger + 1 + count)
      exact (ih (by omega)).step wide running holdoff (held.ce _) inside

theorem ends_at : (control.after clocks (trigger + h.toNat + 2)).Ended trigger (h.toNat + 1) := by
  have place : trigger + h.toNat + 2 = trigger + 1 + h.toNat + 1 := by omega
  obtain ⟨running, holdoff⟩ := config_held armed held (trigger + 1 + h.toNat)
  rw [place, after_succ]
  exact (holding_at wide armed held fires (Nat.le_refl _)).ends wide running holdoff (held.ce _)

theorem ended_at (fits : h.toNat + 1 < 2 ^ hb) {time : Nat} (late : trigger + h.toNat + 2 ≤ time) :
    (control.after clocks time).Ended trigger (h.toNat + 1) := by
  induction time, late using Nat.le_induction with
  | base => exact ends_at wide armed held fires
  | succ time late ih =>
      obtain ⟨running, holdoff⟩ := config_held armed held time
      exact ih.step wide running holdoff fits (clocks time)

/-- Until the hold-off has run, a sample is written at every clock. -/
theorem writing_at {time : Nat} (early : time < trigger + h.toNat + 2) :
    (control.after clocks time).drStopped = false ∧
      (control.after clocks time).waddr = BitVec.ofNat lg time := by
  rcases Nat.lt_or_ge trigger time with past | before
  · obtain ⟨count, rfl⟩ := Nat.exists_eq_add_of_le (Nat.succ_le_of_lt past)
    have holding := holding_at wide armed held fires (show count ≤ h.toNat by omega)
    exact ⟨holding.stopped, holding.waddr⟩
  · have filling := filling_at armed held fires before
    exact ⟨filling.stopped, filling.waddr⟩

theorem stopped_late {time : Nat} (stopped : (control.after clocks time).drStopped = true) :
    trigger + h.toNat + 2 ≤ time := by
  by_contra early
  have writing := (writing_at wide armed held fires (Nat.lt_of_not_le early)).1
  rw [writing] at stopped
  cases stopped

/-- With the largest hold-off of all the counter wraps around, and the scope is never
stopped for two clocks on end. -/
theorem never_stays (wraps : h.toNat + 1 = 2 ^ hb) {time : Nat}
    (stopped : (control.after clocks time).drStopped = true) :
    (control.after clocks (time + 1)).drStopped = false := by
  have late := stopped_late wide armed held fires stopped
  have all : ∀ time, trigger + h.toNat + 2 ≤ time → (control.after clocks time).Wraps := by
    intro time late
    induction time, late using Nat.le_induction with
    | base =>
        have ended := ends_at wide armed held fires
        refine ⟨ended.triggered, fun _ => ?_⟩
        rw [ended.counter, wraps]
        apply BitVec.eq_of_toNat_eq
        rw [BitVec.toNat_ofNat, Nat.mod_self]
        rfl
    | succ time _ ih =>
        obtain ⟨running, holdoff⟩ := config_held armed held time
        exact ih.step wide running holdoff wraps (held.ce time)
  rw [← Bool.not_eq_true]
  intro again
  obtain ⟨running, holdoff⟩ := config_held armed held time
  have before := ((all time late).stops wide running holdoff wraps again).1
  rw [before] at stopped
  cases stopped

end Trigger

/-! ### Reading out -/

/-- The data port is read at the clocks `r 0`, `r 1` and so on, with nothing in between
that moves the read pointer, and the bus waits for each answer. -/
structure Reads (clocks : Nat → Clock) (r : Nat → Nat) (count : Nat) : Prop where
  reads : ∀ i < count, (clocks (r i)).readFromData = true
  cyc : ∀ i < count, (clocks (r i + 1)).iWbCyc = true ∧ (clocks (r i + 2)).iWbCyc = true
  next : ∀ i, i + 1 < count → r i < r (i + 1)
  quiet : ∀ i, i + 1 < count → ∀ time, r i < time → time < r (i + 1) →
    (clocks time).readFromData = false ∧ (clocks time).writeToControl = false

theorem read_is_no_write {clock : Clock} (read : clock.readFromData = true) :
    clock.writeToControl = false := by
  simp only [Clock.readFromData, Clock.writeToControl, Bool.and_eq_true, Bool.not_eq_true'] at *
  rw [read.1.2, Bool.and_false, Bool.false_and]

/-- The pointer and the address register once `count` words have been read. -/
structure Points (count : Nat) (control : Control lg hb) : Prop where
  raddr : control.raddr = BitVec.ofNat lg count
  thisAddr : control.thisAddr = control.raddr + control.waddr

theorem points_read {count : Nat} (raddr : control.raddr = BitVec.ofNat lg count)
    (stopped : control.drStopped = true) (running : control.bwResetRequest = false) {clock : Clock}
    (read : clock.readFromData = true) : (control.step clock).Points (count + 1) where
  raddr := by
    simp [step, running, stopped, read, read_is_no_write read, raddr, BitVec.ofNat_add]
  thisAddr := by
    simp only [step, running, stopped, read, read_is_no_write read, Bool.or_false, Bool.not_true,
      Bool.and_true, Bool.and_false, if_true, Bool.false_eq_true, if_false]
    rw [BitVec.add_assoc, BitVec.add_comm control.waddr, ← BitVec.add_assoc]

theorem points_quiet {count : Nat} (raddr : control.raddr = BitVec.ofNat lg count)
    (stopped : control.drStopped = true) (running : control.bwResetRequest = false) {clock : Clock}
    (quiet : clock.readFromData = false ∧ clock.writeToControl = false) :
    (control.step clock).Points count where
  raddr := by simp [step, running, quiet.1, quiet.2, raddr]
  thisAddr := by simp [step, running, stopped, quiet.1, quiet.2]

theorem acked_at {time : Nat} (read : (clocks time).readFromData = true)
    (cyc : (clocks (time + 1)).iWbCyc = true ∧ (clocks (time + 2)).iWbCyc = true) :
    (control.after clocks (time + 2)).oWbAck (clocks (time + 2)) = true := by
  have stb : (clocks time).iWbStb = true := by
    simp only [Clock.readFromData, Bool.and_eq_true] at read
    exact read.1.1
  rw [oWbAck, cyc.2, after_succ, after_succ, step, step]
  dsimp only
  rw [stb, cyc.1]
  rfl

section Stopped

variable {trigger : Nat} (wide : 1 < hb) (armed : control.Armed h) (held : Held h clocks)
  (fires : control.Fires clocks trigger) (fits : h.toNat + 1 < 2 ^ hb)

include wide armed held fires fits

/-- After a read the address register is right for the next one, whenever it comes. -/
theorem points_at {r : Nat → Nat} {count i : Nat} (reads : Reads clocks r count)
    (late : trigger + h.toNat + 2 ≤ r i) (more : i + 1 < count)
    (raddr : (control.after clocks (r i)).raddr = BitVec.ofNat lg i) :
    (control.after clocks (r (i + 1))).Points (i + 1) := by
  have between : ∀ time, r i + 1 ≤ time → time ≤ r (i + 1) →
      (control.after clocks time).Points (i + 1) := by
    intro time past before
    induction time, past using Nat.le_induction with
    | base =>
        exact points_read raddr (ended_at wide armed held fires fits late).stopped
          (config_held armed held _).1 (reads.reads i (by omega))
    | succ time past ih =>
        exact points_quiet (ih (by omega)).raddr
          (ended_at wide armed held fires fits (by omega)).stopped (config_held armed held _).1
          (reads.quiet i more time past (by omega))
  exact between _ (reads.next i more) (Nat.le_refl _)

theorem read_at {r : Nat → Nat} {count : Nat} (reads : Reads clocks r count)
    (late : trigger + h.toNat + 2 ≤ r 0) (fresh : (control.after clocks (r 0)).raddr = 0) {i : Nat}
    (inside : i < count) : trigger + h.toNat + 2 ≤ r i ∧
      (control.after clocks (r i)).raddr = BitVec.ofNat lg i := by
  induction i with
  | zero => exact ⟨late, fresh⟩
  | succ i ih =>
      obtain ⟨before, raddr⟩ := ih (by omega)
      have := reads.next i inside
      exact ⟨by omega, (points_at wide armed held fires fits reads before inside raddr).raddr⟩

end Stopped

end Control

namespace Capture

variable {lg hb : Nat} {capture : Capture lg hb} {h : BitVec hb} {clocks : Nat → Clock}
  {data : Nat → BitVec 32}

/-- The scope at a clock. -/
def after (capture : Capture lg hb) (clocks : Nat → Clock) (data : Nat → BitVec 32) (time : Nat) :
    Capture lg hb :=
  streamed step capture (fun time => (clocks time, data time)) time

theorem after_succ (capture : Capture lg hb) (clocks : Nat → Clock) (data : Nat → BitVec 32)
    (time : Nat) : capture.after clocks data (time + 1) =
      (capture.after clocks data time).step (clocks time, data time) := rfl

theorem after_control (capture : Capture lg hb) (clocks : Nat → Clock) (data : Nat → BitVec 32)
    (time : Nat) :
    (capture.after clocks data time).control = capture.control.after clocks time := by
  induction time with
  | zero => rfl
  | succ time ih => rw [after_succ, Control.after_succ, ← ih]; rfl

theorem dataPipe_at (held : Control.Held h clocks) (time : Nat) :
    (capture.after clocks data (time + 1)).samples.dataPipe = data time := by
  rw [after_succ, step, nextSamples]
  dsimp only
  rw [held.ce time, if_pos rfl]

/-- A read of the data port: the word under the address register, if the scope is
still stopped a clock later. -/
theorem answer_at {time : Nat} (read : (clocks time).readFromData = true) :
    (capture.after clocks data (time + 2)).samples.oBusData =
      if (capture.control.after clocks (time + 1)).drStopped then
        (capture.after clocks data time).samples.mem (capture.control.after clocks time).thisAddr
      else data (time + 1) := by
  have port : (clocks time).iWbAddr = true := by
    simp only [Clock.readFromData, Bool.and_eq_true] at read
    exact read.2
  have addressed : (capture.control.after clocks (time + 1)).readAddress = true := port
  have fetched : (capture.after clocks data (time + 1)).samples.nxtMem =
      (capture.after clocks data time).samples.mem
        (capture.control.after clocks time).thisAddr := by
    rw [← after_control capture clocks data]
    rfl
  rw [after_succ, step, nextSamples]
  dsimp only
  rw [after_control, addressed, fetched]
  cases (capture.control.after clocks (time + 1)).drStopped <;> rfl

section Trigger

variable {trigger : Nat} (wide : 1 < hb) (armed : capture.control.Armed h)
  (held : Control.Held h clocks) (fires : capture.control.Fires clocks trigger)

include wide armed held fires

theorem mem_step {time : Nat} (early : time < trigger + h.toNat + 2) :
    (capture.after clocks data (time + 1)).samples.mem =
      Function.update (capture.after clocks data time).samples.mem (BitVec.ofNat lg time)
        (capture.after clocks data time).samples.dataPipe := by
  obtain ⟨stopped, waddr⟩ := Control.writing_at wide armed held fires early
  rw [after_succ, step, nextSamples]
  dsimp only
  rw [after_control, stopped, waddr, held.ce time]
  rfl

/-- The samples of the last `2 ^ lg` clocks are in their places. -/
theorem mem_at {time k : Nat} (early : time ≤ trigger + h.toNat + 2) (written : k + 1 < time)
    (recent : time ≤ k + 1 + 2 ^ lg) :
    (capture.after clocks data time).samples.mem (BitVec.ofNat lg (k + 1)) = data k := by
  induction time with
  | zero => cases written
  | succ time ih =>
      rw [mem_step wide armed held fires (by omega)]
      rcases Nat.lt_or_eq_of_le (Nat.le_of_lt_succ written) with older | rfl
      · have other : BitVec.ofNat lg (k + 1) ≠ BitVec.ofNat lg time := by
          intro same
          have values := congrArg BitVec.toNat same
          rw [BitVec.toNat_ofNat, BitVec.toNat_ofNat] at values
          have apart := Nat.sub_mod_eq_zero_of_mod_eq values.symm
          rw [Nat.mod_eq_of_lt (by omega)] at apart
          omega
        rw [Function.update_of_ne other]
        exact ih (by omega) older (by omega)
      · rw [Function.update_self, dataPipe_at held]

theorem mem_kept (fits : h.toNat + 1 < 2 ^ hb) {time : Nat}
    (late : trigger + h.toNat + 2 ≤ time) :
    (capture.after clocks data time).samples.mem =
      (capture.after clocks data (trigger + h.toNat + 2)).samples.mem := by
  induction time, late using Nat.le_induction with
  | base => rfl
  | succ time late ih =>
      have stopped := (Control.ended_at wide armed held fires fits late).stopped
      rw [← ih, after_succ, step, nextSamples]
      dsimp only
      rw [after_control, stopped, Bool.not_true, Bool.and_false, if_neg Bool.false_ne_true]

/-- The window, from the oldest sample on. -/
theorem window_at (fits : h.toNat + 1 < 2 ^ hb) {time oldest i : Nat}
    (late : trigger + h.toNat + 2 ≤ time) (place : oldest + 2 ^ lg = trigger + h.toNat + 1)
    (inside : i < 2 ^ lg) :
    (capture.after clocks data time).samples.mem
      (BitVec.ofNat lg i + (capture.control.after clocks time).waddr) = data (oldest + i) := by
  have waddr := (Control.ended_at wide armed held fires fits late).waddr
  have spot : BitVec.ofNat lg i + (capture.control.after clocks time).waddr =
      BitVec.ofNat lg (oldest + i + 1) := by
    rw [waddr, ← BitVec.ofNat_add]
    apply BitVec.eq_of_toNat_eq
    have whole : i + (trigger + 1 + (h.toNat + 1)) = oldest + i + 1 + 2 ^ lg := by omega
    rw [BitVec.toNat_ofNat, BitVec.toNat_ofNat, whole, Nat.add_mod_right]
  rw [mem_kept wide armed held fires fits late, spot]
  exact mem_at wide armed held fires (Nat.le_refl _) (by omega) (by omega)

end Trigger

/-- The reads are answered with samples in a row, oldest first, that have the one of the
trigger in its place. -/
def Returns (capture : Capture lg hb) (h : BitVec hb) (clocks : Nat → Clock)
    (data : Nat → BitVec 32) (trigger : Nat) (r : Nat → Nat) : Prop :=
  ∃ oldest, oldest + (2 ^ lg - 1 - h.toNat) = trigger ∧ ∀ i < 2 ^ lg,
    (capture.after clocks data (r i + 2)).control.oWbAck (clocks (r i + 2)) = true ∧
      (capture.after clocks data (r i + 2)).samples.oBusData = data (oldest + i)

/-- A sequence of samples with one that differs. -/
def spike (time other : Nat) : BitVec 32 := if other = time then 1 else 0

theorem spike_eq {time other : Nat} (same : spike time time = spike time other) : other = time := by
  rw [spike, spike, if_pos rfl] at same
  by_contra differs
  rw [if_neg differs] at same
  cases same

section Window

variable {control : Control lg hb} {trigger : Nat} {r : Nat → Nat}
  (wide : 1 < hb) (armed : control.Armed h) (held : Control.Held h clocks)
  (fires : control.Fires clocks trigger) (inside : h.toNat < 2 ^ lg)
  (reads : Control.Reads clocks r (2 ^ lg))
  (stopped : (control.after clocks (r 0)).drStopped = true)
  (fresh : (control.after clocks (r 0)).raddr = 0)

include wide armed held fires inside reads stopped fresh

theorem returns_of_settled (fits : h.toNat + 1 < 2 ^ hb)
    (settled : (control.after clocks (r 0)).thisAddr = (control.after clocks (r 0)).waddr)
    (samples : Samples lg) (data : Nat → BitVec 32) :
    Returns ⟨control, samples⟩ h clocks data trigger r := by
  have filled := Control.primed_before armed held fires
  have late := Control.stopped_late wide armed held fires stopped
  refine ⟨trigger + h.toNat + 1 - 2 ^ lg, by omega, fun i small => ⟨?_, ?_⟩⟩
  · rw [after_control]
    exact Control.acked_at (reads.reads i small) (reads.cyc i small)
  · obtain ⟨past, raddr⟩ := Control.read_at wide armed held fires fits reads late fresh small
    have place : (control.after clocks (r i)).thisAddr =
        BitVec.ofNat lg i + (control.after clocks (r i)).waddr := by
      cases i with
      | zero => exact settled.trans (BitVec.zero_add _).symm
      | succ i =>
          obtain ⟨before, raddr⟩ :=
            Control.read_at wide armed held fires fits reads late fresh (show i < 2 ^ lg by omega)
          have points :=
            Control.points_at wide armed held fires fits reads before small raddr
          rw [points.thisAddr, points.raddr]
    have next := (Control.ended_at wide armed held fires fits (show _ ≤ r i + 1 by omega)).stopped
    rw [answer_at (reads.reads i small)]
    dsimp only
    rw [next, if_pos rfl, place]
    exact window_at wide armed held fires fits past (by omega) small

omit fresh in
theorem settled_of_returns
    (returns : ∀ samples data, Returns ⟨control, samples⟩ h clocks data trigger r) :
    h.toNat + 1 < 2 ^ hb ∧
      (control.after clocks (r 0)).thisAddr = (control.after clocks (r 0)).waddr := by
  have late := Control.stopped_late wide armed held fires stopped
  have some : 0 < 2 ^ lg := Nat.two_pow_pos lg
  have fits : h.toNat + 1 < 2 ^ hb := by
    by_contra wraps
    have largest : h.toNat + 1 = 2 ^ hb := by
      have := h.isLt
      omega
    obtain ⟨oldest, place, answers⟩ := returns ⟨fun _ => 0, 0, 0, 0⟩ (spike (r 0 + 1))
    have answer := (answers 0 some).2
    rw [answer_at (reads.reads 0 some), Control.never_stays wide armed held fires largest stopped,
      if_neg Bool.false_ne_true] at answer
    have := spike_eq answer
    omega
  refine ⟨fits, ?_⟩
  have filled := Control.primed_before armed held fires
  obtain ⟨oldest, place⟩ : ∃ oldest, oldest + 2 ^ lg = trigger + h.toNat + 1 :=
    ⟨_, Nat.sub_add_cancel (by omega)⟩
  obtain ⟨gap, small, address⟩ : ∃ gap < 2 ^ lg, (control.after clocks (r 0)).thisAddr =
      BitVec.ofNat lg gap + (control.after clocks (r 0)).waddr := by
    refine ⟨_, BitVec.isLt ((control.after clocks (r 0)).thisAddr -
      (control.after clocks (r 0)).waddr), ?_⟩
    rw [BitVec.ofNat_toNat, BitVec.setWidth_eq, BitVec.sub_add_cancel]
  obtain ⟨first, trigger_place, answers⟩ :=
    returns ⟨fun _ => 0, 0, 0, 0⟩ (spike (oldest + gap))
  have answer := (answers 0 some).2
  have next := (Control.ended_at wide armed held fires fits (show _ ≤ r 0 + 1 by omega)).stopped
  have word : (after ⟨control, ⟨fun _ => 0, 0, 0, 0⟩⟩ clocks (spike (oldest + gap))
      (r 0)).samples.mem (control.after clocks (r 0)).thisAddr =
        spike (oldest + gap) (oldest + gap) := by
    rw [address]
    exact window_at wide armed held fires fits late place small
  rw [answer_at (reads.reads 0 some)] at answer
  dsimp only at answer
  rw [next, if_pos rfl, word] at answer
  have same := spike_eq answer
  have zero : gap = 0 := by omega
  rw [address, zero]
  exact BitVec.zero_add _

/-- Whatever is sampled, the reads return the window around the trigger, just when the
hold-off counter does not wrap around, and the address register has caught up with the
pointers at the first read. It lags behind `waddr` at the clock `dr_stopped` rises, and
behind `raddr` at the clock after a write to the control register. -/
theorem window_returned_iff :
    (∀ samples data, Returns ⟨control, samples⟩ h clocks data trigger r) ↔
      h.toNat + 1 < 2 ^ hb ∧
        (control.after clocks (r 0)).thisAddr = (control.after clocks (r 0)).waddr :=
  ⟨settled_of_returns wide armed held fires inside reads stopped,
    fun ⟨fits, settled⟩ =>
      returns_of_settled wide armed held fires inside reads stopped fresh fits settled⟩

end Window

/-- A trigger four clocks after the reset of a scope of four words, and reads of the data
port from `first` on. -/
def readFrom (first time : Nat) : Clock :=
  ⟨true, time = 4, true, first ≤ time, false, true, 0⟩

def justReset : Control 2 20 :=
  ⟨4, 0, false, false, false, 0, 0, 0, 0, false, false, false⟩

theorem justReset_armed : justReset.Armed 0 := ⟨by decide, rfl, rfl, rfl, rfl, rfl, rfl⟩

theorem readFrom_held (first : Nat) : Control.Held (0 : BitVec 20) (readFrom first) :=
  ⟨fun _ => rfl, fun time write => by
    rw [Clock.writeToControl, readFrom, Bool.and_false, Bool.false_and] at write
    cases write⟩

theorem readFrom_reads (first : Nat) : Control.Reads (readFrom first) (first + ·) 4 where
  reads i _ := by
    rw [Clock.readFromData, readFrom, decide_eq_true (show first ≤ first + i by omega)]
    rfl
  cyc _ _ := ⟨rfl, rfl⟩
  next i _ := Nat.lt_succ_self (first + i)
  quiet i _ time past before := by omega

/-- A clock after the scope has stopped, the reads return the window. -/
theorem later_read_returns :
    Returns ⟨justReset, fun _ => 0, 0, 0, 0⟩ 0 (readFrom 7) (BitVec.ofNat 32) 4 (7 + ·) :=
  (window_returned_iff (by decide) justReset_armed (readFrom_held 7)
    ⟨by decide +kernel, by decide +kernel⟩ (by decide) (readFrom_reads 7) (by decide +kernel)
    (by decide +kernel)).mpr ⟨by decide, by decide +kernel⟩ _ _

/-- Read at the very clock the scope has stopped, the newest sample comes first. -/
theorem first_read_newest :
    justReset.Armed 0 ∧ Control.Held (0 : BitVec 20) (readFrom 6) ∧
      justReset.Fires (readFrom 6) 4 ∧ Control.Reads (readFrom 6) (6 + ·) 4 ∧
      (justReset.after (readFrom 6) 6).drStopped = true ∧
      (justReset.after (readFrom 6) 6).raddr = 0 ∧
      ¬ Returns ⟨justReset, fun _ => 0, 0, 0, 0⟩ 0 (readFrom 6) (BitVec.ofNat 32) 4 (6 + ·) := by
  refine ⟨justReset_armed, readFrom_held 6, ⟨by decide +kernel, by decide +kernel⟩,
    readFrom_reads 6, by decide +kernel, by decide +kernel, ?_⟩
  rintro ⟨oldest, place, answers⟩
  obtain rfl : oldest = 1 := by
    change oldest + 3 = 4 at place
    omega
  have answer := (answers 0 (by decide)).2
  have newest : (after ⟨justReset, fun _ => 0, 0, 0, 0⟩ (readFrom 6) (BitVec.ofNat 32)
      8).samples.oBusData = 4 := by decide +kernel
  exact absurd (newest.symm.trans answer) (by decide)

end Capture

end ZipVersa.Scope
