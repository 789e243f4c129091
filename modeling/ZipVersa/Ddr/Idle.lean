import Mathlib.Logic.Function.Iterate
import ZipVersa.Ddr.Run

/-! The controller without requests. Its scripts go on by themselves, and their
timers are passed in one step each. -/

set_option autoImplicit false

namespace ZipVersa.Ddr

open Lib

/-- A clock with nothing on the bus. -/
def idle : DdrClock where
  reset := false
  cyc := false
  stb := false
  we := false
  addr := 0

/-- A read at a bank and row. -/
def read (bank : Bank) (row : Row) : DdrClock where
  reset := false
  cyc := true
  stb := true
  we := false
  addr := row ++ bank ++ 0#7

/-- A clock of the cycle without a request. -/
def held : DdrClock where
  reset := false
  cyc := true
  stb := false
  we := false
  addr := 0

/-! ### The timers -/

/-- A timer that is counted down as long as it is not 1. -/
theorem timer_counts {State : Type} {step : State → State} (timed : BitVec 17 → State)
    (counts : ∀ timer, timer ≠ 1#17 → step (timed timer) = timed (timer - 1#17))
    {timer : BitVec 17} {count : Nat} (more : count < timer.toNat) :
    step^[count] (timed timer) = timed (timer - BitVec.ofNat 17 count) := by
  induction count with
  | zero => simp
  | succ count ih =>
      have small := timer.isLt
      have one : (1#17).toNat = 1 := rfl
      have unequal : timer - BitVec.ofNat 17 count ≠ 1#17 := by
        intro same
        have value := congrArg BitVec.toNat same
        rw [BitVec.toNat_sub, BitVec.toNat_ofNat, one] at value
        omega
      rw [Function.iterate_succ_apply', ih (Nat.lt_of_succ_lt more), counts _ unequal,
        BitVec.sub_sub, BitVec.ofNat_add]

theorem Reset.counts {script : Reset} (override : script.override = true)
    (ztimer : script.ztimer = false) {count : Nat} (more : count < script.timer.toNat) :
    (fun script => Reset.step script false)^[count] script =
      { script with timer := script.timer - BitVec.ofNat 17 count } := by
  refine timer_counts (fun timer => { script with timer := timer }) ?_ more
  intro timer unequal
  simp [Reset.step, override, ztimer, unequal]

theorem Refresh.counts {script : Refresh} (ztimer : script.ztimer = false)
    (begins : script.instruction.rfBegin = false) {count : Nat}
    (more : count < script.counter.toNat) : Refresh.step^[count] script =
      { script with counter := script.counter - BitVec.ofNat 17 count } := by
  refine timer_counts (fun counter => { script with counter := counter }) ?_ more
  intro counter unequal
  simp [Refresh.step, ztimer, begins, unequal]

/-! ### Both scripts -/

/-- The two scripts without a reset. -/
abbrev Scripts := Reset × Refresh

def Scripts.step (scripts : Scripts) : Scripts :=
  (scripts.1.step false, if scripts.1.override then .initial else scripts.2.step)

/-- A step of the scripts, or all clocks but one of a timer that runs, with
their number. -/
def Scripts.skip (scripts : Scripts) : Nat × Scripts :=
  if scripts.1.override && !scripts.1.ztimer && decide (2 ≤ scripts.1.timer.toNat) then
    (scripts.1.timer.toNat - 1, ({ scripts.1 with timer := 1 }, .initial))
  else (1, scripts.step)

def Scripts.skips : Nat → Scripts → Nat × Scripts
  | 0, scripts => (0, scripts)
  | rounds + 1, scripts =>
      (scripts.skip.1 + (skips rounds scripts.skip.2).1, (skips rounds scripts.skip.2).2)

theorem Scripts.iterate_override {scripts : Scripts} {count : Nat}
    (override : ∀ earlier < count, ((fun script => Reset.step script false)^[earlier] scripts.1).override = true)
    (some : 0 < count) : Scripts.step^[count] scripts =
      ((fun script => Reset.step script false)^[count] scripts.1, .initial) := by
  induction count with
  | zero => exact absurd some (Nat.lt_irrefl 0)
  | succ count ih =>
      have last := override count (Nat.lt_succ_self count)
      rw [Function.iterate_succ_apply', Function.iterate_succ_apply']
      rcases Nat.eq_zero_or_pos count with rfl | more
      · rw [Function.iterate_zero_apply] at last ⊢
        rw [Function.iterate_zero_apply, Scripts.step, if_pos last]
      · rw [ih (fun earlier within => override earlier (Nat.lt_succ_of_lt within)) more,
          Scripts.step, if_pos last]

theorem Scripts.skip_iterate (scripts : Scripts) :
    Scripts.step^[scripts.skip.1] scripts = scripts.skip.2 := by
  unfold Scripts.skip
  split_ifs with runs
  · simp only [Bool.and_eq_true, Bool.not_eq_true', decide_eq_true_eq] at runs
    obtain ⟨⟨override, ztimer⟩, long⟩ := runs
    have counted : ∀ count < scripts.1.timer.toNat,
        (fun script => Reset.step script false)^[count] scripts.1 =
          { scripts.1 with timer := scripts.1.timer - BitVec.ofNat 17 count } :=
      fun count more => Reset.counts override ztimer more
    have last : scripts.1.timer - BitVec.ofNat 17 (scripts.1.timer.toNat - 1) = 1 := by
      apply BitVec.eq_of_toNat_eq
      have small := scripts.1.timer.isLt
      have one : (1 : BitVec 17).toNat = 1 := rfl
      rw [BitVec.toNat_sub, BitVec.toNat_ofNat, one]
      omega
    dsimp only
    rw [Scripts.iterate_override ?_ (by omega), counted _ (by omega), last]
    intro earlier within
    rw [counted earlier (by omega)]
    exact override
  · rfl

theorem Scripts.skips_iterate (rounds : Nat) (scripts : Scripts) :
    Scripts.step^[(skips rounds scripts).1] scripts = (skips rounds scripts).2 := by
  induction rounds generalizing scripts with
  | zero => rfl
  | succ rounds ih =>
      rw [skips, Nat.add_comm, Function.iterate_add_apply, scripts.skip_iterate, ih]

/-! ### After the reset -/

/-- The reset script at its last line. -/
def Reset.finished : Reset where
  override := false
  cmdOp := .noop
  cmdArg := 0
  ztimer := true
  timer := 0
  instruction := getResetInstruction 0xf
  address := 0xf

/-- Between refreshes, with the timer at this count. -/
def Refresh.waiting (counter : BitVec 17) : Refresh where
  addr := 2
  ztimer := false
  counter := counter
  instruction := getRefreshInstruction 1
  cmdOp := .noop
  cmdArg := 592
  needRefresh := false
  preRefreshStall := false

theorem Scripts.iterate_finished (refresh : Refresh) (count : Nat) :
    Scripts.step^[count] (.finished, refresh) = (.finished, Refresh.step^[count] refresh) := by
  induction count generalizing refresh with
  | zero => rfl
  | succ count ih =>
      have same : Scripts.step (.finished, refresh) = (.finished, refresh.step) := rfl
      rw [Function.iterate_succ_apply, same, ih, Function.iterate_succ_apply]

theorem first_wait : Scripts.step^[96764] (.initial, .initial) = (.finished, .waiting 6) := by
  have skipped := Scripts.skips_iterate 40 (.initial, .initial)
  have passed : Scripts.skips 40 (.initial, .initial) = (96178, .finished, .waiting 592) := by decide
  rw [passed] at skipped
  have counted := @Refresh.counts (.waiting 592) rfl rfl 586 (by decide)
  have total : 96764 = 586 + 96178 := rfl
  rw [total, Function.iterate_add_apply, skipped, Scripts.iterate_finished, counted]
  rfl

/-! ### The registers -/

/-- Without the outputs, and without what only they are computed from. -/
def WbDdr.core (ddr : WbDdr) : WbDdr :=
  { ddr with
    maintenanceOp := .noop
    maintenanceArg := 0
    busAck0 := false
    busAck1 := false
    busAck2 := false
    wbAck := false
    cmdA := ⟨true, .noop, 0⟩
    cmdB := ⟨true, .noop, 0⟩
    cmdC := ⟨true, .noop, 0⟩
    cmdD := ⟨true, .noop, 0⟩ }

theorem core_step (ddr : WbDdr) (clock : DdrClock) :
    (ddr.step clock).core = (ddr.core.step clock).core := rfl

theorem core_clocked (ddr : WbDdr) (clocks : List DdrClock) :
    (clocked WbDdr.step ddr clocks).core = (clocked WbDdr.step ddr.core clocks).core := by
  induction clocks generalizing ddr with
  | nil => rfl
  | cons clock rest ih =>
      rw [clocked_cons, clocked_cons, ih, core_step, ← ih]

/-- Power-up with the request of an idle bus in the pipes. -/
def powerUp : WbDdr := .initial idle.request idle.request (0, 1) (0, 1)

/-- The registers on an idle bus, with the scripts where they are. -/
def idling (scripts : Scripts) (maintenance stalled : Bool) : WbDdr :=
  { powerUp.core with
    script := scripts.1
    refresh := scripts.2
    maintenanceOverride := maintenance
    wbStall := stalled }

theorem idling_step (scripts : Scripts) (maintenance stalled : Bool) :
    ((idling scripts maintenance stalled).step idle).core = idling scripts.step
      (scripts.1.override || scripts.2.needRefresh)
      (scripts.1.override || scripts.2.preRefreshStall) := by
  have banks : (idling scripts maintenance stalled).nextBankStatus idle = fun _ => false := by
    funext bank
    cases maintenance <;> rfl
  have waits : ((idling scripts maintenance stalled).step idle).wbStall =
      (scripts.1.override || scripts.2.preRefreshStall) := Bool.or_false _
  have split : ((idling scripts maintenance stalled).step idle).core =
      { ((idling scripts maintenance stalled).step idle).core with
        bankStatus := (idling scripts maintenance stalled).nextBankStatus idle
        wbStall := ((idling scripts maintenance stalled).step idle).wbStall } := rfl
  rw [split, banks, waits]
  cases stalled <;> rfl

theorem idle_core (count : Nat) : ∃ maintenance stalled,
    (clocked WbDdr.step powerUp (List.replicate count idle)).core =
      idling (Scripts.step^[count] (.initial, .initial)) maintenance stalled := by
  induction count with
  | zero => exact ⟨true, true, rfl⟩
  | succ count ih =>
      obtain ⟨maintenance, stalled, before⟩ := ih
      rw [List.replicate_succ', clocked_append, clocked_cons, clocked_nil, core_step, before,
        idling_step, Function.iterate_succ_apply']
      exact ⟨_, _, rfl⟩

/-- Six clocks before the first `pre_refresh_stall`. -/
theorem first_wait_core : (clocked WbDdr.step powerUp (List.replicate 96765 idle)).core =
    idling (.finished, .waiting 5) false false := by
  obtain ⟨maintenance, stalled, before⟩ := idle_core 96764
  have last : List.replicate 96765 idle = List.replicate 96764 idle ++ [idle] :=
    List.replicate_succ'
  rw [last, clocked_append, clocked_cons, clocked_nil, core_step, before, first_wait, idling_step]
  rfl

/-! ### Calm runs -/

namespace DdrRun

variable {run : DdrRun}

theorem calm_idle {count : Nat} {clocks : List DdrClock}
    (calm : (clocked step run (List.replicate count idle)).Calm clocks) :
    run.Calm (List.replicate count idle ++ clocks) := by
  induction count generalizing run with
  | zero => exact calm
  | succ count ih =>
      refine ⟨fun _ => ?_, ih calm⟩
      rintro ⟨-, held⟩
      exact absurd (held idle (.head _)) (by decide)

theorem calm_free {clocks : List DdrClock} (free : ∀ count < clocks.length,
    (clocked step run (clocks.take count)).ddr.endangered = false) : run.Calm clocks := by
  induction clocks generalizing run with
  | nil => trivial
  | cons clock rest ih =>
      refine ⟨fun endangered => ?_, ih fun count within => ?_⟩
      · exact absurd endangered (Bool.eq_false_iff.mp (free 0 (Nat.succ_pos _)))
      · exact free (count + 1) (Nat.succ_lt_succ within)

end DdrRun

end ZipVersa.Ddr
