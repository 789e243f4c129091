import ZipVersa.Lib.Latch

/-! The interrupts of the bus as `main.v` connects them: `ziptimer` with
`RELOADABLE`, and `icontrol`, which collects its interrupts with those of the
other peripherals into the interrupt of the debug bus. -/

set_option autoImplicit false

namespace ZipVersa.Board

open Lib

/-! ### `ziptimer` -/

/-- The inputs at a clock; `VW` is `vw`, and `BW` one more. -/
structure TimerClock (vw : Nat) where
  iReset : Bool
  iCe : Bool
  iWbStb : Bool
  iWbWe : Bool
  iWbData : BitVec (vw + 1)

structure ZipTimer (vw : Nat) where
  rRunning : Bool
  rZero : Bool
  rValue : BitVec vw
  rAutoReload : Bool
  rIntervalCount : BitVec vw
  oInt : Bool
  oWbAck : Bool
  deriving DecidableEq

namespace TimerClock

variable {vw : Nat} (clock : TimerClock vw)

def wbWrite : Bool := clock.iWbStb && clock.iWbWe

/-- `i_wb_data[(VW-1):0]` -/
def count : BitVec vw := clock.iWbData.setWidth vw

/-- What `r_auto_reload` is written with. -/
def reload : Bool := clock.iWbData.msb && clock.count != 0

variable {clock} in
theorem count_ne_zero (reload : clock.reload = true) : clock.count ≠ 0 := by
  simp only [TimerClock.reload, Bool.and_eq_true, bne_iff_ne] at reload
  exact reload.2

end TimerClock

namespace ZipTimer

variable {vw : Nat}

/-- Power-up; `r_interval_count` has no initial value. -/
def init (rIntervalCount : BitVec vw) : ZipTimer vw where
  rRunning := false
  rZero := true
  rValue := 0
  rAutoReload := false
  rIntervalCount := rIntervalCount
  oInt := false
  oWbAck := false

/-- One rising edge. -/
def step (timer : ZipTimer vw) (clock : TimerClock vw) : ZipTimer vw where
  rRunning :=
    if clock.iReset then false
    else if clock.wbWrite then clock.count != 0
    else if timer.rZero && !timer.rAutoReload then false
    else timer.rRunning
  rZero :=
    if clock.iReset then true
    else if clock.wbWrite then clock.count == 0
    else if timer.rRunning && clock.iCe then
      if timer.rValue == 1 then true
      else if timer.rZero && timer.rAutoReload then false
      else timer.rZero
    else timer.rZero
  rValue :=
    if clock.iReset then 0
    else if clock.wbWrite then clock.count
    else if clock.iCe && timer.rRunning then
      if !timer.rZero then timer.rValue - 1
      else if timer.rAutoReload then timer.rIntervalCount
      else timer.rValue
    else timer.rValue
  rAutoReload :=
    if clock.iReset then false
    else if clock.wbWrite then clock.reload
    else timer.rAutoReload
  rIntervalCount := if clock.wbWrite then clock.count else timer.rIntervalCount
  oInt := if clock.iReset || clock.wbWrite || !clock.iCe then false else timer.rValue == 1
  oWbAck := !clock.iReset && clock.iWbStb

/-- `o_wb_data` -/
def oWbData (timer : ZipTimer vw) : BitVec (vw + 1) := BitVec.cons timer.rAutoReload timer.rValue

end ZipTimer

/-- What is left of an interval some enabled clocks after it was written. With
`r_auto_reload` it starts over a clock after it has come to its end. -/
def left (count : Nat) (reload : Bool) (ticks : Nat) : Nat :=
  if reload then count - ticks % (count + 1) else count - ticks

/-- The enabled clocks at which an interval ends. -/
def Ends (count : Nat) (reload : Bool) (ticks : Nat) : Prop :=
  0 < count ∧ (ticks = count ∨ (reload = true ∧ ticks % (count + 1) = count))

/-- An interval written ends at the last of the clocks: neither a write nor a
reset has come since, and the clock is one of those that count. -/
def Expires {vw : Nat} (clocks : List (TimerClock vw)) : Prop :=
  ∃ before write between last, clocks = before ++ write :: (between ++ [last]) ∧
    write.iReset = false ∧ write.wbWrite = true ∧
    (∀ clock ∈ between ++ [last], clock.iReset = false ∧ clock.wbWrite = false) ∧
    last.iCe = true ∧
    Ends write.count.toNat write.reload ((between ++ [last]).countP (·.iCe))

theorem left_zero (count : Nat) (reload : Bool) : left count reload 0 = count := by
  cases reload <;> simp [left]

theorem left_succ {count ticks : Nat} {reload : Bool} (some : left count reload ticks ≠ 0) :
    left count reload (ticks + 1) = left count reload ticks - 1 := by
  cases reload with
  | false => simp only [left, Bool.false_eq_true, if_false]; omega
  | true =>
      simp only [left, if_true] at some ⊢
      have below : ticks % (count + 1) + 1 < count + 1 := by omega
      rw [← Nat.mod_add_mod, Nat.mod_eq_of_lt below]
      omega

theorem left_over {count ticks : Nat} {reload : Bool} (none : left count reload ticks = 0) :
    left count reload (ticks + 1) = if reload then count else 0 := by
  cases reload with
  | false =>
      simp only [left, Bool.false_eq_true, if_false] at none ⊢
      omega
  | true =>
      simp only [left, if_true] at none ⊢
      have below : ticks % (count + 1) < count + 1 := Nat.mod_lt ticks (Nat.succ_pos count)
      have last : ticks % (count + 1) = count := by omega
      rw [← Nat.mod_add_mod, last, Nat.mod_self, Nat.sub_zero]

theorem ends_iff (count ticks : Nat) (reload : Bool) :
    Ends count reload (ticks + 1) ↔ left count reload ticks = 1 := by
  cases reload with
  | false =>
      simp only [Ends, left, Bool.false_eq_true, if_false, false_and, or_false]
      omega
  | true =>
      have below : ticks % (count + 1) < count + 1 := Nat.mod_lt ticks (Nat.succ_pos count)
      simp only [Ends, left, if_true, true_and]
      rw [← Nat.mod_add_mod]
      rcases Nat.lt_or_ge (ticks % (count + 1) + 1) (count + 1) with more | last
      · rw [Nat.mod_eq_of_lt more]
        constructor
        · rintro ⟨positive, same | same⟩
          · have small : ticks < count + 1 := by omega
            rw [Nat.mod_eq_of_lt small]
            omega
          · omega
        · intro one
          exact ⟨by omega, .inr (by omega)⟩
      · have full : ticks % (count + 1) = count := by omega
        rw [full, Nat.mod_self]
        constructor
        · rintro ⟨positive, same | same⟩
          · have small : ticks < count + 1 := by omega
            rw [Nat.mod_eq_of_lt small] at full
            omega
          · omega
        · intro one
          omega

namespace ZipTimer

variable {vw : Nat} {timer : ZipTimer vw} {clock : TimerClock vw}

/-- An interval is counted down. -/
structure Counting (timer : ZipTimer vw) (count : BitVec vw) (reload : Bool) (ticks : Nat) : Prop where
  value : timer.rValue.toNat = left count.toNat reload ticks
  zero : timer.rZero = true ↔ left count.toNat reload ticks = 0
  running : left count.toNat reload ticks ≠ 0 ∨ reload = true → timer.rRunning = true
  autoReload : timer.rAutoReload = reload
  interval : timer.rIntervalCount = count

/-- Nothing to count since the last reset. -/
structure Resting (timer : ZipTimer vw) : Prop where
  value : timer.rValue = 0
  zero : timer.rZero = true
  autoReload : timer.rAutoReload = false

theorem step_write (reset : clock.iReset = false) (write : clock.wbWrite = true) :
    Counting (timer.step clock) clock.count clock.reload 0 := by
  refine ⟨?_, ?_, ?_, ?_, ?_⟩
  · rw [left_zero]
    simp [step, reset, write]
  · rw [left_zero]
    simp [step, reset, write, BitVec.toNat_eq]
  · rw [left_zero]
    rintro (some | reload)
    · simpa [step, reset, write, BitVec.toNat_eq] using some
    · have some : clock.count ≠ BitVec.ofNat vw 0 := TimerClock.count_ne_zero reload
      simpa [step, reset, write] using some
  · simp [step, reset, write]
  · simp [step, write]

theorem one_toNat (wide : 0 < vw) (value : BitVec vw) : value = 1 ↔ value.toNat = 1 := by
  have one : (BitVec.ofNat vw 1).toNat = 1 := by
    rw [BitVec.toNat_ofNat]
    exact Nat.mod_eq_of_lt (Nat.one_lt_two_pow (Nat.ne_of_gt wide))
  constructor
  · rintro rfl
    exact one
  · intro same
    exact BitVec.eq_of_toNat_eq (same.trans one.symm)

section Counted

variable {count : BitVec vw} {reload : Bool} {ticks : Nat}
  (counting : Counting timer count reload ticks) (reset : clock.iReset = false)
  (write : clock.wbWrite = false)
include counting reset write

/-- A clock without `i_ce`. -/
theorem Counting.held (ce : clock.iCe = false) : Counting (timer.step clock) count reload ticks := by
  obtain ⟨value, zero, running, autoReload, interval⟩ := counting
  refine ⟨?_, ?_, ?_, ?_, ?_⟩
  · simpa [ZipTimer.step, reset, write, ce] using value
  · simpa [ZipTimer.step, reset, write, ce] using zero
  · intro more
    have high := running more
    rcases more with more | again
    · have low : timer.rZero = false := by simpa using mt zero.mp more
      simpa [ZipTimer.step, reset, write, low] using high
    · simpa [ZipTimer.step, reset, write, autoReload, again] using high
  · simpa [ZipTimer.step, reset, write] using autoReload
  · simpa [ZipTimer.step, write] using interval

/-- An interval that is over stays over, or starts over. -/
theorem Counting.over (wide : 0 < vw) (some : reload = true → count ≠ 0)
    (ce : clock.iCe = true) (spent : left count.toNat reload ticks = 0) :
    Counting (timer.step clock) count reload (ticks + 1) := by
  obtain ⟨value, zero, running, autoReload, interval⟩ := counting
  have same : (timer.step clock).rAutoReload = reload := by
    simpa [ZipTimer.step, reset, write] using autoReload
  have kept : (timer.step clock).rIntervalCount = count := by
    simpa [ZipTimer.step, write] using interval
  have high : timer.rZero = true := zero.mpr spent
  have nothing : timer.rValue = BitVec.ofNat vw 0 :=
    BitVec.eq_of_toNat_eq (by rw [value, spent]; rfl)
  have notOne : timer.rValue ≠ BitVec.ofNat vw 1 := fun one => by
    have last := (one_toNat wide timer.rValue).mp one
    rw [value, spent] at last
    cases last
  cases reload with
  | false =>
      have spent' : left count.toNat false (ticks + 1) = 0 := left_over spent
      refine ⟨?_, ?_, ?_, same, kept⟩
      · rw [spent']
        simp [ZipTimer.step, reset, write, high, autoReload, nothing]
      · rw [spent']
        simp [ZipTimer.step, reset, write, high, autoReload]
      · rw [spent']
        simp
  | true =>
      have again : left count.toNat true (ticks + 1) = count.toNat := left_over spent
      have high' : timer.rRunning = true := running (.inr rfl)
      have notNone : count.toNat ≠ 0 := fun none => some rfl (BitVec.eq_of_toNat_eq none)
      refine ⟨?_, ?_, ?_, same, kept⟩
      · rw [again]
        simp [ZipTimer.step, reset, write, ce, high, high', autoReload, interval]
      · rw [again]
        simpa [ZipTimer.step, reset, write, ce, high, high', autoReload, notOne] using notNone
      · intro
        simpa [ZipTimer.step, reset, write, high, autoReload] using high'

/-- One tick of an interval. -/
theorem Counting.down (wide : 0 < vw) (ce : clock.iCe = true)
    (more : 0 < left count.toNat reload ticks) :
    Counting (timer.step clock) count reload (ticks + 1) := by
  obtain ⟨value, zero, running, autoReload, interval⟩ := counting
  have next := left_succ (Nat.ne_of_gt more)
  have low : timer.rZero = false := by simpa using mt zero.mp (Nat.ne_of_gt more)
  have high : timer.rRunning = true := running (.inl (Nat.ne_of_gt more))
  have one : BitVec.ofNat vw 1 ≤ timer.rValue := by
    rw [BitVec.le_def, (one_toNat wide (BitVec.ofNat vw 1)).mp rfl, value]
    exact more
  have less : (timer.rValue - BitVec.ofNat vw 1).toNat = left count.toNat reload ticks - 1 := by
    rw [BitVec.toNat_sub_of_le one, value, (one_toNat wide (BitVec.ofNat vw 1)).mp rfl]
  have last : timer.rValue = BitVec.ofNat vw 1 ↔ left count.toNat reload ticks = 1 := by
    rw [← value]
    exact one_toNat wide timer.rValue
  refine ⟨?_, ?_, ?_, ?_, ?_⟩
  · rw [next]
    simpa [ZipTimer.step, reset, write, ce, low, high] using less
  · have ends : (timer.step clock).rZero = true ↔ timer.rValue = BitVec.ofNat vw 1 := by
      simp [ZipTimer.step, reset, write, ce, low, high]
    rw [next, ends, last]
    omega
  · intro
    simpa [ZipTimer.step, reset, write, low] using high
  · simpa [ZipTimer.step, reset, write] using autoReload
  · simpa [ZipTimer.step, write] using interval

theorem Counting.step (wide : 0 < vw) (some : reload = true → count ≠ 0) :
    Counting (timer.step clock) count reload (ticks + if clock.iCe then 1 else 0) := by
  cases ce : clock.iCe with
  | false => exact counting.held reset write ce
  | true =>
      rw [if_pos rfl]
      rcases Nat.eq_zero_or_pos (left count.toNat reload ticks) with spent | more
      · exact counting.over reset write wide some ce spent
      · exact counting.down reset write wide ce more

end Counted

theorem Counting.rings {count : BitVec vw} {reload : Bool} {ticks : Nat} (wide : 0 < vw)
    (counting : Counting timer count reload ticks) (reset : clock.iReset = false)
    (write : clock.wbWrite = false) :
    (timer.step clock).oInt = true ↔ clock.iCe = true ∧ Ends count.toNat reload (ticks + 1) := by
  rw [ends_iff, ← counting.value, ← one_toNat wide]
  cases ce : clock.iCe <;> simp [ZipTimer.step, reset, write, ce]

theorem Counting.through {count : BitVec vw} {reload : Bool} {ticks : Nat} (wide : 0 < vw)
    (counting : Counting timer count reload ticks) (some : reload = true → count ≠ 0)
    {clocks : List (TimerClock vw)}
    (quiet : ∀ clock ∈ clocks, clock.iReset = false ∧ clock.wbWrite = false) :
    Counting (clocked ZipTimer.step timer clocks) count reload (ticks + clocks.countP (·.iCe)) := by
  induction clocks generalizing timer ticks with
  | nil => exact counting
  | cons clock rest ih =>
      obtain ⟨reset, write⟩ := quiet clock List.mem_cons_self
      have next := ih (counting.step reset write wide some)
        fun later member => quiet later (List.mem_cons_of_mem _ member)
      rw [clocked_cons, List.countP_cons, Nat.add_comm (List.countP _ rest), ← Nat.add_assoc]
      exact next

/-- A read shows what is left of the interval, and whether it starts over. -/
theorem Counting.read {count : BitVec vw} {reload : Bool} {ticks : Nat}
    (counting : Counting timer count reload ticks) :
    timer.oWbData.msb = reload ∧
      (timer.oWbData.setWidth vw).toNat = left count.toNat reload ticks := by
  rw [oWbData, BitVec.msb_cons, BitVec.setWidth_cons]
  exact ⟨counting.autoReload, counting.value⟩

theorem step_reset (reset : clock.iReset = true) : Resting (timer.step clock) := by
  refine ⟨?_, ?_, ?_⟩ <;> simp [step, reset]

theorem Resting.step (resting : Resting timer) (write : clock.wbWrite = false) :
    Resting (timer.step clock) := by
  obtain ⟨value, zero, autoReload⟩ := resting
  refine ⟨?_, ?_, ?_⟩ <;> simp [ZipTimer.step, write, value, zero, autoReload]

theorem Resting.through (resting : Resting timer) {clocks : List (TimerClock vw)}
    (quiet : ∀ clock ∈ clocks, clock.wbWrite = false) :
    Resting (clocked ZipTimer.step timer clocks) := by
  refine clocked_invariant ?_ resting
  intro later clock member still
  exact still.step (quiet clock member)

theorem Resting.silent (wide : 0 < vw) (resting : Resting timer) :
    (timer.step clock).oInt = false := by
  have notOne : timer.rValue ≠ BitVec.ofNat vw 1 := fun one => by
    have last := (one_toNat wide timer.rValue).mp one
    rw [resting.value] at last
    cases last
  simp [ZipTimer.step, notOne]

theorem rings_of_expires (wide : 0 < vw) {clocks : List (TimerClock vw)} (expires : Expires clocks) :
    (clocked ZipTimer.step timer clocks).oInt = true := by
  obtain ⟨before, write, between, last, rfl, reset, writes, quiet, ce, ends⟩ := expires
  rw [clocked_append, clocked_cons, clocked_append, clocked_cons, clocked_nil]
  have start : Counting ((clocked ZipTimer.step timer before).step write) write.count write.reload 0 :=
    step_write reset writes
  have counting := start.through wide TimerClock.count_ne_zero
    fun clock member => quiet clock (List.mem_append_left _ member)
  obtain ⟨reset', write'⟩ := quiet last (List.mem_append_right _ (List.mem_singleton.mpr rfl))
  rw [counting.rings wide reset' write']
  refine ⟨ce, ?_⟩
  rw [List.countP_append, List.countP_cons, List.countP_nil, if_pos ce] at ends
  simpa using ends

/-- From power-up the timer interrupts behind the clocks at which an interval
ends, and behind no others. -/
theorem rings_iff_expires (wide : 0 < vw) (interval : BitVec vw) (clocks : List (TimerClock vw)) :
    (clocked ZipTimer.step (init interval) clocks).oInt = true ↔ Expires clocks := by
  refine ⟨fun rings => ?_, rings_of_expires wide⟩
  rcases List.eq_nil_or_concat clocks with rfl | ⟨inputs, clock, rfl⟩
  · cases rings
  rw [List.concat_eq_append] at rings ⊢
  rw [clocked_append, clocked_cons, clocked_nil] at rings
  cases reset : clock.iReset with
  | true => simp [ZipTimer.step, reset] at rings
  | false =>
  cases write : clock.wbWrite with
  | true => simp [ZipTimer.step, write] at rings
  | false =>
  have start : Resting (init interval) := ⟨rfl, rfl, rfl⟩
  rcases last_event (fun clock : TimerClock vw => clock.iReset || clock.wbWrite) inputs with
    never | ⟨before, first, after, rfl, happened, kept⟩
  · have still := start.through fun other member => (Bool.or_eq_false_iff.mp (never other member)).2
    rw [still.silent wide] at rings
    cases rings
  · have quiet : ∀ other ∈ after, other.iReset = false ∧ other.wbWrite = false :=
      fun other member => Bool.or_eq_false_iff.mp (kept other member)
    rw [clocked_append, clocked_cons] at rings
    cases reset' : first.iReset with
    | true =>
        have still := (@step_reset vw (clocked ZipTimer.step (init interval) before) first reset').through
          fun other member => (quiet other member).2
        rw [still.silent wide] at rings
        cases rings
    | false =>
        have writes : first.wbWrite = true := by simpa [reset'] using happened
        have begun : Counting ((clocked ZipTimer.step (init interval) before).step first) first.count
            first.reload 0 := step_write reset' writes
        have counting := begun.through wide TimerClock.count_ne_zero quiet
        obtain ⟨ce, ends⟩ := (counting.rings wide reset write).mp rings
        refine ⟨before, first, after, clock, by simp, reset', writes, fun other member => ?_, ce, ?_⟩
        · rcases List.mem_append.mp member with early | now
          · exact quiet other early
          · rw [List.mem_singleton.mp now]
            exact ⟨reset, write⟩
        · rw [List.countP_append, List.countP_cons, List.countP_nil, if_pos ce]
          simpa using ends

/-- An interval of two, reloaded: the third clock after an interrupt brings the next. -/
example :
    (List.range 8).map (fun idle => (clocked step (init 0#3)
      (TimerClock.mk false true true true 0b1010#4 ::
        List.replicate idle (TimerClock.mk false true false false 0#4))).oInt) =
      [false, false, true, false, false, true, false, false] := by
  decide

end ZipTimer

/-! ### `icontrol` -/

/-- The inputs at a clock; `IUSED` is 15. -/
structure IControlClock where
  iReset : Bool
  iWbStb : Bool
  iWbWe : Bool
  iWbData : BitVec 32
  iBrdInts : BitVec 15

structure IControl where
  rIntState : BitVec 15
  rIntEnable : BitVec 15
  rMie : Bool
  oInterrupt : Bool
  oWbData : BitVec 32
  deriving DecidableEq

namespace IControl

def init : IControl where
  rIntState := 0
  rIntEnable := 0
  rMie := false
  oInterrupt := false
  oWbData := 0

def wAny (pic : IControl) : Bool := pic.rIntState &&& pic.rIntEnable != 0

/-- One rising edge. -/
def step (pic : IControl) (clock : IControlClock) : IControl :=
  let wbWrite := clock.iWbStb && clock.iWbWe
  let enableInts := wbWrite && clock.iWbData.getLsbD 15
  let disableInts := wbWrite && !clock.iWbData.getLsbD 15
  { rIntState :=
      if clock.iReset then 0
      else if wbWrite then clock.iBrdInts ||| (pic.rIntState &&& ~~~clock.iWbData.extractLsb' 0 15)
      else pic.rIntState ||| clock.iBrdInts
    rIntEnable :=
      if clock.iReset then 0
      else if enableInts then pic.rIntEnable ||| clock.iWbData.extractLsb' 16 15
      else if disableInts then pic.rIntEnable &&& ~~~clock.iWbData.extractLsb' 16 15
      else pic.rIntEnable
    rMie :=
      if clock.iReset then false
      else if enableInts && clock.iWbData.getLsbD 31 then true
      else if disableInts && clock.iWbData.getLsbD 31 then false
      else pic.rMie
    oInterrupt := if clock.iReset then false else pic.rMie && pic.wAny
    oWbData := BitVec.ofBool pic.rMie ++ pic.rIntEnable ++ BitVec.ofBool pic.wAny ++ pic.rIntState }

/-- The word read a clock later: the pending lines, whether an enabled one is
pending, the enabled lines, and whether all are. -/
theorem word_pending {line : Nat} (below : line < 15) (pic : IControl) (clock : IControlClock) :
    (pic.step clock).oWbData.getLsbD line = pic.rIntState.getLsbD line := by
  simp only [step]
  rw [BitVec.getLsbD_append, if_pos below]

theorem word_any (pic : IControl) (clock : IControlClock) :
    (pic.step clock).oWbData.getLsbD 15 = pic.wAny := by
  simp only [step]
  rw [BitVec.getLsbD_append, if_neg (by decide), BitVec.getLsbD_append, if_pos (by decide)]
  simp

theorem word_enabled {line : Nat} (below : line < 15) (pic : IControl) (clock : IControlClock) :
    (pic.step clock).oWbData.getLsbD (16 + line) = pic.rIntEnable.getLsbD line := by
  have past : ¬16 + line < 15 := by omega
  have past' : ¬16 + line - 15 < 1 := by omega
  have place : 16 + line - 15 - 1 = line := by omega
  simp only [step]
  rw [BitVec.getLsbD_append, if_neg past, BitVec.getLsbD_append, if_neg past', place,
    BitVec.getLsbD_append, if_pos below]

theorem word_mie (pic : IControl) (clock : IControlClock) :
    (pic.step clock).oWbData.getLsbD 31 = pic.rMie := by
  simp only [step]
  rw [BitVec.getLsbD_append, if_neg (by decide), BitVec.getLsbD_append, if_neg (by decide),
    BitVec.getLsbD_append, if_neg (by decide)]
  simp

theorem wAny_iff (pic : IControl) :
    pic.wAny = true ↔
      ∃ line < 15, pic.rIntEnable.getLsbD line = true ∧ pic.rIntState.getLsbD line = true := by
  rw [wAny, bne_iff_ne]
  constructor
  · intro some
    by_contra none
    refine some (BitVec.eq_of_getLsbD_eq fun line below => ?_)
    rw [BitVec.getLsbD_and]
    cases state : pic.rIntState.getLsbD line with
    | false => simp
    | true =>
        cases enable : pic.rIntEnable.getLsbD line with
        | false => simp
        | true => exact absurd ⟨line, below, enable, state⟩ none
  · rintro ⟨line, -, enable, state⟩ none
    have bit : (pic.rIntState &&& pic.rIntEnable).getLsbD line = true := by
      rw [BitVec.getLsbD_and, enable, state]
      rfl
    rw [none] at bit
    simp at bit

end IControl

/-! ### On the bus -/

/-- The wires at a clock: the two strobes, the rest of the bus, and the
interrupts of the other peripherals. -/
structure InterruptClock where
  systimerStb : Bool
  buspicStb : Bool
  wbWe : Bool
  wbData : BitVec 32
  flashdbgInt : Bool
  net1rxInt : Bool
  net1txInt : Bool
  enetscopeInt : Bool
  uartrxfInt : Bool
  uarttxfInt : Bool
  spioInt : Bool
  wbfftInt : Bool

namespace InterruptClock

variable (clock : InterruptClock)

/-- The wires of `systimeri`. -/
def timerClock : TimerClock 31 where
  iReset := false
  iCe := true
  iWbStb := clock.systimerStb
  iWbWe := clock.wbWe
  iWbData := clock.wbData

/-- `bus_int_vector` -/
def busIntVector (systimerInt : Bool) : BitVec 15 :=
  0#6 ++ BitVec.ofBool clock.flashdbgInt ++ BitVec.ofBool clock.net1rxInt ++
    BitVec.ofBool clock.net1txInt ++ BitVec.ofBool clock.enetscopeInt ++
    BitVec.ofBool clock.uartrxfInt ++ BitVec.ofBool clock.uarttxfInt ++
    BitVec.ofBool clock.spioInt ++ BitVec.ofBool systimerInt ++ BitVec.ofBool clock.wbfftInt

/-- The wires of `buspici`. -/
def picClock (systimerInt : Bool) : IControlClock where
  iReset := false
  iWbStb := clock.buspicStb
  iWbWe := clock.wbWe
  iWbData := clock.wbData
  iBrdInts := clock.busIntVector systimerInt

/-- A write to `buspic` that has a bit set. -/
def marks (bit : Nat) : Prop :=
  clock.buspicStb = true ∧ clock.wbWe = true ∧ clock.wbData.getLsbD bit = true

/-- Bit 15 of what is written. -/
def enables : Prop := clock.wbData.getLsbD 15 = true

theorem getLsbD_above {n line : Nat} (high : BitVec n) (first second : BitVec 1) :
    (high ++ first ++ second).getLsbD (line + 1 + 1) = high.getLsbD line := by
  have past : ¬ line + 1 + 1 < 1 := by omega
  have past' : ¬ line + 1 + 1 - 1 < 1 := by omega
  rw [BitVec.getLsbD_append, if_neg past, BitVec.getLsbD_append, if_neg past', Nat.add_sub_cancel,
    Nat.add_sub_cancel]

theorem busIntVector_getLsbD {line : Nat} (below : line < 15) (systimerInt : Bool) :
    (clock.busIntVector systimerInt).getLsbD line =
      if line = 1 then systimerInt else (clock.busIntVector false).getLsbD line := by
  rcases line with _ | _ | line
  · rw [if_neg Nat.zero_ne_one, busIntVector, busIntVector, BitVec.getLsbD_append,
      if_pos Nat.zero_lt_one, BitVec.getLsbD_append, if_pos Nat.zero_lt_one]
  · rw [if_pos rfl, busIntVector, BitVec.getLsbD_append, if_neg (by decide), BitVec.getLsbD_append,
      if_pos (by decide)]
    cases systimerInt <;> rfl
  · have other : line + 1 + 1 ≠ 1 := by omega
    rw [if_neg other, busIntVector, busIntVector, getLsbD_above, getLsbD_above]

end InterruptClock

/-- `systimeri` and `buspici`, whose `o_interrupt` is `w_bus_int`. -/
structure Interrupts where
  timer : ZipTimer 31
  pic : IControl

namespace Interrupts

def powerUp (interval : BitVec 31) : Interrupts := ⟨ZipTimer.init interval, IControl.init⟩

def step (ints : Interrupts) (clock : InterruptClock) : Interrupts where
  timer := ints.timer.step clock.timerClock
  pic := ints.pic.step (clock.picClock ints.timer.oInt)

/-- An interrupt comes in: for the timer, an interval of its has just ended. -/
def Raises (line : Nat) (before : List InterruptClock) (clock : InterruptClock) : Prop :=
  if line = 1 then Expires (before.map InterruptClock.timerClock)
  else (clock.busIntVector false).getLsbD line = true

/-- An interrupt has come in that no write has taken back. -/
def Pending (line : Nat) : List InterruptClock → Prop :=
  Since (Raises line) fun clock => clock.marks line

/-- The last write about the line has enabled it; line 15 stands for them all. -/
def Enabled (line : Nat) : List InterruptClock → Prop :=
  Since (fun _ clock => clock.marks (16 + line) ∧ clock.enables)
    fun clock => clock.marks (16 + line) ∧ ¬ clock.enables

variable {interval : BitVec 31} {clocks : List InterruptClock}

theorem timer_run (ints : Interrupts) (clocks : List InterruptClock) :
    (clocked step ints clocks).timer =
      clocked ZipTimer.step ints.timer (clocks.map InterruptClock.timerClock) := by
  induction clocks generalizing ints with
  | nil => rfl
  | cons clock rest ih => exact ih (ints.step clock)

theorem pending_iff {line : Nat} (below : line < 15) :
    (clocked step (powerUp interval) clocks).pic.rIntState.getLsbD line = true ↔
      Pending line clocks := by
  refine @clocked_since _ _ step (powerUp interval)
    (fun ints => ints.pic.rIntState.getLsbD line = true) _ _ ?_ ?_ clocks
  · simp [powerUp, IControl.init]
  · intro inputs clock
    have rings := ZipTimer.rings_iff_expires (by decide) interval
      (inputs.map InterruptClock.timerClock)
    have timer := timer_run (powerUp interval) inputs
    have bit := clock.busIntVector_getLsbD below (clocked step (powerUp interval) inputs).timer.oInt
    have raises : (clock.busIntVector (clocked step (powerUp interval) inputs).timer.oInt).getLsbD
        line = true ↔ Raises line inputs clock := by
      rw [bit, Raises]
      split
      · rw [timer]
        exact rings
      · exact Iff.rfl
    rw [← raises]
    cases stb : clock.buspicStb <;> cases we : clock.wbWe <;>
      simp [step, IControl.step, InterruptClock.picClock, InterruptClock.marks, stb, we, below, or_comm]

theorem enabled_iff {line : Nat} (below : line < 15) :
    (clocked step (powerUp interval) clocks).pic.rIntEnable.getLsbD line = true ↔
      Enabled line clocks := by
  refine @clocked_since _ _ step (powerUp interval)
    (fun ints => ints.pic.rIntEnable.getLsbD line = true) _ _ ?_ ?_ clocks
  · simp [powerUp, IControl.init]
  · intro inputs clock
    cases stb : clock.buspicStb <;> cases we : clock.wbWe <;>
      cases bit : clock.wbData[15] <;>
      simp [step, IControl.step, InterruptClock.picClock, InterruptClock.marks,
        InterruptClock.enables, stb, we, bit, below, or_comm]

theorem mie_iff :
    (clocked step (powerUp interval) clocks).pic.rMie = true ↔ Enabled 15 clocks := by
  refine @clocked_since _ _ step (powerUp interval) (fun ints => ints.pic.rMie = true) _ _ ?_ ?_
    clocks
  · simp [powerUp, IControl.init]
  · intro inputs clock
    cases stb : clock.buspicStb <;> cases we : clock.wbWe <;>
      cases bit : clock.wbData[15] <;> cases all : clock.wbData[31] <;>
      simp [step, IControl.step, InterruptClock.picClock, InterruptClock.marks,
        InterruptClock.enables, stb, we, bit, all]

theorem any_iff : (clocked step (powerUp interval) clocks).pic.wAny = true ↔
    ∃ line < 15, Enabled line clocks ∧ Pending line clocks := by
  rw [IControl.wAny_iff]
  constructor
  · rintro ⟨line, below, enable, state⟩
    exact ⟨line, below, (enabled_iff below).mp enable, (pending_iff below).mp state⟩
  · rintro ⟨line, below, enabled, pending⟩
    exact ⟨line, below, (enabled_iff below).mpr enabled, (pending_iff below).mpr pending⟩

/-- `o_interrupt` a clock later. -/
theorem raised_iff (clock : InterruptClock) :
    (clocked step (powerUp interval) (clocks ++ [clock])).pic.oInterrupt = true ↔
      Enabled 15 clocks ∧ ∃ line < 15, Enabled line clocks ∧ Pending line clocks := by
  rw [clocked_append, clocked_cons, clocked_nil, ← @mie_iff interval, ← @any_iff interval]
  simp [step, IControl.step, InterruptClock.picClock]

/-- The interrupt of the bus is high just when, a clock before, an enabled line
was pending and all were enabled; the word then read shows the pending lines, the
enabled ones with the enable of all behind them, and whether one is both. The
timer's line is pending from the end of an interval on. -/
theorem bus_interrupt (interval : BitVec 31) (clocks : List InterruptClock) (clock : InterruptClock) :
    let pic := (clocked step (powerUp interval) (clocks ++ [clock])).pic
    (pic.oInterrupt = true ↔
      Enabled 15 clocks ∧ ∃ line < 15, Enabled line clocks ∧ Pending line clocks) ∧
    (∀ line < 15, (pic.oWbData.getLsbD line = true ↔ Pending line clocks)) ∧
    (pic.oWbData.getLsbD 15 = true ↔ ∃ line < 15, Enabled line clocks ∧ Pending line clocks) ∧
    ∀ line ≤ 15, (pic.oWbData.getLsbD (16 + line) = true ↔ Enabled line clocks) := by
  intro pic
  have shown : pic.oWbData = ((clocked step (powerUp interval) clocks).pic.step
      (clock.picClock (clocked step (powerUp interval) clocks).timer.oInt)).oWbData := by
    simp only [pic, clocked_append, clocked_cons, clocked_nil, step]
  rw [shown]
  refine ⟨raised_iff clock, fun line below => ?_, ?_, fun line within => ?_⟩
  · rw [IControl.word_pending below]
    exact pending_iff below
  · rw [IControl.word_any]
    exact any_iff
  · rcases Nat.lt_or_eq_of_le within with below | rfl
    · rw [IControl.word_enabled below]
      exact enabled_iff below
    · rw [IControl.word_mie]
      exact mie_iff

end Interrupts

end ZipVersa.Board
