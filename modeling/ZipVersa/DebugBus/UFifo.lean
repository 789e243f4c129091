import ZipVersa.Lib.Ring
import ZipVersa.Lib.Queue

/-! `ufifo`, the queue of the console. What is shown comes from the memory, from
the place after the one shown, or past the memory from the input; which of them
it is was decided a clock before. -/

set_option autoImplicit false

namespace ZipVersa.DebugBus

open Lib

structure UFifo (lg : Nat) (α : Type) where
  fifo : BitVec lg → α
  rFirst : BitVec lg
  rLast : BitVec lg
  rNext : BitVec lg
  willOverflow : Bool
  rOvfl : Bool
  willUnderflow : Bool
  fifoHere : α
  fifoNext : α
  rData : α
  osrc : BitVec 2
  rEmptyN : Bool
  rFill : BitVec lg

namespace UFifo

variable {lg : Nat} {α : Type}

/-- The wires into the circuit at a clock with `i_rst` low. -/
structure Clock (α : Type) where
  iWr : Bool
  iData : α
  iRd : Bool
  deriving DecidableEq, Repr

def oData (ufifo : UFifo lg α) : α :=
  if ufifo.osrc.getLsbD 1 then
    (if ufifo.osrc.getLsbD 0 then ufifo.fifoNext else ufifo.fifoHere)
  else ufifo.rData

def oEmptyN (ufifo : UFifo lg α) : Bool := ufifo.rEmptyN

def oErr (ufifo : UFifo lg α) : Bool := ufifo.rOvfl

/-- `w_fill`: the fill level as it stands in `o_status[11:2]`. -/
def wFill (ufifo : UFifo lg α) : BitVec 10 := ufifo.rFill.setWidth 10

def oStatus (rxfifo : Bool) (ufifo : UFifo lg α) : BitVec 16 :=
  BitVec.ofNat 4 lg ++ ufifo.wFill ++ BitVec.ofBool (ufifo.rFill.getLsbD (lg - 1)) ++
    BitVec.ofBool (if rxfifo then ufifo.rEmptyN else !ufifo.willOverflow)

/-- One rising edge with `i_rst` low; `rxfifo` is the parameter `RXFIFO`. -/
def step (rxfifo : Bool) (ufifo : UFifo lg α) (clock : Clock α) : UFifo lg α where
  willOverflow :=
    if clock.iRd then ufifo.willOverflow && clock.iWr
    else if clock.iWr then ufifo.willOverflow || ufifo.rFirst + 2 == ufifo.rLast
    else if ufifo.rFirst + 1 == ufifo.rLast then true
    else ufifo.willOverflow
  rFirst :=
    if clock.iWr && (clock.iRd || !ufifo.willOverflow) then ufifo.rFirst + 1 else ufifo.rFirst
  rOvfl :=
    if clock.iWr && !(clock.iRd || !ufifo.willOverflow) then true else ufifo.rOvfl
  fifo := if clock.iWr then Function.update ufifo.fifo ufifo.rFirst clock.iData else ufifo.fifo
  willUnderflow :=
    if clock.iWr then false
    else if clock.iRd then ufifo.willUnderflow || ufifo.rNext == ufifo.rFirst
    else ufifo.rLast == ufifo.rFirst
  rLast := if clock.iRd && !ufifo.willUnderflow then ufifo.rNext else ufifo.rLast
  rNext := if clock.iRd && !ufifo.willUnderflow then ufifo.rLast + 2 else ufifo.rNext
  fifoHere := ufifo.fifo ufifo.rLast
  fifoNext := ufifo.fifo ufifo.rNext
  rData := clock.iData
  osrc :=
    if ufifo.willUnderflow then 0
    else if clock.iRd && ufifo.rFirst == ufifo.rNext then 1
    else if clock.iRd then 3
    else 2
  rEmptyN :=
    match clock.iWr, clock.iRd, ufifo.willUnderflow with
    | false, false, _ => ufifo.rFirst != ufifo.rLast
    | false, true, false => ufifo.rFirst != ufifo.rNext
    | true, false, _ => true
    | true, true, false => ufifo.rFirst != ufifo.rLast
    | true, true, true => true
    | false, true, true => ufifo.rEmptyN
  rFill :=
    match rxfifo, clock.iWr, !ufifo.willOverflow, clock.iRd && !ufifo.willUnderflow with
    | true, false, _, true => ufifo.rFirst - ufifo.rNext
    | true, true, true, false => ufifo.rFirst - ufifo.rLast + 1
    | true, _, _, _ => ufifo.rFirst - ufifo.rLast
    | false, false, _, true => ufifo.rFill + 1
    | false, true, true, false => ufifo.rFill - 1
    | false, _, _, _ => ufifo.rFill

section Rules

variable (rxfifo : Bool) (ufifo : UFifo lg α) (clock : Clock α)

@[simp] theorem step_willOverflow : (ufifo.step rxfifo clock).willOverflow =
    if clock.iRd then ufifo.willOverflow && clock.iWr
    else if clock.iWr then ufifo.willOverflow || ufifo.rFirst + 2 == ufifo.rLast
    else if ufifo.rFirst + 1 == ufifo.rLast then true
    else ufifo.willOverflow := rfl

@[simp] theorem step_rFirst : (ufifo.step rxfifo clock).rFirst =
    if clock.iWr && (clock.iRd || !ufifo.willOverflow) then ufifo.rFirst + 1
    else ufifo.rFirst := rfl

@[simp] theorem step_rOvfl : (ufifo.step rxfifo clock).rOvfl =
    if clock.iWr && !(clock.iRd || !ufifo.willOverflow) then true else ufifo.rOvfl := rfl

@[simp] theorem step_fifo : (ufifo.step rxfifo clock).fifo =
    if clock.iWr then Function.update ufifo.fifo ufifo.rFirst clock.iData else ufifo.fifo := rfl

@[simp] theorem step_willUnderflow : (ufifo.step rxfifo clock).willUnderflow =
    if clock.iWr then false
    else if clock.iRd then ufifo.willUnderflow || ufifo.rNext == ufifo.rFirst
    else ufifo.rLast == ufifo.rFirst := rfl

@[simp] theorem step_rLast : (ufifo.step rxfifo clock).rLast =
    if clock.iRd && !ufifo.willUnderflow then ufifo.rNext else ufifo.rLast := rfl

@[simp] theorem step_rNext : (ufifo.step rxfifo clock).rNext =
    if clock.iRd && !ufifo.willUnderflow then ufifo.rLast + 2 else ufifo.rNext := rfl

@[simp] theorem step_fifoHere : (ufifo.step rxfifo clock).fifoHere = ufifo.fifo ufifo.rLast := rfl

@[simp] theorem step_fifoNext : (ufifo.step rxfifo clock).fifoNext = ufifo.fifo ufifo.rNext := rfl

@[simp] theorem step_rData : (ufifo.step rxfifo clock).rData = clock.iData := rfl

@[simp] theorem step_osrc : (ufifo.step rxfifo clock).osrc =
    if ufifo.willUnderflow then 0
    else if clock.iRd && ufifo.rFirst == ufifo.rNext then 1
    else if clock.iRd then 3
    else 2 := rfl

@[simp] theorem step_rEmptyN : (ufifo.step rxfifo clock).rEmptyN =
    if clock.iWr then (if clock.iRd && !ufifo.willUnderflow then ufifo.rFirst != ufifo.rLast else true)
    else if clock.iRd then
      (if ufifo.willUnderflow then ufifo.rEmptyN else ufifo.rFirst != ufifo.rNext)
    else ufifo.rFirst != ufifo.rLast := by
  unfold step
  cases clock.iWr <;> cases clock.iRd <;> cases ufifo.willUnderflow <;> rfl

@[simp] theorem step_rFill : (ufifo.step rxfifo clock).rFill =
    if !clock.iWr && (clock.iRd && !ufifo.willUnderflow) then
      (if rxfifo then ufifo.rFirst - ufifo.rNext else ufifo.rFill + 1)
    else if clock.iWr && !ufifo.willOverflow && !(clock.iRd && !ufifo.willUnderflow) then
      (if rxfifo then ufifo.rFirst - ufifo.rLast + 1 else ufifo.rFill - 1)
    else if rxfifo then ufifo.rFirst - ufifo.rLast
    else ufifo.rFill := by
  unfold step
  cases rxfifo <;> cases clock.iWr <;> cases ufifo.willOverflow <;>
    cases clock.iRd && !ufifo.willUnderflow <;> rfl

end Rules

/-- A clock with `i_rst` high. The memory and the output are not reset. -/
def reset (rxfifo : Bool) (ufifo : UFifo lg α) (clock : Clock α) : UFifo lg α :=
  { ufifo.step rxfifo clock with
    willOverflow := false
    rFirst := 0
    rOvfl := false
    willUnderflow := true
    rLast := 0
    rNext := 1
    rEmptyN := false
    rFill := if rxfifo then 0 else -1 }

/-- The word taken in at a clock. -/
def takes (ufifo : UFifo lg α) (clock : Clock α) : List α :=
  if clock.iWr && (clock.iRd || !ufifo.willOverflow) then [clock.iData] else []

/-- The word refused at a clock. -/
def refuses (ufifo : UFifo lg α) (clock : Clock α) : List α :=
  if clock.iWr && !(clock.iRd || !ufifo.willOverflow) then [clock.iData] else []

/-- The word read at a clock: a read of an empty queue gives none. -/
def gives (ufifo : UFifo lg α) (clock : Clock α) : List α :=
  if clock.iRd && ufifo.oEmptyN then [ufifo.oData] else []

/-- What the fill level counts. -/
def level (rxfifo : Bool) (lg count : Nat) : Nat := if rxfifo then count else 2 ^ lg - 1 - count

/-- The registers with `count` words in the queue. -/
structure Sound (rxfifo : Bool) (ufifo : UFifo lg α) (count : Nat) : Prop where
  inside : count < 2 ^ lg
  rFirst : ufifo.rFirst = ufifo.rLast + BitVec.ofNat lg count
  rNext : ufifo.rNext = ufifo.rLast + 1
  willOverflow : ufifo.willOverflow = decide (count + 1 = 2 ^ lg)
  willUnderflow : ufifo.willUnderflow = decide (count = 0)
  rEmptyN : ufifo.rEmptyN = decide (count ≠ 0)
  shown : count ≠ 0 → ufifo.oData = ufifo.fifo ufifo.rLast
  rFill : ufifo.rFill = BitVec.ofNat lg (level rxfifo lg count)

def queue (ufifo : UFifo lg α) (count : Nat) : List α := window ufifo.fifo ufifo.rLast count

variable {rxfifo : Bool} {ufifo : UFifo lg α} {count : Nat}

/-! ### The tests on the pointers -/

theorem Sound.first_last (sound : ufifo.Sound rxfifo count) :
    (ufifo.rFirst == ufifo.rLast) = decide (count = 0) := by
  rw [beq_eq_decide, decide_eq_decide, sound.rFirst, offset_eq_self, Nat.mod_eq_of_lt sound.inside]

theorem Sound.first_next (sound : ufifo.Sound rxfifo count) (places : 4 ≤ 2 ^ lg) :
    (ufifo.rFirst == ufifo.rNext) = decide (count = 1) := by
  rw [beq_eq_decide, decide_eq_decide, sound.rFirst, sound.rNext]
  exact offset_inj sound.inside (show 1 < 2 ^ lg by omega)

theorem wraps_iff {start : BitVec lg} {count : Nat} (some : 0 < count) (inside : count ≤ 2 ^ lg) :
    start + BitVec.ofNat lg count = start ↔ count = 2 ^ lg := by
  rw [offset_eq_self]
  refine ⟨fun zero => ?_, fun full => by rw [full, Nat.mod_self]⟩
  by_contra apart
  rw [Nat.mod_eq_of_lt (by omega)] at zero
  omega

theorem Sound.plus_one (sound : ufifo.Sound rxfifo count) :
    (ufifo.rFirst + 1 == ufifo.rLast) = decide (count + 1 = 2 ^ lg) := by
  rw [beq_eq_decide, decide_eq_decide, sound.rFirst, offset_succ]
  exact wraps_iff (Nat.succ_pos count) sound.inside

theorem Sound.plus_two (sound : ufifo.Sound rxfifo count) (room : count + 1 < 2 ^ lg) :
    (ufifo.rFirst + 2 == ufifo.rLast) = decide (count + 2 = 2 ^ lg) := by
  have two : ufifo.rFirst + 2 = ufifo.rLast + BitVec.ofNat lg (count + 2) := by
    rw [BitVec.ofNat_add, ← BitVec.add_assoc, ← sound.rFirst]
    rfl
  rw [beq_eq_decide, decide_eq_decide, two]
  exact wraps_iff (Nat.succ_pos _) room

theorem Sound.difference (sound : ufifo.Sound rxfifo count) :
    ufifo.rFirst - ufifo.rLast = BitVec.ofNat lg count := by
  rw [sound.rFirst, BitVec.add_comm, BitVec.add_sub_cancel]

theorem level_pop (positive : 0 < count) (inside : count < 2 ^ lg) :
    BitVec.ofNat lg (level false lg (count - 1)) = BitVec.ofNat lg (level false lg count) + 1 := by
  rw [show level false lg (count - 1) = level false lg count + 1 by
    simp only [level, Bool.false_eq_true, if_false]; omega, BitVec.ofNat_add]
  rfl

theorem level_push (room : count + 1 < 2 ^ lg) :
    BitVec.ofNat lg (level false lg (count + 1)) = BitVec.ofNat lg (level false lg count) - 1 := by
  rw [show level false lg count = level false lg (count + 1) + 1 by
    simp only [level, Bool.false_eq_true, if_false]; omega, BitVec.ofNat_add]
  exact (BitVec.add_sub_cancel _ _).symm

/-- What is shown after a clock in which nothing is read. -/
theorem shown_kept (some : ufifo.willUnderflow = false) {clock : Clock α} (quiet : clock.iRd = false) :
    (ufifo.step rxfifo clock).oData = ufifo.fifo ufifo.rLast := by
  simp [oData, some, quiet]

/-- What is shown after a clock in which a word is read. -/
theorem shown_read (some : ufifo.willUnderflow = false) {clock : Clock α} (asked : clock.iRd = true) :
    (ufifo.step rxfifo clock).oData =
      if ufifo.rFirst == ufifo.rNext then clock.iData else ufifo.fifo ufifo.rNext := by
  simp only [oData, step_osrc, step_fifoHere, step_fifoNext, step_rData, some, asked, Bool.true_and, Bool.false_eq_true, if_false, if_true]
  cases ufifo.rFirst == ufifo.rNext <;> rfl

/-- A write does not touch the words in the queue. -/
theorem Sound.fifo_step (sound : ufifo.Sound rxfifo count) (clock : Clock α) :
    window (ufifo.step rxfifo clock).fifo ufifo.rLast count = ufifo.queue count := by
  cases pushed : clock.iWr with
  | false => simp [pushed, queue]
  | true =>
      simp only [step_fifo, pushed, if_true, queue]
      rw [sound.rFirst, window_scratch _ _ sound.inside]

/-- A clock that does nothing. -/
theorem Sound.idle (sound : ufifo.Sound rxfifo count) {clock : Clock α}
    (iWr : clock.iWr = false) (iRd : clock.iRd = false) :
    (ufifo.step rxfifo clock).Sound rxfifo count := by
  have first := sound.first_last
  refine ⟨sound.inside, ?_, ?_, ?_, ?_, ?_, fun some => ?_, ?_⟩
  · simp [iWr, iRd, sound.rFirst]
  · simp [iRd, sound.rNext]
  · simp only [step_willOverflow, iWr, iRd, Bool.false_eq_true, if_false, sound.plus_one, sound.willOverflow]
    split <;> simp_all
  · simp only [step_willUnderflow, iWr, iRd, Bool.false_eq_true, if_false]
    rw [BEq.comm, first]
  · simp only [step_rEmptyN, iWr, iRd, bne, first, decide_not, Bool.false_eq_true, if_false]
  · rw [shown_kept (by simp [sound.willUnderflow, some]) iRd]
    simp [iWr, iRd]
  · cases rxfifo with
    | true => simp [iWr, iRd, level, sound.difference]
    | false => simp [iWr, iRd, sound.rFill]

/-- A read of an empty queue, and no write. -/
theorem Sound.read_empty (sound : ufifo.Sound rxfifo 0) (places : 4 ≤ 2 ^ lg) {clock : Clock α}
    (iWr : clock.iWr = false) (iRd : clock.iRd = true) :
    (ufifo.step rxfifo clock).Sound rxfifo 0 := by
  have under : ufifo.willUnderflow = true := by simp [sound.willUnderflow]
  refine ⟨sound.inside, ?_, ?_, ?_, ?_, ?_, fun some => absurd rfl some, ?_⟩
  · simp [iWr, under, sound.rFirst]
  · simp [under, sound.rNext]
  · simp only [step_willOverflow, iWr, iRd, Bool.and_false, if_true]
    rw [eq_comm, decide_eq_false_iff_not]
    omega
  · simp [iWr, iRd, under]
  · simp [iWr, iRd, under, sound.rEmptyN]
  · cases rxfifo with
    | true => simp [iWr, under, level, sound.difference]
    | false => simp [iWr, under, sound.rFill]

/-- The fill level when a word is read and none comes in. -/
theorem Sound.fill_pop (sound : ufifo.Sound rxfifo (count + 1)) {clock : Clock α}
    (iWr : clock.iWr = false) (iRd : clock.iRd = true) :
    (ufifo.step rxfifo clock).rFill = BitVec.ofNat lg (level rxfifo lg count) := by
  have some : ufifo.willUnderflow = false := by simp [sound.willUnderflow]
  cases rxfifo with
  | true =>
      have fewer : ufifo.rFirst - ufifo.rNext = BitVec.ofNat lg count := by
        rw [sound.rFirst, sound.rNext, ← succ_offset, BitVec.add_comm, BitVec.add_sub_cancel]
      simp [iWr, iRd, some, level, fewer]
  | false =>
      have fill := @level_pop lg _ (Nat.succ_pos count) sound.inside
      simp only [step_rFill, iWr, iRd, some, sound.rFill]
      exact fill.symm

/-- A read of a word, and no write. -/
theorem Sound.read_some (sound : ufifo.Sound rxfifo (count + 1)) (places : 4 ≤ 2 ^ lg)
    {clock : Clock α} (iWr : clock.iWr = false) (iRd : clock.iRd = true) :
    (ufifo.step rxfifo clock).Sound rxfifo count := by
  have inside := sound.inside
  have next := sound.first_next places
  have some : ufifo.willUnderflow = false := by simp [sound.willUnderflow]
  refine ⟨by omega, ?_, ?_, ?_, ?_, ?_, fun more => ?_, sound.fill_pop iWr iRd⟩
  · have moved := sound.rFirst
    rw [← succ_offset, ← sound.rNext] at moved
    simp [iWr, iRd, some, moved]
  · simp only [step_rNext, step_rLast, iRd, some, sound.rNext, Bool.not_false, Bool.and_self,
      if_true]
    exact (succ_offset ufifo.rLast 1).symm
  · simp only [step_willOverflow, iWr, iRd, Bool.and_false, if_true]
    rw [eq_comm, decide_eq_false_iff_not]
    omega
  · simp only [step_willUnderflow, iWr, iRd, some, Bool.false_eq_true, if_false, if_true,
      Bool.false_or]
    rw [BEq.comm, next, decide_eq_decide]
    omega
  · simp only [step_rEmptyN, iWr, iRd, some, bne, next, Bool.false_eq_true, if_false, if_true]
    rw [← decide_not, decide_eq_decide]
    omega
  · rw [shown_read some iRd, next, decide_eq_false (by omega)]
    simp [iWr, iRd, some]

/-- A read and no write. -/
theorem Sound.read (sound : ufifo.Sound rxfifo count) (places : 4 ≤ 2 ^ lg) {clock : Clock α}
    (iWr : clock.iWr = false) (iRd : clock.iRd = true) :
    (ufifo.step rxfifo clock).Sound rxfifo (count - 1) := by
  cases count with
  | zero => exact sound.read_empty places iWr iRd
  | succ before => exact sound.read_some places iWr iRd

/-- The fill level when a word comes in and none is read. -/
theorem Sound.fill_push (sound : ufifo.Sound rxfifo count) {clock : Clock α}
    (room : count + 1 < 2 ^ lg) (iWr : clock.iWr = true)
    (kept : (clock.iRd && !ufifo.willUnderflow) = false) :
    (ufifo.step rxfifo clock).rFill = BitVec.ofNat lg (level rxfifo lg (count + 1)) := by
  have low : ufifo.willOverflow = false := by
    rw [sound.willOverflow, decide_eq_false_iff_not]
    omega
  cases rxfifo with
  | true =>
      have more := (offset_succ (0 : BitVec lg) count).symm
      rw [show (0 : BitVec lg) = BitVec.ofNat lg 0 from rfl, BitVec.zero_add,
        BitVec.zero_add] at more
      simp only [step_rFill, iWr, kept, low, level, sound.difference, if_true, more]
      rfl
  | false =>
      have fill := @level_push lg count room
      simp only [step_rFill, iWr, kept, low, sound.rFill]
      exact fill.symm

/-- The word shown stands where one comes in and none is read. -/
theorem Sound.shown_write (sound : ufifo.Sound rxfifo count) {clock : Clock α}
    (iWr : clock.iWr = true) (iRd : clock.iRd = false) (some : count ≠ 0) :
    (ufifo.step rxfifo clock).oData = (ufifo.step rxfifo clock).fifo ufifo.rLast := by
  have apart : ufifo.rLast ≠ ufifo.rFirst := fun same => by
    have first := sound.first_last
    rw [same, beq_self_eq_true, eq_comm, decide_eq_true_iff] at first
    exact some first
  rw [shown_kept (by simp [sound.willUnderflow, some]) iRd]
  simp [iWr, Function.update_of_ne apart]

/-- A write to a full queue, and no read. -/
theorem Sound.write_full (sound : ufifo.Sound rxfifo count) (places : 4 ≤ 2 ^ lg)
    {clock : Clock α} (iWr : clock.iWr = true) (iRd : clock.iRd = false)
    (full : count + 1 = 2 ^ lg) : (ufifo.step rxfifo clock).Sound rxfifo count := by
  have flag : ufifo.willOverflow = true := by simp [sound.willOverflow, full]
  have some : count ≠ 0 := by omega
  refine ⟨sound.inside, ?_, ?_, ?_, ?_, ?_, fun _ => ?_, ?_⟩
  · simp [iWr, iRd, flag, sound.rFirst]
  · simp [iRd, sound.rNext]
  · simp [iWr, iRd, flag, full]
  · simp [iWr, some]
  · simp [iWr, iRd, some]
  · rw [sound.shown_write iWr iRd some]
    simp [iRd]
  · cases rxfifo with
    | true => simp [iWr, iRd, flag, level, sound.difference]
    | false => simp [iWr, iRd, flag, sound.rFill]

/-- A write to a queue with room, and no read. -/
theorem Sound.write_room (sound : ufifo.Sound rxfifo count) {clock : Clock α}
    (iWr : clock.iWr = true) (iRd : clock.iRd = false) (more : count + 1 < 2 ^ lg) :
    (ufifo.step rxfifo clock).Sound rxfifo (count + 1) := by
  have room : ufifo.willOverflow = false := by
    rw [sound.willOverflow, decide_eq_false_iff_not]
    omega
  have next : (ufifo.step rxfifo clock).rLast = ufifo.rLast := by simp [iRd]
  refine ⟨more, ?_, ?_, ?_, ?_, ?_, fun _ => ?_, sound.fill_push more iWr (by simp [iRd])⟩
  · rw [next, ← offset_succ, ← sound.rFirst]
    simp [iWr, room]
  · simp [iRd, sound.rNext]
  · simp only [step_willOverflow, iWr, iRd, room, sound.plus_two more, Bool.false_eq_true,
      if_false, if_true, Bool.false_or]
  · simp [iWr]
  · simp [iWr, iRd]
  · rw [next]
    by_cases none : count = 0
    · have under : ufifo.willUnderflow = true := by simp [sound.willUnderflow, none]
      have same : ufifo.rFirst = ufifo.rLast := by
        rw [sound.rFirst, none]
        exact BitVec.add_zero _
      simp [oData, iWr, under, same]
    · exact sound.shown_write iWr iRd none

/-- A write and no read. -/
theorem Sound.write (sound : ufifo.Sound rxfifo count) (places : 4 ≤ 2 ^ lg) {clock : Clock α}
    (iWr : clock.iWr = true) (iRd : clock.iRd = false) :
    (ufifo.step rxfifo clock).Sound rxfifo (if count + 1 = 2 ^ lg then count else count + 1) := by
  have inside := sound.inside
  split
  · next full => exact sound.write_full places iWr iRd full
  · next room => exact sound.write_room iWr iRd (by omega)

/-- A write to an empty queue of which a read is tried. -/
theorem Sound.both_empty (sound : ufifo.Sound rxfifo 0) (places : 4 ≤ 2 ^ lg) {clock : Clock α}
    (iWr : clock.iWr = true) (iRd : clock.iRd = true) :
    (ufifo.step rxfifo clock).Sound rxfifo 1 := by
  have under : ufifo.willUnderflow = true := by simp [sound.willUnderflow]
  have low : ufifo.willOverflow = false := by
    rw [sound.willOverflow, decide_eq_false_iff_not]
    omega
  have same : ufifo.rFirst = ufifo.rLast := by
    rw [sound.rFirst]
    exact BitVec.add_zero _
  refine ⟨by omega, ?_, ?_, ?_, ?_, ?_, fun _ => ?_,
    sound.fill_push (by omega) iWr (by simp [under])⟩
  · simp only [step_rFirst, step_rLast, iWr, iRd, under, same, Bool.true_or, Bool.and_self,
      Bool.not_true, Bool.and_false, Bool.false_eq_true, if_true, if_false]
    rfl
  · simp [under, sound.rNext]
  · simp only [step_willOverflow, iWr, iRd, low, Bool.false_and, if_true]
    rw [eq_comm, decide_eq_false_iff_not]
    omega
  · simp [iWr]
  · simp [iWr, iRd, under]
  · simp [oData, iWr, under, same]

/-- The word shown when one is read and one comes in: it may be the one that does. -/
theorem shown_both (some : ufifo.willUnderflow = false) {clock : Clock α}
    (iWr : clock.iWr = true) (iRd : clock.iRd = true) :
    (ufifo.step rxfifo clock).oData = (ufifo.step rxfifo clock).fifo ufifo.rNext := by
  have memory : (ufifo.step rxfifo clock).fifo =
      Function.update ufifo.fifo ufifo.rFirst clock.iData := by simp [iWr]
  rw [shown_read some iRd, memory]
  cases last : ufifo.rFirst == ufifo.rNext with
  | true => rw [beq_iff_eq.mp last, Function.update_self, if_pos rfl]
  | false =>
      have apart : ufifo.rNext ≠ ufifo.rFirst := fun same => by
        rw [same, beq_self_eq_true] at last
        cases last
      rw [Function.update_of_ne apart, if_neg Bool.false_ne_true]

/-- A word is read and one comes in. -/
theorem Sound.both_some (sound : ufifo.Sound rxfifo count) {clock : Clock α}
    (iWr : clock.iWr = true) (iRd : clock.iRd = true) (none : count ≠ 0) :
    (ufifo.step rxfifo clock).Sound rxfifo count := by
  have some : ufifo.willUnderflow = false := by simp [sound.willUnderflow, none]
  have first : (ufifo.step rxfifo clock).rFirst = ufifo.rFirst + 1 := by simp [iWr, iRd]
  have next : (ufifo.step rxfifo clock).rLast = ufifo.rLast + 1 := by
    simp [iRd, some, sound.rNext]
  refine ⟨sound.inside, ?_, ?_, ?_, ?_, ?_, fun _ => ?_, ?_⟩
  · rw [first, next, succ_offset, ← offset_succ, sound.rFirst]
  · rw [next]
    simp only [step_rNext, iRd, some, Bool.not_false, Bool.and_self, if_true]
    exact (succ_offset ufifo.rLast 1).symm
  · simp [iWr, iRd, sound.willOverflow]
  · simp [iWr, none]
  · simp [iWr, iRd, some, bne, sound.first_last, none]
  · rw [shown_both some iWr iRd, next, sound.rNext]
  · cases rxfifo with
    | true => simp [iWr, iRd, some, level, sound.difference]
    | false => simp [iWr, iRd, some, sound.rFill]

/-- A write and a read at once. -/
theorem Sound.both (sound : ufifo.Sound rxfifo count) (places : 4 ≤ 2 ^ lg) {clock : Clock α}
    (iWr : clock.iWr = true) (iRd : clock.iRd = true) :
    (ufifo.step rxfifo clock).Sound rxfifo (if count = 0 then 1 else count) := by
  split
  · next none =>
    subst none
    exact sound.both_empty places iWr iRd
  · next some => exact sound.both_some iWr iRd some

/-! ### The queue -/

/-- The words in the queue after a clock. -/
def after (lg count : Nat) (clock : Clock α) : Nat :=
  match clock.iWr, clock.iRd with
  | false, false => count
  | false, true => count - 1
  | true, false => if count + 1 = 2 ^ lg then count else count + 1
  | true, true => if count = 0 then 1 else count

theorem Sound.step (sound : ufifo.Sound rxfifo count) (places : 4 ≤ 2 ^ lg) (clock : Clock α) :
    (ufifo.step rxfifo clock).Sound rxfifo (after lg count clock) := by
  unfold after
  cases iWr : clock.iWr with
  | false =>
      cases iRd : clock.iRd with
      | false => exact sound.idle iWr iRd
      | true => exact sound.read places iWr iRd
  | true =>
      cases iRd : clock.iRd with
      | false => exact sound.write places iWr iRd
      | true => exact sound.both places iWr iRd

/-- What the clock writes comes behind the words in the queue. -/
theorem Sound.pushed (sound : ufifo.Sound rxfifo count) (clock : Clock α) :
    window (ufifo.step rxfifo clock).fifo ufifo.rLast (count + (ufifo.takes clock).length) =
      ufifo.queue count ++ ufifo.takes clock := by
  cases taken : clock.iWr && (clock.iRd || !ufifo.willOverflow) with
  | true =>
      have iWr : clock.iWr = true := (Bool.and_eq_true_iff.mp taken).1
      have new : ufifo.takes clock = [clock.iData] := by rw [takes, taken, if_pos rfl]
      have memory : (ufifo.step rxfifo clock).fifo =
          Function.update ufifo.fifo ufifo.rFirst clock.iData := by simp [iWr]
      rw [new, memory, sound.rFirst]
      exact window_push _ _ sound.inside _
  | false =>
      have none : ufifo.takes clock = [] := by rw [takes, taken, if_neg Bool.false_ne_true]
      rw [none, List.length_nil, Nat.add_zero, List.append_nil]
      exact sound.fifo_step clock

/-- The words in the queue after a clock, and the word read. -/
theorem Sound.after_eq (sound : ufifo.Sound rxfifo count) (clock : Clock α) :
    count + (ufifo.takes clock).length =
      after lg count clock + if clock.iRd && decide (count ≠ 0) then 1 else 0 := by
  have inside := sound.inside
  have flag := sound.willOverflow
  unfold after takes
  cases clock.iWr with
  | false =>
      cases clock.iRd with
      | false => rfl
      | true =>
          by_cases none : count = 0
          · simp [none]
          · simp [none]
            omega
  | true =>
      cases clock.iRd with
      | false =>
          by_cases full : count + 1 = 2 ^ lg
          · simp [flag, full]
          · simp [flag, full]
      | true =>
          by_cases none : count = 0
          · simp [none]
          · simp [none]

/-- The word that is read is the head of the queue. -/
theorem Sound.step_queue (sound : ufifo.Sound rxfifo count) (clock : Clock α) :
    ufifo.queue count ++ ufifo.takes clock =
      ufifo.gives clock ++ (ufifo.step rxfifo clock).queue (after lg count clock) := by
  have pushed := sound.pushed clock
  rw [sound.after_eq clock] at pushed
  cases popped : clock.iRd && decide (count ≠ 0) with
  | false =>
      rw [popped, if_neg Bool.false_ne_true, Nat.add_zero] at pushed
      have none : ufifo.gives clock = [] := by
        rw [gives, oEmptyN, sound.rEmptyN, popped, if_neg Bool.false_ne_true]
      have next : (ufifo.step rxfifo clock).rLast = ufifo.rLast := by
        simp only [step_rLast, sound.willUnderflow, ← decide_not, popped, Bool.false_eq_true,
          if_false]
      rw [none, List.nil_append, ← pushed, queue, next]
  | true =>
      rw [popped, if_pos rfl, window_pop] at pushed
      obtain ⟨asked, some⟩ := Bool.and_eq_true_iff.mp popped
      have positive := of_decide_eq_true some
      have given : ufifo.gives clock = [ufifo.oData] := by
        rw [gives, oEmptyN, sound.rEmptyN, popped, if_pos rfl]
      have next : (ufifo.step rxfifo clock).rLast = ufifo.rLast + 1 := by
        simp only [step_rLast, sound.willUnderflow, ← decide_not, popped, if_true, sound.rNext]
      obtain ⟨before, rfl⟩ := Nat.exists_eq_succ_of_ne_zero positive
      have head : ufifo.oData = (ufifo.step rxfifo clock).fifo ufifo.rLast := by
        rw [sound.shown positive]
        rw [queue, Nat.succ_eq_add_one, window_pop, List.cons_append, List.cons.injEq] at pushed
        exact pushed.1.symm
      rw [given, ← pushed, head, List.singleton_append, queue, next]

/-! ### The status word -/

theorem status_field (size : BitVec 4) (fill : BitVec 10) (half ready : BitVec 1) :
    (size ++ fill ++ half ++ ready : BitVec 16).extractLsb' 2 10 = fill := by
  ext i inside
  have shift : 2 + i - 1 - 1 = i := by omega
  have first : ¬ 2 + i < 1 := by omega
  have second : ¬ 2 + i - 1 < 1 := by omega
  simp only [BitVec.getElem_extractLsb', BitVec.getLsbD_append, shift, inside, first, second,
    if_true, if_false, BitVec.getLsbD_eq_getElem]

theorem level_lt (rxfifo : Bool) (inside : count < 2 ^ lg) : level rxfifo lg count < 2 ^ lg := by
  cases rxfifo with
  | true => exact inside
  | false => exact Nat.lt_of_le_of_lt (Nat.sub_le _ _) (Nat.sub_one_lt_of_lt inside)

theorem Sound.oStatus_fill (sound : ufifo.Sound rxfifo count) :
    ((ufifo.oStatus rxfifo).extractLsb' 2 10).toNat = level rxfifo lg count % 2 ^ 10 := by
  rw [oStatus, status_field, wFill, BitVec.toNat_setWidth, sound.rFill, BitVec.toNat_ofNat,
    Nat.mod_eq_of_lt (level_lt rxfifo sound.inside)]

/-! ### Runs -/

/-- What can be told of the words that have come in and have not been read. The
fill level of the status word has ten bits. -/
structure Presents (rxfifo : Bool) (ufifo : UFifo lg α) (unread : List α) : Prop where
  bounded : unread.length ≤ 2 ^ lg - 1
  shown : ufifo.oEmptyN = true → unread.head? = some ufifo.oData
  hidden : ufifo.oEmptyN = false → unread = []
  refused : ∀ clock, ufifo.refuses clock ≠ [] ↔
    clock.iWr = true ∧ clock.iRd = false ∧ unread.length = 2 ^ lg - 1
  truncated : ((ufifo.oStatus rxfifo).extractLsb' 2 10).toNat =
    level rxfifo lg unread.length % 2 ^ 10
  fill : lg ≤ 10 →
    ((ufifo.oStatus rxfifo).extractLsb' 2 10).toNat = level rxfifo lg unread.length

theorem Sound.presents (sound : ufifo.Sound rxfifo count) :
    ufifo.Presents rxfifo (ufifo.queue count) := by
  have inside := sound.inside
  have length : (ufifo.queue count).length = count := window_length _ _ _
  have truncated := sound.oStatus_fill
  refine ⟨by omega, fun some => ?_, fun none => ?_, fun clock => ?_, ?_, fun narrow => ?_⟩
  · have positive : count ≠ 0 := by simpa [oEmptyN, sound.rEmptyN] using some
    obtain ⟨before, rfl⟩ := Nat.exists_eq_succ_of_ne_zero positive
    rw [sound.shown positive, queue, Nat.succ_eq_add_one, window_pop, List.head?_cons]
  · have zero : count = 0 := by simpa [oEmptyN, sound.rEmptyN] using none
    rw [zero]
    rfl
  · have full : count + 1 = 2 ^ lg ↔ count = 2 ^ lg - 1 := by omega
    rw [length, refuses, sound.willOverflow, ← full]
    cases clock.iWr <;> cases clock.iRd <;> simp
  · rw [length, truncated]
  · have low : level rxfifo lg count < 2 ^ 10 := by
      calc level rxfifo lg count < 2 ^ lg := level_lt rxfifo inside
        _ ≤ 2 ^ 10 := Nat.pow_le_pow_right (by decide) narrow
    rw [length, truncated, Nat.mod_eq_of_lt low]

theorem reset_sound (places : 4 ≤ 2 ^ lg) (rxfifo : Bool) (ufifo : UFifo lg α) (start : Clock α) :
    (ufifo.reset rxfifo start).Sound rxfifo 0 where
  inside := Nat.two_pow_pos lg
  rFirst := (BitVec.add_zero 0).symm
  rNext := (BitVec.zero_add 1).symm
  willOverflow := by
    have room : 0 + 1 ≠ 2 ^ lg := by omega
    rw [decide_eq_false room]
    rfl
  willUnderflow := rfl
  rEmptyN := rfl
  shown none := absurd rfl none
  rFill := by
    cases rxfifo with
    | true => rfl
    | false =>
        change -BitVec.ofNat lg 1 = BitVec.ofNat lg (2 ^ lg - 1)
        rw [BitVec.neg_one_eq_allOnes, ← BitVec.toNat_inj, BitVec.toNat_allOnes, BitVec.toNat_ofNat,
          Nat.mod_eq_of_lt (Nat.sub_one_lt_of_lt (Nat.two_pow_pos lg))]

/-- The words in the queue are conveyed, whatever is asked at a clock. -/
theorem conveys (rxfifo : Bool) (places : 4 ≤ 2 ^ lg) :
    Conveys (step rxfifo) (fun _ _ => True) takes gives
      fun (ufifo : UFifo lg α) unread => ∃ count, ufifo.Sound rxfifo count ∧
        unread = ufifo.queue count := by
  rintro ufifo clock unread ⟨count, sound, rfl⟩ -
  exact ⟨_, sound.step_queue clock, _, sound.step places clock, rfl⟩

/-- The error flag is set by a refusal and stays. -/
theorem oErr_step (rxfifo : Bool) (ufifo : UFifo lg α) (clock : Clock α) :
    (ufifo.step rxfifo clock).oErr = true ↔ ufifo.oErr = true ∨ ufifo.refuses clock ≠ [] := by
  rw [oErr, oErr, step_rOvfl, refuses]
  cases clock.iWr && !(clock.iRd || !ufifo.willOverflow) <;> simp

theorem oErr_run (rxfifo : Bool) (ufifo : UFifo lg α) (clocks : List (Clock α)) :
    (clocked (step rxfifo) ufifo clocks).oErr = true ↔
      ufifo.oErr = true ∨ observed (step rxfifo) refuses ufifo clocks ≠ [] := by
  induction clocks generalizing ufifo with
  | nil => simp [observed]
  | cons clock rest ih =>
      rw [clocked_cons, ih, oErr_step, observed, or_assoc, ne_eq, ne_eq, ne_eq,
        List.append_eq_nil_iff, not_and_or]

/-- From a reset, the words read are the words taken in, in their order, and the
rest of them is presented; the error tells that a word has been refused. -/
theorem ufifo_queues (some : 2 ≤ lg) (rxfifo : Bool) (ufifo : UFifo lg α) (start : Clock α)
    (clocks : List (Clock α)) :
    (∃ unread, observed (step rxfifo) takes (ufifo.reset rxfifo start) clocks =
        observed (step rxfifo) gives (ufifo.reset rxfifo start) clocks ++ unread ∧
      (clocked (step rxfifo) (ufifo.reset rxfifo start) clocks).Presents rxfifo unread) ∧
    ((clocked (step rxfifo) (ufifo.reset rxfifo start) clocks).oErr = true ↔
      observed (step rxfifo) refuses (ufifo.reset rxfifo start) clocks ≠ []) := by
  have places : 4 ≤ 2 ^ lg := by
    calc 4 = 2 ^ 2 := rfl
      _ ≤ 2 ^ lg := Nat.pow_le_pow_right (by decide) some
  have sound := reset_sound places rxfifo ufifo start
  have every : Along (step rxfifo) (fun _ _ => True) (ufifo.reset rxfifo start) clocks :=
    along_of_all (fun _ _ => trivial) _ _
  obtain ⟨unread, order, count, last, rfl⟩ := (conveys rxfifo places).run ⟨0, sound, rfl⟩ every
  have quiet : (ufifo.reset rxfifo start).oErr = false := rfl
  refine ⟨⟨_, order, last.presents⟩, ?_⟩
  rw [oErr_run, quiet]
  simp only [Bool.false_eq_true, false_or]

/-- Four places: a word comes in and is read as the next comes in, and a third
word follows. -/
def fourPlaces : UFifo 2 Nat :=
  ⟨fun _ => 0, 0, 0, 1, false, false, true, 0, 0, 0, 0, false, 0⟩

theorem four_places_queue :
    (∃ unread, observed (step true) takes (fourPlaces.reset true ⟨false, 0, false⟩)
          [⟨true, 5, false⟩, ⟨true, 6, true⟩, ⟨true, 7, false⟩] =
        observed (step true) gives (fourPlaces.reset true ⟨false, 0, false⟩)
          [⟨true, 5, false⟩, ⟨true, 6, true⟩, ⟨true, 7, false⟩] ++ unread ∧
      (clocked (step true) (fourPlaces.reset true ⟨false, 0, false⟩)
        [⟨true, 5, false⟩, ⟨true, 6, true⟩, ⟨true, 7, false⟩]).Presents true unread) ∧
    ((clocked (step true) (fourPlaces.reset true ⟨false, 0, false⟩)
        [⟨true, 5, false⟩, ⟨true, 6, true⟩, ⟨true, 7, false⟩]).oErr = true ↔
      observed (step true) refuses (fourPlaces.reset true ⟨false, 0, false⟩)
        [⟨true, 5, false⟩, ⟨true, 6, true⟩, ⟨true, 7, false⟩] ≠ []) :=
  ufifo_queues (Nat.le_refl 2) true fourPlaces ⟨false, 0, false⟩ _

/-- With more than ten address bits the fill level does not fit its field: 2047
places are free after the reset. -/
theorem fill_truncated :
    ∃ ufifo : UFifo 11 Nat, ∃ start, level false 11 0 = 2047 ∧
      (((ufifo.reset false start).oStatus false).extractLsb' 2 10).toNat = 1023 :=
  ⟨⟨fun _ => 0, 0, 0, 1, false, false, true, 0, 0, 0, 0, false, 0⟩, ⟨false, 0, false⟩, by decide,
    by decide⟩

end UFifo

end ZipVersa.DebugBus
