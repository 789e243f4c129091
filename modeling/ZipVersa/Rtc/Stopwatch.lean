import Mathlib.Data.Nat.Count
import ZipVersa.Lib.Carries
import ZipVersa.Lib.Clocked
import ZipVersa.Lib.Pulses
import ZipVersa.Rtc.Bcd

/-! `rtcstopwatch`, which counts hundredths of a second. -/

set_option autoImplicit false

namespace ZipVersa.Rtc

open Lib

/-- The digits of the 31 bits of a count; bits 15 and 23 are zero. -/
@[ext] structure SwDigits where
  /-- `[3:0]` -/
  hundredths : BitVec 4
  /-- `[7:4]` -/
  tenths : BitVec 4
  /-- `[11:8]` -/
  seconds : BitVec 4
  /-- `[14:12]` -/
  tenSeconds : BitVec 3
  /-- `[19:16]` -/
  minutes : BitVec 4
  /-- `[22:20]` -/
  tenMinutes : BitVec 3
  /-- `[27:24]` -/
  hours : BitVec 4
  /-- `[30:28]` -/
  tenHours : BitVec 3
  deriving DecidableEq, Repr

def SwDigits.zero : SwDigits := ⟨0, 0, 0, 0, 0, 0, 0, 0⟩

/-- `sw_carry`. -/
structure SwCarry where
  carry0 : Bool
  carry1 : Bool
  carry2 : Bool
  carry3 : Bool
  carry4 : Bool
  carry5 : Bool
  carry6 : Bool
  deriving DecidableEq, Repr

def SwCarry.none : SwCarry := ⟨false, false, false, false, false, false, false⟩

structure SwClock where
  iReset : Bool
  iCkstep : BitVec 32
  iClear : Bool
  iStart : Bool
  iStop : Bool

structure Stopwatch where
  counter : SwDigits
  swSubticks : BitVec 46
  swStep : BitVec 37
  lastStep : BitVec 14
  swCarry : SwCarry
  nextSw : SwDigits
  swPpms : Bool
  carry : Bool
  swRunning : Bool

namespace Stopwatch

/-- `sw_step`. -/
def steps (iCkstep : BitVec 32) : BitVec 37 :=
  ((0 : BitVec 1) ++ iCkstep ++ (0 : BitVec 4) : BitVec 37) +
    ((0 : BitVec 2) ++ iCkstep ++ (0 : BitVec 3) : BitVec 37) +
    ((0 : BitVec 5) ++ iCkstep : BitVec 37)

/-- `{ carry, sw_subticks[22:0] }`. -/
def lowSum (sw : Stopwatch) : BitVec 24 :=
  (sw.swSubticks.extractLsb' 0 23).setWidth 24 + (sw.swStep.extractLsb' 0 23).setWidth 24

/-- `{ sw_ppms, sw_subticks[45:23] }`. -/
def highSum (sw : Stopwatch) : BitVec 24 :=
  (sw.swSubticks.extractLsb' 23 23).setWidth 24 + sw.lastStep.setWidth 24 +
    (BitVec.ofBool sw.carry).setWidth 24

def carries (carry : SwCarry) (counter : SwDigits) : SwCarry where
  carry0 := decide (9 ≤ counter.hundredths)
  carry1 := decide (9 ≤ counter.tenths) && carry.carry0
  carry2 := decide (9 ≤ counter.seconds) && carry.carry1
  carry3 := decide (5 ≤ counter.tenSeconds) && carry.carry2
  carry4 := decide (9 ≤ counter.minutes) && carry.carry3
  carry5 := decide (5 ≤ counter.tenMinutes) && carry.carry4
  carry6 := decide (9 ≤ counter.hours) && carry.carry5

/-- `next_sw`, whose top digit keeps its value without a carry. -/
def nexts (carry : SwCarry) (counter nextSw : SwDigits) : SwDigits where
  hundredths := stepDigit carry.carry0 true counter.hundredths
  tenths := stepDigit carry.carry1 carry.carry0 counter.tenths
  seconds := stepDigit carry.carry2 carry.carry1 counter.seconds
  tenSeconds := stepDigit carry.carry3 carry.carry2 counter.tenSeconds
  minutes := stepDigit carry.carry4 carry.carry3 counter.minutes
  tenMinutes := stepDigit carry.carry5 carry.carry4 counter.tenMinutes
  hours := stepDigit carry.carry6 carry.carry5 counter.hours
  tenHours := if carry.carry6 then counter.tenHours + 1 else nextSw.tenHours

/-- A hundredth of a second is counted. -/
def counts (sw : Stopwatch) : Bool := sw.swPpms && sw.swRunning

def step (sw : Stopwatch) (clock : SwClock) : Stopwatch :=
  let moves := clock.iStart || (sw.swRunning && !clock.iStop)
  { counter :=
      if clock.iReset || clock.iClear then .zero
      else if sw.counts then sw.nextSw
      else sw.counter
    swSubticks :=
      if clock.iReset then 0
      else if moves then sw.highSum.extractLsb' 0 23 ++ sw.lowSum.extractLsb' 0 23
      else sw.swSubticks
    swStep := steps clock.iCkstep
    lastStep := sw.swStep.extractLsb' 23 14
    swCarry :=
      if clock.iReset || clock.iClear then .none else carries sw.swCarry sw.counter
    nextSw :=
      if clock.iReset || clock.iClear then .zero else nexts sw.swCarry sw.counter sw.nextSw
    swPpms :=
      if clock.iReset then false else if moves then sw.highSum.getLsbD 23 else false
    carry :=
      if clock.iReset then false else if moves then sw.lowSum.getLsbD 23 else sw.carry
    swRunning :=
      if clock.iReset || clock.iStop then false else clock.iStart || sw.swRunning }

def oValue (sw : Stopwatch) : SwDigits := sw.counter

end Stopwatch

/-! ### Digits and carries of a count -/

/-- Hundredths of a second in one of each digit. -/
def weight : Nat → Nat
  | 0 => 1
  | 1 => 10
  | 2 => 100
  | 3 => 1000
  | 4 => 6000
  | 5 => 60000
  | 6 => 360000
  | _ => 3600000

/-- The places at which the digit of a count is at its largest. -/
def lasts (count : Nat) : Nat → Bool
  | 0 => count % 10 == 9
  | 1 => count / 10 % 10 == 9
  | 2 => count / 100 % 10 == 9
  | 3 => count / 1000 % 6 == 5
  | 4 => count / 6000 % 10 == 9
  | 5 => count / 60000 % 6 == 5
  | 6 => count / 360000 % 10 == 9
  | _ => false

/-- The carries into a count. -/
def carriedTo (count place : Nat) : Bool := count != 0 && count % weight (place + 1) == 0

/-- The digits below the tens of hours. -/
structure ShowsLow (digits : SwDigits) (count : Nat) : Prop where
  hundredths : digits.hundredths.toNat = count / 1 % 10
  tenths : digits.tenths.toNat = count / 10 % 10
  seconds : digits.seconds.toNat = count / 100 % 10
  tenSeconds : digits.tenSeconds.toNat = count / 1000 % 6
  minutes : digits.minutes.toNat = count / 6000 % 10
  tenMinutes : digits.tenMinutes.toNat = count / 60000 % 6
  hours : digits.hours.toNat = count / 360000 % 10

theorem ShowsLow.ext {first second : SwDigits} {count : Nat} (one : ShowsLow first count)
    (other : ShowsLow second count) (top : first.tenHours = second.tenHours) : first = second :=
  SwDigits.ext (BitVec.eq_of_toNat_eq (one.hundredths.trans other.hundredths.symm))
    (BitVec.eq_of_toNat_eq (one.tenths.trans other.tenths.symm))
    (BitVec.eq_of_toNat_eq (one.seconds.trans other.seconds.symm))
    (BitVec.eq_of_toNat_eq (one.tenSeconds.trans other.tenSeconds.symm))
    (BitVec.eq_of_toNat_eq (one.minutes.trans other.minutes.symm))
    (BitVec.eq_of_toNat_eq (one.tenMinutes.trans other.tenMinutes.symm))
    (BitVec.eq_of_toNat_eq (one.hours.trans other.hours.symm)) top

/-- Hours, minutes, seconds and hundredths of a count, modulo eighty hours. -/
def Shows (digits : SwDigits) (count : Nat) : Prop :=
  ShowsLow digits count ∧ digits.tenHours.toNat = count / 3600000 % 8

theorem weight_succ {place : Nat} (within : place < 6) : ∃ base, 0 < base ∧
    weight (place + 2) = weight (place + 1) * base ∧ ∀ count,
      lasts count (place + 1) = true ↔ count / weight (place + 1) % base + 1 = base := by
  have digit (value base : Nat) : value % (base + 1) == base ↔ value % (base + 1) + 1 = base + 1 := by
    rw [beq_iff_eq, Nat.succ_inj]
  match place, within with
  | 0, _ | 1, _ | 3, _ | 5, _ => exact ⟨10, by decide, rfl, fun _ => digit _ 9⟩
  | 2, _ | 4, _ => exact ⟨6, by decide, rfl, fun _ => digit _ 5⟩

theorem weight_le {low high : Nat} (below : low ≤ high) : weight low ≤ weight high := by
  induction below with
  | refl => exact Nat.le_refl _
  | @step high _ ih =>
      refine Nat.le_trans ih ?_
      match high with
      | 0 | 1 | 2 | 3 | 4 | 5 | 6 => decide
      | _ + 7 => exact Nat.le_refl _

theorem weight_pos (place : Nat) : 0 < weight place :=
  Nat.lt_of_lt_of_le Nat.zero_lt_one (weight_le (Nat.zero_le place))

theorem fullCarry_lasts (count : Nat) {place : Nat} (within : place ≤ 6) :
    fullCarry (lasts count) place = decide ((count + 1) % weight (place + 1) = 0) := by
  have whole (weight : Nat) (some : 0 < weight) :
      (count + 1) % weight = 0 ↔ count % weight + 1 = weight := by
    obtain ⟨less, rfl⟩ := Nat.exists_eq_succ_of_ne_zero some.ne'
    rw [Nat.succ_mod_succ_eq_zero_iff, Nat.succ_inj]
  induction place with
  | zero =>
      rw [fullCarry, lasts, weight, Bool.eq_iff_iff, beq_iff_eq, decide_eq_true_iff]
      omega
  | succ place ih =>
      obtain ⟨base, some, next, last⟩ := weight_succ (show place < 6 by omega)
      rw [fullCarry, ih (by omega), Bool.eq_iff_iff, Bool.and_eq_true, decide_eq_true_iff,
        decide_eq_true_iff, whole _ (weight_pos _), whole _ (weight_pos _), last, next,
        mod_add_eq_iff Nat.zero_lt_one (weight_pos _) some]

/-- A digit of the next count. -/
theorem stepDigit_next {w weight radix count : Nat} {digit : BitVec w} {wraps carry : Bool}
    (fits : radix ≤ 2 ^ w) (positive : 0 < weight) (some : 0 < radix)
    (now : digit.toNat = count / weight % radix)
    (carried : carry = decide ((count + 1) % weight = 0))
    (wrapped : wraps = decide ((count + 1) % (weight * radix) = 0)) :
    (stepDigit wraps carry digit).toNat = (count + 1) / weight % radix := by
  rw [stepDigit, carried, wrapped]
  have zero : (0 : BitVec w).toNat = 0 := rfl
  have below := Nat.mod_lt (count / weight) some
  by_cases carries : (count + 1) % weight = 0
  · have product : weight * (count / weight + 1) = count + 1 := by
      rw [← Nat.succ_div_of_mod_eq_zero carries]
      exact Nat.mul_div_cancel' (Nat.dvd_of_mod_eq_zero carries)
    rw [Nat.succ_div_of_mod_eq_zero carries, ← product, Nat.mul_mod_mul_left, Nat.mul_mod_right,
      ← Nat.mod_add_mod (count / weight)]
    rcases Nat.lt_or_eq_of_le (Nat.succ_le_of_lt below) with less | full
    · rw [Nat.mod_eq_of_lt less, if_neg, decide_eq_true rfl, if_pos rfl, toNat_add_one (by omega), now]
      exact fun wraps => absurd (of_decide_eq_true wraps) (Nat.mul_ne_zero positive.ne' (Nat.succ_ne_zero _))
    · have full : count / weight % radix + 1 = radix := full
      rw [full, Nat.mod_self, Nat.mul_zero, decide_eq_true rfl, if_pos rfl, zero]
  · have kept : (count + 1) % (weight * radix) ≠ 0 := fun wraps => carries
      (Nat.mod_eq_zero_of_dvd (Nat.dvd_trans (Nat.dvd_mul_right _ _) (Nat.dvd_of_mod_eq_zero wraps)))
    rw [Nat.succ_div_of_mod_ne_zero carries, decide_eq_false carries, decide_eq_false kept,
      if_neg Bool.false_ne_true, if_neg Bool.false_ne_true, now]

/-- The carry register of a place. -/
def SwCarry.place (carry : SwCarry) : Nat → Bool
  | 0 => carry.carry0
  | 1 => carry.carry1
  | 2 => carry.carry2
  | 3 => carry.carry3
  | 4 => carry.carry4
  | 5 => carry.carry5
  | 6 => carry.carry6
  | _ => false

theorem ShowsLow.next {carry : SwCarry} {counter nextSw : SwDigits} {count : Nat}
    (low : ShowsLow counter count)
    (settled : ∀ place ≤ 6, carry.place place = decide ((count + 1) % weight (place + 1) = 0)) :
    ShowsLow (Stopwatch.nexts carry counter nextSw) (count + 1) where
  hundredths := stepDigit_next (by decide) (by decide) (by decide) low.hundredths
    (decide_eq_true (Nat.mod_one _)).symm (settled 0 (by decide))
  tenths := stepDigit_next (by decide) (by decide) (by decide) low.tenths
    (settled 0 (by decide)) (settled 1 (by decide))
  seconds := stepDigit_next (by decide) (by decide) (by decide) low.seconds
    (settled 1 (by decide)) (settled 2 (by decide))
  tenSeconds := stepDigit_next (by decide) (by decide) (by decide) low.tenSeconds
    (settled 2 (by decide)) (settled 3 (by decide))
  minutes := stepDigit_next (by decide) (by decide) (by decide) low.minutes
    (settled 3 (by decide)) (settled 4 (by decide))
  tenMinutes := stepDigit_next (by decide) (by decide) (by decide) low.tenMinutes
    (settled 4 (by decide)) (settled 5 (by decide))
  hours := stepDigit_next (by decide) (by decide) (by decide) low.hours
    (settled 5 (by decide)) (settled 6 (by decide))

theorem at_top {w value : Nat} {top digit : BitVec w} (now : digit.toNat = value)
    (below : value ≤ top.toNat) : decide (top ≤ digit) = (value == top.toNat) := by
  rw [Bool.eq_iff_iff, decide_eq_true_iff, beq_iff_eq, BitVec.le_def, now]
  omega

/-- One clock of the chain. -/
theorem carries_piped {carry : SwCarry} {counter : SwDigits} {count age : Nat}
    (low : ShowsLow counter count)
    (piped : ∀ place ≤ 6,
      carry.place place = pipedCarry (lasts count) (carriedTo count) age place) :
    ∀ place ≤ 6, (Stopwatch.carries carry counter).place place =
      pipedCarry (lasts count) (carriedTo count) (age + 1) place := by
  have ten (part : Nat) : part % 10 ≤ 9 := Nat.le_of_lt_succ (Nat.mod_lt _ (by decide))
  have six (part : Nat) : part % 6 ≤ 5 := Nat.le_of_lt_succ (Nat.mod_lt _ (by decide))
  intro place within
  match place, within with
  | 0, _ =>
      have hundredths := low.hundredths
      rw [Nat.div_one] at hundredths
      exact at_top hundredths (ten _)
  | 1, _ => exact congrArg₂ and (at_top low.tenths (ten _)) (piped 0 (by decide))
  | 2, _ => exact congrArg₂ and (at_top low.seconds (ten _)) (piped 1 (by decide))
  | 3, _ => exact congrArg₂ and (at_top low.tenSeconds (six _)) (piped 2 (by decide))
  | 4, _ => exact congrArg₂ and (at_top low.minutes (ten _)) (piped 3 (by decide))
  | 5, _ => exact congrArg₂ and (at_top low.tenMinutes (six _)) (piped 4 (by decide))
  | 6, _ => exact congrArg₂ and (at_top low.hours (ten _)) (piped 5 (by decide))

/-! ### The tens of hours -/

/-- The top carry has been set since the count changed. -/
def flew (count : Nat) : Nat → Bool
  | 0 => false
  | age + 1 => flew count age || pipedCarry (lasts count) (carriedTo count) age 6

def weights : List Nat := [1, 10, 100, 1000, 6000, 60000, 360000]

/-- The counts before ten hours that the tens of hours count as well, passed
before the last tick: 9:00, 9:50, 9:59, and so on to 9:59:59.99. -/
def jumps (count : Nat) : Nat :=
  weights.countP fun weight => 3600000 ≤ (count - 1) % 3600000 + weight

theorem lasts_zero (place : Nat) : lasts 0 place = false := by
  match place with
  | 0 | 1 | 2 | 3 | 4 | 5 | 6 => rfl
  | place + 7 => rfl

theorem pipedCarry_zero (age place : Nat) :
    pipedCarry (lasts 0) (carriedTo 0) age place = false := by
  induction age generalizing place with
  | zero => rfl
  | succ age ih =>
      cases place with
      | zero => rfl
      | succ place => rw [pipedCarry, lasts_zero, Bool.false_and]

/-- The carries that have settled are those of the next count. -/
theorem piped_settled {count age : Nat} (ready : 7 ≤ age ∨ count = 0) {place : Nat}
    (within : place ≤ 6) : pipedCarry (lasts count) (carriedTo count) age place =
      decide ((count + 1) % weight (place + 1) = 0) := by
  rcases ready with late | rfl
  · rw [pipedCarry_settled (by omega), fullCarry_lasts count within]
  · rw [pipedCarry_zero]
    match place, within with
    | 0, _ | 1, _ | 2, _ | 3, _ | 4, _ | 5, _ | 6, _ => rfl

theorem piped_iff {count age place : Nat} (some : count ≠ 0) (within : place ≤ 6)
    (early : age ≤ place + 1) : pipedCarry (lasts count) (carriedTo count) age place = true ↔
      count % weight (place + 1) + weight (place + 1 - age) = weight (place + 1) := by
  induction age generalizing place with
  | zero =>
      rw [pipedCarry, carriedTo, Bool.and_eq_true, bne_iff_ne, beq_iff_eq, Nat.sub_zero]
      omega
  | succ age ih =>
      cases place with
      | zero =>
          rw [Nat.le_zero.mp (Nat.le_of_succ_le_succ early), pipedCarry, lasts, beq_iff_eq]
          exact Nat.succ_inj.symm
      | succ place =>
          obtain ⟨base, positive, next, last⟩ := weight_succ (show place < 6 by omega)
          rw [pipedCarry, Bool.and_eq_true, ih (by omega) (by omega), last, next,
            Nat.succ_sub_succ, mod_add_eq_iff (weight_pos _) (weight_le (Nat.sub_le _ _)) positive]

theorem top_piped_iff {count age : Nat} (some : count ≠ 0) (early : age ≤ 7) :
    pipedCarry (lasts count) (carriedTo count) age 6 = true ↔
      count % 3600000 + weight (7 - age) = 3600000 :=
  piped_iff some (Nat.le_refl 6) early

theorem flew_iff_exists {count age : Nat} : flew count age = true ↔
    ∃ before < age, pipedCarry (lasts count) (carriedTo count) before 6 = true := by
  induction age with
  | zero => simp [flew]
  | succ age ih =>
      rw [flew, Bool.or_eq_true, ih]
      constructor
      · rintro (⟨before, less, set⟩ | set)
        · exact ⟨before, Nat.lt_succ_of_lt less, set⟩
        · exact ⟨age, Nat.lt_succ_self _, set⟩
      · rintro ⟨before, less, set⟩
        rcases Nat.lt_succ_iff_lt_or_eq.mp less with earlier | rfl
        · exact .inl ⟨before, earlier, set⟩
        · exact .inr set

/-- The top carry flies by exactly at those counts, and where the hours end. -/
theorem flew_iff {count age : Nat} (ready : 8 ≤ age ∨ count = 0) :
    flew count age = true ↔
      count ≠ 0 ∧ (count % 3600000 = 0 ∨ 3600000 - count % 3600000 ∈ weights) := by
  rw [flew_iff_exists]
  rcases Nat.eq_zero_or_pos count with rfl | positive
  · simp only [pipedCarry_zero, Bool.false_eq_true, and_false, exists_false, ne_eq, not_true,
      false_and]
  · have some : count ≠ 0 := positive.ne'
    have late : 8 ≤ age := ready.resolve_right some
    have weighs : (count % 3600000 = 0 ∨ 3600000 - count % 3600000 ∈ weights) ↔
        ∃ place ≤ 7, count % 3600000 + weight place = 3600000 := by
      have below := Nat.mod_lt count (show 0 < 3600000 by decide)
      simp only [weights, List.mem_cons, List.not_mem_nil, or_false]
      constructor
      · rintro (zero | one | two | three | four | five | six | seven)
        · exact ⟨7, by decide, by rw [zero]; rfl⟩
        · exact ⟨0, by decide, by rw [weight]; omega⟩
        · exact ⟨1, by decide, by rw [weight]; omega⟩
        · exact ⟨2, by decide, by rw [weight]; omega⟩
        · exact ⟨3, by decide, by rw [weight]; omega⟩
        · exact ⟨4, by decide, by rw [weight]; omega⟩
        · exact ⟨5, by decide, by rw [weight]; omega⟩
        · exact ⟨6, by decide, by rw [weight]; omega⟩
      · rintro ⟨place, within, weighs⟩
        match place, within with
        | 0, _ | 1, _ | 2, _ | 3, _ | 4, _ | 5, _ | 6, _ | 7, _ =>
            simp only [weight] at weighs
            omega
    rw [weighs]
    constructor
    · rintro ⟨before, _, set⟩
      rcases Nat.lt_or_ge before 8 with early | settled
      · exact ⟨some, 7 - before, Nat.sub_le _ _, (top_piped_iff some (by omega)).mp set⟩
      · have settles (late : Nat) (enough : 7 ≤ late) :
            pipedCarry (lasts count) (carriedTo count) late 6 = _ :=
          piped_settled (.inl enough) (Nat.le_refl 6)
        rw [settles before (by omega), ← settles 7 (Nat.le_refl 7)] at set
        exact ⟨some, 0, by decide, (top_piped_iff some (Nat.le_refl 7)).mp set⟩
    · rintro ⟨_, place, within, weighs⟩
      refine ⟨7 - place, by omega, (top_piped_iff some (Nat.sub_le _ _)).mpr ?_⟩
      rwa [Nat.sub_sub_self within]

/-- One more count passes the bounds that it just reaches. -/
theorem countP_passed {bound passed : Nat} (inside : passed + 1 ≤ bound) (list : List Nat) :
    list.countP (fun weight => bound ≤ passed + 1 + weight) =
      list.countP (fun weight => bound ≤ passed + weight) + list.count (bound - (passed + 1)) := by
  induction list with
  | nil => rfl
  | cons weight rest ih =>
      rw [List.countP_cons, List.countP_cons, List.count_cons, ih]
      simp only [decide_eq_true_iff, beq_iff_eq]
      split_ifs <;> omega

theorem jumps_next (count : Nat) : jumps (count + 1) % 8 =
    (jumps count + if count ≠ 0 ∧ (count % 3600000 = 0 ∨ 3600000 - count % 3600000 ∈ weights)
      then 1 else 0) % 8 := by
  rcases Nat.eq_zero_or_pos count with rfl | positive
  · decide
  have reached : count % 3600000 = 0 ∨ count % 3600000 = (count - 1) % 3600000 + 1 := by omega
  rw [jumps, jumps, Nat.add_sub_cancel]
  rcases reached with ends | inside
  · have before : (count - 1) % 3600000 = 3599999 := by omega
    rw [if_pos ⟨positive.ne', .inl ends⟩, ends, before]
    decide
  · have some : count % 3600000 ≠ 0 := by omega
    have distinct : weights.Nodup := by decide
    rw [inside, countP_passed (Nat.mod_lt _ (by decide)), distinct.count]
    simp only [← inside, ne_eq, positive.ne', not_false_eq_true, some, false_or, true_and]

/-! ### Runs -/

namespace Stopwatch

/-- The registers some clocks after a count was reached. -/
structure Counting (sw : Stopwatch) (count age : Nat) : Prop where
  low : ShowsLow sw.counter count
  top : sw.counter.tenHours.toNat = jumps count % 8
  piped : ∀ place ≤ 6,
    sw.swCarry.place place = pipedCarry (lasts count) (carriedTo count) age place
  next : 8 ≤ age ∨ count = 0 ∧ 0 < age → ShowsLow sw.nextSw (count + 1)
  nextTop : sw.nextSw.tenHours =
    if flew count age then sw.counter.tenHours + 1 else sw.counter.tenHours
  fresh : age = 0 → ShowsLow sw.nextSw count

theorem zero_shows : ShowsLow .zero 0 := ⟨rfl, rfl, rfl, rfl, rfl, rfl, rfl⟩

variable {sw : Stopwatch} {clock : SwClock} {count age : Nat}

theorem step_clear (clears : (clock.iReset || clock.iClear) = true) :
    Counting (sw.step clock) 0 0 := by
  have counter : (sw.step clock).counter = .zero := if_pos clears
  have carry : (sw.step clock).swCarry = .none := if_pos clears
  have next : (sw.step clock).nextSw = .zero := if_pos clears
  constructor
  case low => rw [counter]; exact zero_shows
  case top => rw [counter]; decide
  case piped =>
    intro place within
    rw [carry]
    match place, within with
    | 0, _ | 1, _ | 2, _ | 3, _ | 4, _ | 5, _ | 6, _ => rfl
  case next => exact fun never => absurd never (by decide)
  case nextTop => rw [counter, next]; rfl
  case fresh => rw [next]; exact fun _ => zero_shows

/-- What the carries and the next count become on every other clock. -/
theorem step_registers (sw : Stopwatch) (kept : (clock.iReset || clock.iClear) = false) :
    (sw.step clock).counter = (if sw.counts then sw.nextSw else sw.counter) ∧
      (sw.step clock).swCarry = carries sw.swCarry sw.counter ∧
      (sw.step clock).nextSw = nexts sw.swCarry sw.counter sw.nextSw := by
  simp only [step, kept, Bool.false_eq_true, if_false, and_self]

theorem Counting.settled (counting : Counting sw count age) (ready : 7 ≤ age ∨ count = 0) :
    ShowsLow (nexts sw.swCarry sw.counter sw.nextSw) (count + 1) :=
  counting.low.next fun place within => by
    rw [counting.piped place within, piped_settled ready within]

/-- A clock on which the count stays. -/
theorem Counting.stay (counting : Counting sw count age)
    (kept : (clock.iReset || clock.iClear) = false) (still : (sw.step clock).counter = sw.counter) :
    Counting (sw.step clock) count (age + 1) := by
  obtain ⟨_, carry, next⟩ := step_registers sw kept
  constructor
  case low => rw [still]; exact counting.low
  case top => rw [still]; exact counting.top
  case piped => rw [carry]; exact carries_piped counting.low counting.piped
  case next =>
    intro ready
    rw [next]
    exact counting.settled (by omega)
  case nextTop =>
    have top : sw.swCarry.carry6 = pipedCarry (lasts count) (carriedTo count) age 6 :=
      counting.piped 6 (Nat.le_refl 6)
    rw [next, still, nexts, top, flew, counting.nextTop]
    cases flew count age <;> cases pipedCarry (lasts count) (carriedTo count) age 6 <;> rfl
  case fresh => exact fun none => absurd none (Nat.succ_ne_zero age)

/-- Right after the clear a tick changes nothing. -/
theorem Counting.cleared (counting : Counting sw 0 0) : sw.nextSw = sw.counter :=
  (counting.fresh rfl).ext counting.low counting.nextTop

/-- Before the next tick the top carry has flown by if it does. -/
theorem Counting.tops (counting : Counting sw count age) (ready : 8 ≤ age ∨ count = 0) :
    sw.nextSw.tenHours.toNat = jumps (count + 1) % 8 ∧
      (sw.swCarry.carry6 = true → sw.nextSw.tenHours = sw.counter.tenHours + 1) := by
  have top : sw.swCarry.carry6 = pipedCarry (lasts count) (carriedTo count) age 6 :=
    counting.piped 6 (Nat.le_refl 6)
  have flies := flew_iff ready
  constructor
  · rw [counting.nextTop, jumps_next, ← Nat.mod_add_mod, ← counting.top]
    by_cases jumping : flew count age = true
    · rw [if_pos jumping, if_pos (flies.mp jumping), BitVec.toNat_add]
      rfl
    · rw [if_neg jumping, if_neg fun jumps => jumping (flies.mpr jumps), Nat.add_zero,
        Nat.mod_eq_of_lt sw.counter.tenHours.isLt]
  · intro set
    rw [top] at set
    have jumping : flew count age = true := by
      rcases ready with late | rfl
      · rw [piped_settled (.inl (by omega)) (Nat.le_refl 6)] at set
        refine flew_iff_exists.mpr ⟨7, by omega, ?_⟩
        rw [piped_settled (.inl (Nat.le_refl 7)) (Nat.le_refl 6), set]
      · rw [pipedCarry_zero] at set
        cases set
    rw [counting.nextTop, if_pos jumping]

theorem Counting.tick (counting : Counting sw count age)
    (kept : (clock.iReset || clock.iClear) = false) (counts : sw.counts = true)
    (ready : 8 ≤ age ∨ count = 0 ∧ 0 < age) : Counting (sw.step clock) (count + 1) 0 := by
  obtain ⟨counter, carry, next⟩ := step_registers sw kept
  rw [if_pos counts] at counter
  have settled : 7 ≤ age ∨ count = 0 := by omega
  obtain ⟨top, set⟩ := counting.tops (by omega)
  constructor
  case low => rw [counter]; exact counting.next ready
  case top => rw [counter]; exact top
  case piped =>
    intro place within
    rw [carry, carries_piped counting.low counting.piped place within,
      piped_settled (by omega) within]
    rfl
  case next => exact fun never => absurd never (by omega)
  case nextTop =>
    rw [next, counter, flew]
    cases carries : sw.swCarry.carry6 with
    | true => rw [nexts, carries, set carries]; rfl
    | false => rw [nexts, carries]; rfl
  case fresh => rw [next]; exact fun _ => counting.settled settled

theorem jumps_lt (count : Nat) : jumps count < 8 :=
  Nat.lt_succ_of_le List.countP_le_length

section Run

variable {inputs : Nat → SwClock} {sw : Stopwatch}

/-- The ticks counted before a clock. -/
def ticks (sw : Stopwatch) (inputs : Nat → SwClock) (time : Nat) : Nat :=
  Nat.count (fun before => (streamed step sw inputs before).counts = true) time

/-- A tick on the first clock is lost. -/
def lost (sw : Stopwatch) (time : Nat) : Nat := if 0 < time ∧ sw.counts = true then 1 else 0

theorem lost_succ {time : Nat} (first : 0 < time ∨ sw.counts = false) :
    lost sw (time + 1) = lost sw time := by
  rw [lost, lost]
  rcases first with later | untouched
  · simp only [later, Nat.succ_pos]
  · simp only [untouched, Bool.false_eq_true, and_false]

/-- The count at every clock after a clear. -/
theorem counting_at (cleared : Counting sw 0 0)
    (kept : ∀ time, ((inputs time).iReset || (inputs time).iClear) = false)
    (apart : Apart 10 fun time => (streamed step sw inputs time).swPpms) (time : Nat) :
    ∃ count age, Counting (streamed step sw inputs time) count age ∧
      count + lost sw time = ticks sw inputs time ∧ (time = 0 → age = 0) ∧
      (0 < time → 0 < count ∨ 0 < age) ∧
      (0 < count → since 10 (fun time => (streamed step sw inputs time).swPpms) time ≤ age) := by
  induction time with
  | zero =>
      exact ⟨0, 0, cleared, by simp [lost, ticks], fun _ => rfl, fun never => absurd never (by decide),
        fun never => absurd never (by decide)⟩
  | succ time ih =>
      obtain ⟨count, age, counting, total, start, moved, waited⟩ := ih
      have total' := Nat.count_succ (fun before => (streamed step sw inputs before).counts = true) time
      by_cases tick : (streamed step sw inputs time).counts = true
      · rw [if_pos tick] at total'
        rcases Nat.eq_zero_or_pos time with rfl | later
        · have none : count = 0 := Nat.eq_zero_of_add_eq_zero_right total
          obtain rfl := start rfl
          subst none
          refine ⟨0, 1, counting.stay (kept 0) ?_, ?_, fun never => absurd never (by decide),
            fun _ => .inr Nat.one_pos, fun never => absurd never (by decide)⟩
          · rw [(step_registers _ (kept 0)).1, if_pos tick, counting.cleared]
          · rw [ticks, total', lost, if_pos ⟨Nat.one_pos, tick⟩]
            rfl
        · have ready : 8 ≤ age ∨ count = 0 ∧ 0 < age := by
            have late := apart.since_ge ((Bool.and_eq_true _ _).mp tick).1
            have := moved later
            omega
          refine ⟨count + 1, 0, counting.tick (kept time) tick ready, ?_,
            fun never => absurd never (Nat.succ_ne_zero time), fun _ => .inl (Nat.succ_pos count),
            fun _ => ?_⟩
          · rw [ticks, total', ← ticks, ← total, lost_succ (.inl later)]
            omega
          · rw [since, ((Bool.and_eq_true _ _).mp tick).1]
            exact Nat.le_refl 0
      · rw [if_neg tick] at total'
        have first : 0 < time ∨ sw.counts = false := by
          rcases Nat.eq_zero_or_pos time with rfl | later
          · exact .inr (Bool.eq_false_of_not_eq_true tick)
          · exact .inl later
        refine ⟨count, age + 1, counting.stay (kept time) ?_, ?_,
          fun never => absurd never (Nat.succ_ne_zero time), fun _ => .inr (Nat.succ_pos age),
          fun some => Nat.le_trans (aged_le _ _) (Nat.succ_le_succ (waited some))⟩
        · rw [(step_registers _ (kept time)).1, if_neg tick]
        · rw [ticks, total', ← ticks, ← total, lost_succ first, Nat.add_zero]

/-- The upper half of the sub-ticks. -/
def fraction (sw : Stopwatch) : Nat := (sw.swSubticks.extractLsb' 23 23).toNat

theorem highSum_toNat (sw : Stopwatch) :
    sw.highSum.toNat = sw.fraction + sw.lastStep.toNat + sw.carry.toNat := by
  have fraction : sw.fraction < 2 ^ 23 := BitVec.isLt _
  have step := sw.lastStep.isLt
  have carry := Bool.toNat_le sw.carry
  rw [highSum, BitVec.toNat_add, BitVec.toNat_add, BitVec.toNat_setWidth_of_le (by decide),
    BitVec.toNat_setWidth_of_le (by decide), BitVec.toNat_setWidth_of_le (by decide),
    BitVec.toNat_ofBool, ← Stopwatch.fraction, Nat.mod_eq_of_lt (by omega),
    Nat.mod_eq_of_lt (by omega)]

/-- A clock that moves the sub-ticks. -/
theorem step_moves (sw : Stopwatch) (clock : SwClock) (running : clock.iReset = false)
    (moves : (clock.iStart || (sw.swRunning && !clock.iStop)) = true) :
    (sw.step clock).fraction = sw.highSum.toNat % 2 ^ 23 ∧
      (sw.step clock).swPpms = decide (2 ^ 23 ≤ sw.highSum.toNat) := by
  have below := sw.highSum.isLt
  simp only [step, fraction, running, moves, Bool.false_eq_true, if_false, if_true]
  constructor
  · rw [BitVec.extractLsb'_append_eq_left, BitVec.extractLsb'_toNat, Nat.shiftRight_zero]
  · rw [← BitVec.testBit_toNat, Nat.testBit_eq_decide_div_mod_eq, decide_eq_decide]
    omega

/-- One clock of it: less than a 511th of the way to a tick. -/
theorem step_fraction (sw : Stopwatch) (clock : SwClock) :
    if (sw.step clock).swPpms then
      2 ^ 23 ≤ sw.fraction + 2 ^ 14 ∧ (sw.step clock).fraction ≤ 2 ^ 14
    else (sw.step clock).fraction ≤ sw.fraction + 2 ^ 14 := by
  have step := sw.lastStep.isLt
  have carry := Bool.toNat_le sw.carry
  have sum := highSum_toNat sw
  cases running : clock.iReset with
  | true =>
      simp only [Stopwatch.step, running, if_true, Bool.false_eq_true, if_false, fraction]
      exact Nat.zero_le _
  | false =>
      cases moves : (clock.iStart || (sw.swRunning && !clock.iStop)) with
      | true =>
          obtain ⟨moved, ppms⟩ := step_moves sw clock running moves
          rw [moved, ppms]
          have fraction : sw.fraction < 2 ^ 23 := BitVec.isLt _
          by_cases passes : 2 ^ 23 ≤ sw.highSum.toNat
          · rw [if_pos (decide_eq_true passes)]
            omega
          · rw [if_neg (by simpa using passes)]
            omega
      | false =>
          simp only [Stopwatch.step, running, moves, Bool.false_eq_true, if_false, fraction]
          exact Nat.le_add_right _ _

/-- The ticks of any run are far apart. -/
theorem ticks_apart (start : Stopwatch) (clock : SwClock) (inputs : Nat → SwClock) :
    Apart 10 fun time => (streamed step (start.step clock) inputs time).swPpms := by
  refine Apart.of_level (2 ^ 14) (2 ^ 23)
    (fun time => (streamed step (start.step clock) inputs time).fraction) (by decide) (by decide) ?_
    fun time => step_fraction _ _
  have first := step_fraction start clock
  have below : (start.step clock).fraction < 2 ^ 23 := BitVec.isLt _
  change if (start.step clock).swPpms then (start.step clock).fraction ≤ 2 ^ 14
    else (start.step clock).fraction ≤ 2 ^ 23
  split_ifs at first ⊢
  · exact first.2
  · exact Nat.le_of_lt below

/-- Without a tick on the clock after the clear all of them are counted. -/
theorem counting_all (sw : Stopwatch) (clear : SwClock) (inputs : Nat → SwClock)
    (cleared : (clear.iReset || clear.iClear) = true)
    (kept : ∀ time, ((inputs time).iReset || (inputs time).iClear) = false)
    (still : (sw.step clear).counts = false) (time : Nat) :
    ∃ age, Counting (streamed step (sw.step clear) inputs time)
      (ticks (sw.step clear) inputs time) age := by
  obtain ⟨count, age, counting, sum, _⟩ :=
    counting_at (step_clear cleared) kept (ticks_apart sw clear inputs) time
  have none : lost (sw.step clear) time = 0 := if_neg fun first => by
    rw [still] at first
    cases first.2
  rw [none, Nat.add_zero] at sum
  exact ⟨age, sum ▸ counting⟩

/-- The digits are those of the ticks exactly if no tick came on the clock after
the clear and the tens of hours are at the value of the jumps. -/
theorem watch_shows_iff (sw : Stopwatch) (clear : SwClock) (inputs : Nat → SwClock)
    (cleared : (clear.iReset || clear.iClear) = true)
    (kept : ∀ time, ((inputs time).iReset || (inputs time).iClear) = false) (time : Nat) :
    let count := ticks (sw.step clear) inputs time
    Shows (streamed step (sw.step clear) inputs time).oValue count ↔
      count = 0 ∨ (sw.step clear).counts = false ∧ count / 3600000 % 8 = jumps count := by
  intro total
  obtain ⟨count, age, counting, sum, _⟩ :=
    counting_at (step_clear cleared) kept (ticks_apart sw clear inputs) time
  have top := counting.top
  have low := counting.low
  rw [Nat.mod_eq_of_lt (jumps_lt count)] at top
  have none : jumps 0 = 0 := by decide
  change count + lost (sw.step clear) time = total at sum
  by_cases first : 0 < time ∧ (sw.step clear).counts = true
  · -- the count is one behind
    rw [lost, if_pos first] at sum
    constructor
    · rintro ⟨shows', _⟩
      have now := shows'.hundredths
      rw [oValue, low.hundredths] at now
      omega
    · rintro (zero | ⟨still, _⟩)
      · omega
      · rw [first.2] at still
        cases still
  · rw [lost, if_neg first, Nat.add_zero] at sum
    rw [← sum, Shows, oValue, top, and_iff_right low, eq_comm]
    constructor
    · intro same
      rcases Nat.eq_zero_or_pos count with zero | positive
      · exact .inl zero
      · refine .inr ⟨Bool.eq_false_of_not_eq_true fun counts => first ⟨?_, counts⟩, same⟩
        refine Nat.pos_of_ne_zero fun zero => ?_
        subst zero
        exact positive.ne' sum
    · rintro (zero | ⟨_, same⟩)
      · rw [zero, none]
      · exact same

end Run

/-- Power-up with the steps of `i_ckstep` at 2^31; they have no initial values. -/
def powerUp : Stopwatch where
  counter := .zero
  swSubticks := 0
  swStep := 0xc80000000
  lastStep := 6400
  swCarry := .none
  nextSw := .zero
  swPpms := false
  carry := false
  swRunning := false

/-- Cleared and started, or kept running. -/
def fast (iClear : Bool) : SwClock where
  iReset := false
  iCkstep := 0x80000000
  iClear := iClear
  iStart := true
  iStop := false

/-- The watch after some of its clocks. -/
structure Fast (sw : Stopwatch) (clocks : Nat) : Prop where
  swStep : sw.swStep = 0xc80000000
  lastStep : sw.lastStep = 6400
  carry : sw.carry = false
  low : sw.swSubticks.extractLsb' 0 23 = 0
  running : sw.swRunning = true
  fraction : sw.fraction = 6400 * (clocks + 1) % 2 ^ 23
  ticked : 6400 * clocks / 2 ^ 23 + sw.swPpms.toNat = 6400 * (clocks + 1) / 2 ^ 23

theorem Fast.step {sw : Stopwatch} {clocks : Nat} (run : Fast sw clocks) :
    Fast (sw.step (fast false)) (clocks + 1) := by
  have steps : steps 0x80000000 = 0xc80000000 := by decide
  have lowSum : sw.lowSum = 0 := by
    rw [Stopwatch.lowSum, run.low, run.swStep]
    decide
  have lastStep : (6400 : BitVec 14).toNat = 6400 := by decide
  have sum : sw.highSum.toNat = 6400 * (clocks + 1) % 2 ^ 23 + 6400 := by
    rw [highSum_toNat, run.fraction, run.lastStep, run.carry, lastStep, Bool.toNat_false,
      Nat.add_zero]
  obtain ⟨moved, ppms⟩ := step_moves sw (fast false) rfl rfl
  constructor
  case swStep => exact steps
  case lastStep =>
    change sw.swStep.extractLsb' 23 14 = 6400
    rw [run.swStep]
    decide
  case carry =>
    change sw.lowSum.getLsbD 23 = false
    rw [lowSum]
    rfl
  case low =>
    change (sw.highSum.extractLsb' 0 23 ++ sw.lowSum.extractLsb' 0 23).extractLsb' 0 23 = 0
    rw [BitVec.extractLsb'_append_eq_right, lowSum]
    rfl
  case running => rfl
  case fraction => rw [moved, sum]; omega
  case ticked =>
    rw [ppms, sum]
    by_cases passes : 2 ^ 23 ≤ 6400 * (clocks + 1) % 2 ^ 23 + 6400
    · rw [decide_eq_true passes, Bool.toNat_true]
      omega
    · rw [decide_eq_false passes, Bool.toNat_false]
      omega

theorem fast_run (time : Nat) :
    Fast (streamed Stopwatch.step (powerUp.step (fast true)) (fun _ => fast false) time) time ∧
      ticks (powerUp.step (fast true)) (fun _ => fast false) time = 6400 * time / 2 ^ 23 := by
  induction time with
  | zero => exact ⟨⟨rfl, by decide, by decide, by decide, rfl, by decide, by decide⟩, rfl⟩
  | succ time ih =>
      obtain ⟨run, total⟩ := ih
      refine ⟨run.step, ?_⟩
      rw [ticks, Nat.count_succ, ← ticks, total, ← run.ticked, counts, run.running, Bool.and_true]
      cases Stopwatch.swPpms _ <;> rfl

theorem one_hour_shown :
    Shows (streamed Stopwatch.step (powerUp.step (fast true)) (fun _ => fast false)
      471859200).oValue 360000 := by
  have total := (fast_run 471859200).2
  have shown := watch_shows_iff powerUp (fast true) (fun _ => fast false) rfl (fun _ => rfl)
    471859200
  rw [total] at shown
  exact shown.mpr (.inr ⟨rfl, by decide⟩)

/-- A hundredth after nine hours the tens of hours are at one. -/
theorem nine_hours_jump :
    ticks (powerUp.step (fast true)) (fun _ => fast false) 4246734200 = 3240001 ∧
      ¬ Shows (streamed Stopwatch.step (powerUp.step (fast true)) (fun _ => fast false)
        4246734200).oValue 3240001 := by
  have total := (fast_run 4246734200).2
  obtain ⟨age, counting⟩ := counting_all powerUp (fast true) (fun _ => fast false) rfl
    (fun _ => rfl) rfl 4246734200
  rw [total] at counting
  refine ⟨total, fun ⟨_, top⟩ => ?_⟩
  rw [oValue, counting.top] at top
  revert top
  decide

end Stopwatch

end ZipVersa.Rtc
