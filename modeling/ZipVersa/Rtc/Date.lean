import ZipVersa.Lib.Calendar
import ZipVersa.Lib.Clocked
import ZipVersa.Lib.Pulses
import ZipVersa.Rtc.Bcd

/-! `rtcdate`, the calendar. -/

set_option autoImplicit false

namespace ZipVersa.Rtc

open Lib

/-- The 14 bits of a year. -/
structure BcdYear where
  /-- `[13:12]` -/
  thousands : BitVec 2
  /-- `[11:8]` -/
  hundreds : BitVec 4
  /-- `[7:4]` -/
  tens : BitVec 4
  /-- `[3:0]` -/
  ones : BitVec 4
  deriving DecidableEq, Repr

/-- `next_year_c`. -/
structure YearCarry where
  carry0 : Bool
  carry1 : Bool
  carry2 : Bool
  deriving DecidableEq, Repr

structure DateClock where
  iPpd : Bool
  iWbCycStb : Bool
  iWbWe : Bool
  iWbData : BitVec 32
  iWbSel : BitVec 4

structure RtcDate where
  rBlockUpdates : BitVec 10
  rDay : Bcd 2
  rMon : Bcd 1
  rYear : BcdYear
  yearDivisibleByFour : Bool
  centuryYear : Bool
  fourCenturyYear : Bool
  isLeapYear : Bool
  daysPerMonth : Bcd 2
  lastDayOfMonth : Bool
  lastDayOfYear : Bool
  nextDay : Bcd 2
  fixdDay : Bcd 2
  nextMon : Bcd 1
  fixdMon : Bcd 1
  nextYear : BcdYear
  nextYearC : YearCarry
  oWbAck : Bool

namespace RtcDate

/-- Power-up; `o_wb_ack` has no initial value. -/
def init (oWbAck : Bool) : RtcDate where
  rBlockUpdates := 0x3ff
  rDay := ⟨0, 1⟩
  rMon := ⟨0, 1⟩
  rYear := ⟨2, 0, 0, 0⟩
  yearDivisibleByFour := false
  centuryYear := false
  fourCenturyYear := false
  isLeapYear := false
  daysPerMonth := ⟨3, 1⟩
  lastDayOfMonth := false
  lastDayOfYear := false
  nextDay := ⟨0, 1⟩
  fixdDay := ⟨0, 1⟩
  nextMon := ⟨0, 1⟩
  fixdMon := ⟨0, 1⟩
  nextYear := ⟨2, 0, 0, 0⟩
  nextYearC := ⟨false, false, false⟩
  oWbAck := oWbAck

def update (date : RtcDate) (clock : DateClock) : Bool :=
  clock.iPpd && !date.rBlockUpdates.getLsbD 9

def divisibleByFour (year : BcdYear) : Bool :=
  !year.ones.getLsbD 0 && year.tens.getLsbD 0 == year.ones.getLsbD 1

def century (year : BcdYear) : Bool := year.tens == 0 && year.ones == 0

def fourCentury (year : BcdYear) : Bool :=
  !year.hundreds.getLsbD 0 && year.thousands.getLsbD 0 == year.hundreds.getLsbD 1

/-- `days_per_month`. -/
def monthLength (mon : Bcd 1) (isLeapYear : Bool) : Bcd 2 :=
  if mon = ⟨0, 1⟩ then ⟨3, 1⟩
  else if mon = ⟨0, 2⟩ then (if isLeapYear then ⟨2, 9⟩ else ⟨2, 8⟩)
  else if mon = ⟨0, 3⟩ then ⟨3, 1⟩
  else if mon = ⟨0, 4⟩ then ⟨3, 0⟩
  else if mon = ⟨0, 5⟩ then ⟨3, 1⟩
  else if mon = ⟨0, 6⟩ then ⟨3, 0⟩
  else if mon = ⟨0, 7⟩ then ⟨3, 1⟩
  else if mon = ⟨0, 8⟩ then ⟨3, 1⟩
  else if mon = ⟨0, 9⟩ then ⟨3, 0⟩
  else if mon = ⟨1, 0⟩ then ⟨3, 1⟩
  else if mon = ⟨1, 1⟩ then ⟨3, 0⟩
  else if mon = ⟨1, 2⟩ then ⟨3, 1⟩
  else ⟨3, 1⟩

/-- `next_day`. -/
def dayAfter (lastDayOfMonth : Bool) (day : Bcd 2) : Bcd 2 :=
  if lastDayOfMonth then ⟨0, 1⟩
  else if day.ones ≠ 9 then { day with ones := day.ones + 1 }
  else ⟨day.tens + 1, 0⟩

/-- `fixd_day`. -/
def fixDay (daysPerMonth day : Bcd 2) : Bcd 2 :=
  if day.word = 0 ∨ day.word > daysPerMonth.word then ⟨0, 1⟩
  else if day.ones > 9 then ⟨day.tens + 1, 0⟩
  else day

/-- `next_mon`. -/
def monAfter (lastDayOfYear lastDayOfMonth : Bool) (mon : Bcd 1) : Bcd 1 :=
  if lastDayOfYear then ⟨0, 1⟩
  else if lastDayOfMonth && mon.ones != 9 then { mon with ones := mon.ones + 1 }
  else if lastDayOfMonth then ⟨1, 0⟩
  else mon

/-- `fixd_mon`. -/
def fixMon (mon : Bcd 1) : Bcd 1 :=
  if mon.word = 0 ∨ mon.word > 0x12 ∨ mon.ones > 9 then ⟨0, 1⟩ else mon

def yearCarries (carry : YearCarry) (year : BcdYear) : YearCarry where
  carry0 := decide (9 ≤ year.ones)
  carry1 := decide (9 < year.tens) || year.tens == 9 && carry.carry0
  carry2 := decide (9 < year.hundreds) || year.hundreds == 9 && carry.carry1

/-- `next_year`. -/
def yearAfter (carry : YearCarry) (year : BcdYear) : BcdYear where
  ones := stepDigit carry.carry0 true year.ones
  tens := stepDigit carry.carry1 carry.carry0 year.tens
  hundreds := stepDigit carry.carry2 carry.carry1 year.hundreds
  thousands := stepDigit false carry.carry2 year.thousands

/-- Digits beyond nine become zero. -/
def fixYear (year : BcdYear) : BcdYear where
  thousands := year.thousands
  hundreds := if year.hundreds > 9 then 0 else year.hundreds
  tens := if year.tens > 9 then 0 else year.tens
  ones := if year.ones > 9 then 0 else year.ones

def writes (clock : DateClock) : Bool := clock.iWbCycStb && clock.iWbWe

def writesDay (clock : DateClock) : Bool :=
  writes clock && !clock.iWbData.getLsbD 7 && clock.iWbSel.getLsbD 0

def writesMon (clock : DateClock) : Bool :=
  writes clock && !clock.iWbData.getLsbD 15 && clock.iWbSel.getLsbD 1

def writesYear (clock : DateClock) : Bool :=
  writes clock && !clock.iWbData.getLsbD 31 && clock.iWbSel.extractLsb' 2 2 == 0b11

def step (date : RtcDate) (clock : DateClock) : RtcDate where
  rBlockUpdates := if writes clock then 0x3ff else date.rBlockUpdates <<< 1
  rDay :=
    if writesDay clock then ⟨clock.iWbData.extractLsb' 4 2, clock.iWbData.extractLsb' 0 4⟩
    else if date.update clock then date.nextDay
    else if date.rBlockUpdates.extractLsb' 4 2 = 0b10 then date.fixdDay
    else date.rDay
  rMon :=
    if writesMon clock then ⟨clock.iWbData.extractLsb' 12 1, clock.iWbData.extractLsb' 8 4⟩
    else if date.update clock then date.nextMon
    else if date.rBlockUpdates.extractLsb' 7 2 = 0b10 then date.fixdMon
    else date.rMon
  rYear :=
    if writesYear clock then
      ⟨clock.iWbData.extractLsb' 28 2, clock.iWbData.extractLsb' 24 4,
        clock.iWbData.extractLsb' 20 4, clock.iWbData.extractLsb' 16 4⟩
    else if date.update clock && date.lastDayOfYear then date.nextYear
    else fixYear date.rYear
  yearDivisibleByFour := divisibleByFour date.rYear
  centuryYear := century date.rYear
  fourCenturyYear := fourCentury date.rYear
  isLeapYear := date.yearDivisibleByFour &&
    (!date.centuryYear || date.centuryYear && date.fourCenturyYear)
  daysPerMonth := monthLength date.rMon date.isLeapYear
  lastDayOfMonth := decide (date.daysPerMonth.word ≤ date.rDay.word)
  lastDayOfYear := date.lastDayOfMonth && date.rMon == ⟨1, 2⟩
  nextDay := dayAfter date.lastDayOfMonth date.rDay
  fixdDay := fixDay date.daysPerMonth date.rDay
  nextMon := monAfter date.lastDayOfYear date.lastDayOfMonth date.rMon
  fixdMon := fixMon date.rMon
  nextYear := yearAfter date.nextYearC date.rYear
  nextYearC := if writesYear clock then ⟨false, false, false⟩ else yearCarries date.nextYearC date.rYear
  oWbAck := clock.iWbCycStb

end RtcDate

/-! ### Dates in BCD -/

open RtcDate Calendar

def BcdYear.value (year : BcdYear) : Nat :=
  year.thousands.toNat * 1000 + year.hundreds.toNat * 100 + year.tens.toNat * 10 + year.ones.toNat

/-- Digits below ten. -/
structure BcdYear.Decimal (year : BcdYear) : Prop where
  hundreds : year.hundreds.toNat ≤ 9
  tens : year.tens.toNat ≤ 9
  ones : year.ones.toNat ≤ 9

variable {day : Bcd 2} {mon : Bcd 1} {year : BcdYear}

def leapYear (year : BcdYear) : Bool :=
  divisibleByFour year && (!century year || century year && fourCentury year)

theorem getLsbD_eq {w : Nat} (bits : BitVec w) (i : Nat) :
    bits.getLsbD i = decide (bits.toNat / 2 ^ i % 2 = 1) :=
  Nat.testBit_eq_decide_div_mod_eq

namespace BcdYear.Decimal

variable (decimal : year.Decimal)
include decimal

theorem divisibleByFour_iff : divisibleByFour year = true ↔ year.value % 4 = 0 := by
  obtain ⟨hundreds, tens, ones⟩ := decimal
  simp only [divisibleByFour, value, getLsbD_eq, Bool.and_eq_true, Bool.not_eq_true',
    decide_eq_false_iff_not, beq_iff_eq, decide_eq_decide]
  omega

theorem century_iff : century year = true ↔ year.value % 100 = 0 := by
  obtain ⟨hundreds, tens, ones⟩ := decimal
  simp only [century, value, beq_zero_eq, Bool.and_eq_true, decide_eq_true_iff]
  omega

theorem fourCentury_iff (whole : year.value % 100 = 0) :
    fourCentury year = true ↔ year.value % 400 = 0 := by
  obtain ⟨hundreds, tens, ones⟩ := decimal
  have none : year.tens.toNat = 0 ∧ year.ones.toNat = 0 := by
    rw [value] at whole
    omega
  simp only [fourCentury, value, none, getLsbD_eq, Bool.and_eq_true, Bool.not_eq_true',
    decide_eq_false_iff_not, beq_iff_eq, decide_eq_decide]
  omega

theorem leapYear_eq : leapYear year = isLeap year.value := by
  rw [Bool.eq_iff_iff, isLeap, leapYear, Bool.and_eq_true, Bool.and_eq_true,
    decimal.divisibleByFour_iff, beq_iff_eq]
  refine and_congr_right fun _ => ?_
  by_cases whole : year.value % 100 = 0
  · rw [decimal.century_iff.mpr whole, whole, Bool.not_true, Bool.false_or, Bool.true_and,
      decimal.fourCentury_iff whole]
    simp
  · rw [Bool.eq_false_iff.mpr (mt decimal.century_iff.mp whole)]
    simp [whole]

end BcdYear.Decimal

/-- A month of the year. -/
def Bcd.Month (mon : Bcd 1) : Prop := mon.ones.toNat ≤ 9 ∧ 1 ≤ mon.value ∧ mon.value ≤ 12

/-- A day within a month's length. -/
def Bcd.DayOf (length day : Bcd 2) : Prop :=
  day.ones.toNat ≤ 9 ∧ 1 ≤ day.value ∧ day.value ≤ length.value

instance (mon : Bcd 1) : Decidable mon.Month := inferInstanceAs (Decidable (_ ∧ _))

instance (length day : Bcd 2) : Decidable (length.DayOf day) := inferInstanceAs (Decidable (_ ∧ _))

theorem Bcd.Month.length (month : mon.Month) (leap : Bool) :
    (monthLength mon leap).value = daysIn leap mon.value := by
  obtain ⟨tens, ones⟩ := mon
  revert tens ones leap
  decide +kernel

/-- The lengths a month can have. -/
theorem monthLength_cases (mon : Bcd 1) (leap : Bool) :
    monthLength mon leap ∈ [(⟨2, 8⟩ : Bcd 2), ⟨2, 9⟩, ⟨3, 0⟩, ⟨3, 1⟩] := by
  obtain ⟨tens, ones⟩ := mon
  revert tens ones leap
  decide +kernel

/-- The repair of the day. -/
theorem fixDay_fits (mon : Bcd 1) (leap : Bool) (day : Bcd 2) :
    (monthLength mon leap).DayOf (fixDay (monthLength mon leap) day) := by
  have fits : ∀ length ∈ [(⟨2, 8⟩ : Bcd 2), ⟨2, 9⟩, ⟨3, 0⟩, ⟨3, 1⟩], ∀ tens : BitVec 2,
      ∀ ones : BitVec 4, length.DayOf (fixDay length ⟨tens, ones⟩) := by
    decide +kernel
  exact fits _ (monthLength_cases mon leap) day.tens day.ones

/-- The repair of the month keeps its length and does not make it December. -/
theorem fixMon_repairs (mon : Bcd 1) :
    (fixMon mon).Month ∧ (∀ leap, monthLength (fixMon mon) leap = monthLength mon leap) ∧
      (fixMon mon == ⟨1, 2⟩) = (mon == ⟨1, 2⟩) := by
  obtain ⟨tens, ones⟩ := mon
  revert tens ones
  decide +kernel

/-- The next day of a month, and its last day. -/
theorem dayAfter_value {leap : Bool} (fits : (monthLength mon leap).DayOf day) :
    if day.value < (monthLength mon leap).value then
      (monthLength mon leap).word.toNat > day.word.toNat ∧ (dayAfter false day).ones.toNat ≤ 9 ∧
        (dayAfter false day).value = day.value + 1
    else (monthLength mon leap).word.toNat ≤ day.word.toNat := by
  have days : ∀ length ∈ [(⟨2, 8⟩ : Bcd 2), ⟨2, 9⟩, ⟨3, 0⟩, ⟨3, 1⟩], ∀ tens : BitVec 2,
      ∀ ones : BitVec 4, length.DayOf ⟨tens, ones⟩ →
        if (⟨tens, ones⟩ : Bcd 2).value < length.value then
          length.word.toNat > (⟨tens, ones⟩ : Bcd 2).word.toNat ∧
            (dayAfter false ⟨tens, ones⟩).ones.toNat ≤ 9 ∧
            (dayAfter false ⟨tens, ones⟩).value = (⟨tens, ones⟩ : Bcd 2).value + 1
        else length.word.toNat ≤ (⟨tens, ones⟩ : Bcd 2).word.toNat := by
    decide +kernel
  exact days _ (monthLength_cases mon leap) day.tens day.ones fits

/-- The next month within a year. -/
theorem monAfter_value (month : mon.Month) (before : mon ≠ ⟨1, 2⟩) :
    (monAfter false true mon).ones.toNat ≤ 9 ∧ (monAfter false true mon).value = mon.value + 1 ∧
      mon.value < 12 := by
  obtain ⟨tens, ones⟩ := mon
  revert tens ones
  decide

/-- The carries of a year that stays. -/
def BcdYear.carries (year : BcdYear) : YearCarry :=
  let carry0 := decide (9 ≤ year.ones)
  let carry1 := decide (9 < year.tens) || year.tens == 9 && carry0
  { carry0 := carry0
    carry1 := carry1
    carry2 := decide (9 < year.hundreds) || year.hundreds == 9 && carry1 }

theorem nine_carries {digit : BitVec 4} (below : digit.toNat ≤ 9) (carry : Bool) :
    (decide (9 < digit) || digit == 9 && carry) = (decide (9 ≤ digit.toNat) && carry) := by
  revert digit carry
  decide

theorem BcdYear.Decimal.next (decimal : year.Decimal) :
    (yearAfter year.carries year).Decimal ∧
      (yearAfter year.carries year).value = (year.value + 1) % 4000 := by
  obtain ⟨hundredsBelow, tensBelow, onesBelow⟩ := decimal
  have carry0 : year.carries.carry0 = (decide (9 ≤ year.ones.toNat) && true) :=
    (Bool.and_true _).symm
  have carry1 : year.carries.carry1 = (decide (9 ≤ year.tens.toNat) && year.carries.carry0) :=
    nine_carries tensBelow _
  have carry2 : year.carries.carry2 = (decide (9 ≤ year.hundreds.toNat) && year.carries.carry1) :=
    nine_carries hundredsBelow _
  obtain ⟨onesNext, ones⟩ := stepDigit_counts 9 carry0 onesBelow (by decide)
  obtain ⟨tensNext, tens⟩ := stepDigit_counts 9 carry1 tensBelow (by decide)
  obtain ⟨hundredsNext, hundreds⟩ := stepDigit_counts 9 carry2 hundredsBelow (by decide)
  have thousands : (stepDigit false year.carries.carry2 year.thousands).toNat =
      (year.thousands.toNat + year.carries.carry2.toNat) % 4 := by
    generalize year.carries.carry2 = carry
    generalize year.thousands = digit
    revert carry digit
    decide
  refine ⟨⟨hundredsNext, tensNext, onesNext⟩, ?_⟩
  have carry := Bool.toNat_le year.carries.carry2
  rw [Bool.toNat_true] at ones
  simp only [value, yearAfter, thousands]
  omega

/-! ### The settled registers -/

/-- The date in the registers. -/
def RtcDate.length (mon : Bcd 1) (year : BcdYear) : Bcd 2 := monthLength mon (leapYear year)

def RtcDate.lastDay (day : Bcd 2) (mon : Bcd 1) (year : BcdYear) : Bool :=
  decide ((length mon year).word ≤ day.word)

/-- A date of the calendar in its digits. -/
structure Proper (day : Bcd 2) (mon : Bcd 1) (year : BcdYear) : Prop where
  month : mon.Month
  decimal : year.Decimal
  fits : (length mon year).DayOf day

def dateOf (day : Bcd 2) (mon : Bcd 1) (year : BcdYear) : Date := ⟨year.value, mon.value, day.value⟩

/-- The years of the register, modulo 4000. -/
def wrapped (date : Date) : Date := { date with year := date.year % 4000 }

theorem Proper.length_eq (proper : Proper day mon year) :
    (length mon year).value = daysIn (isLeap year.value) mon.value := by
  rw [length, proper.decimal.leapYear_eq, proper.month.length]

theorem Proper.valid (proper : Proper day mon year) : (dateOf day mon year).Valid :=
  ⟨proper.month.2, by rw [dateOf, ← proper.length_eq]; exact proper.fits.2⟩

theorem first_fits (mon : Bcd 1) (leap : Bool) : (monthLength mon leap).DayOf ⟨0, 1⟩ := by
  have fits : ∀ length ∈ [(⟨2, 8⟩ : Bcd 2), ⟨2, 9⟩, ⟨3, 0⟩, ⟨3, 1⟩], length.DayOf ⟨0, 1⟩ := by decide
  exact fits _ (monthLength_cases mon leap)

theorem BcdYear.Decimal.value_lt (decimal : year.Decimal) : year.value < 4000 := by
  obtain ⟨hundreds, tens, ones⟩ := decimal
  have thousands := year.thousands.isLt
  rw [value]
  omega

/-- The next registers hold the day after. -/
theorem Proper.next (proper : Proper day mon year) :
    let last := lastDay day mon year
    let december := last && mon == ⟨1, 2⟩
    let year' := if december then yearAfter year.carries year else year
    Proper (dayAfter last day) (monAfter december last mon) year' ∧
      dateOf (dayAfter last day) (monAfter december last mon) year' =
        wrapped (dateOf day mon year).next := by
  intro last december year'
  have days := dayAfter_value proper.fits
  have same := proper.length_eq
  have whole : year.value % 4000 = year.value := Nat.mod_eq_of_lt proper.decimal.value_lt
  split_ifs at days with within
  · have notLast : last = false := decide_eq_false (Nat.not_le.mpr days.1)
    have sameYear : year' = year := by simp [year', december, notLast]
    have sameMon : monAfter december last mon = mon := by simp [monAfter, december, notLast]
    rw [sameYear, sameMon, notLast]
    refine ⟨⟨proper.month, proper.decimal, days.2.1, ?_, ?_⟩, ?_⟩
    · rw [days.2.2]
      exact Nat.le_add_left 1 _
    · rw [days.2.2]
      exact within
    · have before : (dateOf day mon year).day <
          daysIn (isLeap (dateOf day mon year).year) (dateOf day mon year).month := by
        rw [dateOf, ← same]
        exact within
      rw [Date.next, if_pos before, wrapped, dateOf, dateOf, days.2.2, whole]
  · have isLast : last = true := decide_eq_true days
    have after : ¬ (dateOf day mon year).day <
        daysIn (isLeap (dateOf day mon year).year) (dateOf day mon year).month := by
      rw [dateOf, ← same]
      exact within
    by_cases ends : mon = ⟨1, 2⟩
    · have isDecember : december = true := by
        change (last && mon == ⟨1, 2⟩) = true
        rw [isLast, Bool.true_and, beq_iff_eq]
        exact ends
      have twelve : ¬ (dateOf day mon year).month < 12 := by
        rw [dateOf, ends, Bcd.value]
        exact Nat.lt_irrefl 12
      have sameYear : year' = yearAfter year.carries year := if_pos isDecember
      obtain ⟨decimal, wraps⟩ := proper.decimal.next
      rw [sameYear, isDecember, isLast]
      have january : (⟨0, 1⟩ : Bcd 1).Month := by decide
      refine ⟨⟨january, decimal, first_fits _ _⟩, ?_⟩
      rw [Date.next, if_neg after, if_neg twelve, wrapped, dateOf, wraps]
      rfl
    · have notDecember : december = false := by
        change (last && mon == ⟨1, 2⟩) = false
        rw [isLast, Bool.true_and, beq_eq_false_iff_ne]
        exact ends
      have sameYear : year' = year := by simp [year', notDecember]
      obtain ⟨ones, more, before⟩ := monAfter_value proper.month ends
      rw [sameYear, notDecember, isLast]
      refine ⟨⟨⟨ones, ?_, ?_⟩, proper.decimal, first_fits _ _⟩, ?_⟩
      · rw [more]
        exact Nat.le_add_left 1 _
      · rw [more]
        exact before
      · have twelve : (dateOf day mon year).month < 12 := before
        rw [Date.next, if_neg after, if_pos twelve, wrapped, dateOf, dateOf, more, whole]
        rfl

/-- What follows a date, some clocks after its year, the length of its month, its
day and its month were set. -/
structure Follows (day : Bcd 2) (mon : Bcd 1) (year : BcdYear) (date : RtcDate)
    (years lengths days months : Nat) : Prop where
  flags : 1 ≤ years → date.yearDivisibleByFour = divisibleByFour year ∧
    date.centuryYear = century year ∧ date.fourCenturyYear = fourCentury year
  isLeapYear : 2 ≤ years → date.isLeapYear = leapYear year
  daysPerMonth : 3 ≤ years → 1 ≤ lengths → date.daysPerMonth = length mon year
  lastDayOfMonth : 4 ≤ years → 2 ≤ lengths → 1 ≤ days → date.lastDayOfMonth = lastDay day mon year
  fixdDay : 4 ≤ years → 2 ≤ lengths → 1 ≤ days → date.fixdDay = fixDay (length mon year) day
  lastDayOfYear : 5 ≤ years → 3 ≤ lengths → 2 ≤ days →
    date.lastDayOfYear = (lastDay day mon year && mon == ⟨1, 2⟩)
  nextDay : 5 ≤ years → 3 ≤ lengths → 2 ≤ days → date.nextDay = dayAfter (lastDay day mon year) day
  nextMon : 6 ≤ years → 4 ≤ lengths → 3 ≤ days → 1 ≤ months → date.nextMon =
    monAfter (lastDay day mon year && mon == ⟨1, 2⟩) (lastDay day mon year) mon
  fixdMon : 1 ≤ months → date.fixdMon = fixMon mon
  carry0 : 1 ≤ years → date.nextYearC.carry0 = year.carries.carry0
  carry1 : 2 ≤ years → date.nextYearC.carry1 = year.carries.carry1
  carry2 : 3 ≤ years → date.nextYearC.carry2 = year.carries.carry2
  nextYear : 4 ≤ years → date.nextYear = yearAfter year.carries year

theorem Follows.start (day : Bcd 2) (mon : Bcd 1) (year : BcdYear) (date : RtcDate) :
    Follows day mon year date 0 0 0 0 := by
  constructor <;> (intro never; exact absurd never (by decide))

/-- One clock of the registers that follow the date. -/
theorem Follows.step {date : RtcDate} {clock : DateClock} {years lengths days months : Nat}
    (follows : Follows date.rDay date.rMon date.rYear date years lengths days months)
    (unwritten : writesYear clock = false) :
    Follows date.rDay date.rMon date.rYear (date.step clock) (years + 1) (lengths + 1) (days + 1)
      (months + 1) := by
  have carries : (date.step clock).nextYearC = yearCarries date.nextYearC date.rYear := by
    rw [RtcDate.step, unwritten]
    rfl
  constructor
  case flags => exact fun _ => ⟨rfl, rfl, rfl⟩
  case isLeapYear =>
    intro late
    obtain ⟨four, hundred, fourHundred⟩ := follows.flags (by omega)
    rw [RtcDate.step, four, hundred, fourHundred]
    rfl
  case daysPerMonth =>
    intro late _
    rw [RtcDate.step, follows.isLeapYear (by omega)]
    rfl
  case lastDayOfMonth =>
    intro late first _
    rw [RtcDate.step, follows.daysPerMonth (by omega) (by omega)]
    rfl
  case fixdDay =>
    intro late first _
    rw [RtcDate.step, follows.daysPerMonth (by omega) (by omega)]
  case lastDayOfYear =>
    intro late first second
    rw [RtcDate.step, follows.lastDayOfMonth (by omega) (by omega) (by omega)]
  case nextDay =>
    intro late first second
    rw [RtcDate.step, follows.lastDayOfMonth (by omega) (by omega) (by omega)]
  case nextMon =>
    intro late first second _
    rw [RtcDate.step, follows.lastDayOfMonth (by omega) (by omega) (by omega),
      follows.lastDayOfYear (by omega) (by omega) (by omega)]
  case fixdMon => exact fun _ => rfl
  case carry0 => exact fun _ => by rw [carries]; rfl
  case carry1 =>
    intro late
    rw [carries, yearCarries, follows.carry0 (by omega)]
    rfl
  case carry2 =>
    intro late
    rw [carries, yearCarries, follows.carry1 (by omega)]
    rfl
  case nextYear =>
    intro late
    change yearAfter date.nextYearC date.rYear = yearAfter date.rYear.carries date.rYear
    rw [yearAfter, follows.carry0 (by omega), follows.carry1 (by omega), follows.carry2 (by omega)]
    rfl

/-- The parts of a date that change are not followed yet. -/
theorem Follows.change {day' : Bcd 2} {mon' : Bcd 1} {year' : BcdYear} {date : RtcDate}
    {years lengths days months years' lengths' days' months' : Nat}
    (follows : Follows day mon year date years lengths days months)
    (sameYear : years' ≠ 0 → years' ≤ years ∧ year' = year)
    (sameLength : lengths' ≠ 0 → lengths' ≤ lengths ∧
      (∀ leap, monthLength mon' leap = monthLength mon leap) ∧ (mon' == ⟨1, 2⟩) = (mon == ⟨1, 2⟩))
    (sameDay : days' ≠ 0 → days' ≤ days ∧ day' = day)
    (sameMon : months' ≠ 0 → months' ≤ months ∧ mon' = mon) :
    Follows day' mon' year' date years' lengths' days' months' := by
  have yearly {age : Nat} (some : 0 < age) (within : age ≤ years') : age ≤ years ∧ year' = year := by
    obtain ⟨kept, same⟩ := sameYear (by omega)
    exact ⟨by omega, same⟩
  have daily {age : Nat} (some : 0 < age) (within : age ≤ days') : age ≤ days ∧ day' = day := by
    obtain ⟨kept, same⟩ := sameDay (by omega)
    exact ⟨by omega, same⟩
  have lengthly {age : Nat} (some : 0 < age) (within : age ≤ lengths') (whichever : year' = year) :
      age ≤ lengths ∧ length mon' year' = length mon year ∧ (mon' == ⟨1, 2⟩) = (mon == ⟨1, 2⟩) := by
    obtain ⟨kept, same, december⟩ := sameLength (by omega)
    exact ⟨by omega, by rw [length, length, same, whichever], december⟩
  constructor
  case flags | isLeapYear | carry0 | carry1 | carry2 | nextYear =>
    intro late
    obtain ⟨enough, rfl⟩ := yearly (by decide) late
    first
    | exact follows.flags enough
    | exact follows.isLeapYear enough
    | exact follows.carry0 enough
    | exact follows.carry1 enough
    | exact follows.carry2 enough
    | exact follows.nextYear enough
  case daysPerMonth =>
    intro late first
    obtain ⟨enough, sameYear⟩ := yearly (by decide) late
    obtain ⟨long, same, _⟩ := lengthly (by decide) first sameYear
    rw [same]
    exact follows.daysPerMonth enough long
  case fixdMon =>
    intro late
    obtain ⟨kept, same⟩ := sameMon (by omega)
    rw [same]
    exact follows.fixdMon (by omega)
  case nextMon =>
    intro late first second third
    obtain ⟨enough, sameYear⟩ := yearly (by decide) late
    obtain ⟨long, same, december⟩ := lengthly (by decide) first sameYear
    obtain ⟨old, rfl⟩ := daily (by decide) second
    obtain ⟨kept, sameMonth⟩ := sameMon (by omega)
    rw [lastDay, same, december, sameMonth]
    exact follows.nextMon enough long old (by omega)
  all_goals
    intro late first second
    obtain ⟨enough, sameYear⟩ := yearly (by decide) late
    obtain ⟨long, same, december⟩ := lengthly (by decide) first sameYear
    obtain ⟨old, rfl⟩ := daily (by decide) second
    simp only [lastDay, same, december]
    first
    | exact follows.lastDayOfMonth enough long old
    | exact follows.fixdDay enough long old
    | exact follows.lastDayOfYear enough long old
    | exact follows.nextDay enough long old

/-! ### Runs -/

namespace RtcDate

/-- The registers some clocks after the last write and after the last pulse: the
year is repaired first, then the day, then the month. -/
structure Tracks (date : RtcDate) (age pulse : Nat) : Prop where
  block : date.rBlockUpdates = (0x3ff : BitVec 10) <<< age
  decimal : 1 ≤ age → date.rYear.Decimal
  fits : 6 ≤ age → (length date.rMon date.rYear).DayOf date.rDay
  month : 9 ≤ age → date.rMon.Month
  follows : ∃ years lengths days months,
    Follows date.rDay date.rMon date.rYear date years lengths days months ∧
    (age < 10 → years = age - 1 ∧ lengths = age ∧ days = (if age ≤ 5 then age else age - 6) ∧
      months = if age ≤ 8 then age else age - 9) ∧
    (10 ≤ age → 6 ≤ years ∧ 4 ≤ lengths ∧ 3 ≤ days ∧ 1 ≤ months ∨
      pulse ≤ years ∧ pulse ≤ lengths ∧ pulse ≤ days ∧ pulse ≤ months)

theorem init_tracks (oWbAck : Bool) (pulse : Nat) : Tracks (init oWbAck) 0 pulse where
  block := rfl
  decimal never := absurd never (by decide)
  fits never := absurd never (by decide)
  month never := absurd never (by decide)
  follows := ⟨0, 0, 0, 0, .start _ _ _ _, fun _ => ⟨rfl, rfl, rfl, rfl⟩,
    fun never => absurd never (by decide)⟩

theorem init_proper (oWbAck : Bool) :
    Proper (init oWbAck).rDay (init oWbAck).rMon (init oWbAck).rYear where
  month := show Bcd.Month ⟨0, 1⟩ by decide
  decimal := ⟨Nat.zero_le 9, Nat.zero_le 9, Nat.zero_le 9⟩
  fits := first_fits _ _

variable {date : RtcDate} {clock : DateClock} {age pulse : Nat}

theorem step_write (written : writes clock = true) (pulse : Nat) :
    Tracks (date.step clock) 0 pulse where
  block := by
    rw [RtcDate.step, written]
    rfl
  decimal never := absurd never (by decide)
  fits never := absurd never (by decide)
  month never := absurd never (by decide)
  follows := ⟨0, 0, 0, 0, .start _ _ _ _, fun _ => ⟨rfl, rfl, rfl, rfl⟩,
    fun never => absurd never (by decide)⟩

/-- The block of updates as it shifts out. -/
theorem block_early : ∀ age < 10, ((0x3ff : BitVec 10) <<< age).getLsbD 9 = true ∧
    (((0x3ff : BitVec 10) <<< age).extractLsb' 4 2 = 0b10 ↔ age = 5) ∧
    (((0x3ff : BitVec 10) <<< age).extractLsb' 7 2 = 0b10 ↔ age = 8) := by
  decide

/-- A clock without a write. -/
theorem step_registers (date : RtcDate) (unwritten : writes clock = false) :
    (date.step clock).rDay = (if date.update clock then date.nextDay
        else if date.rBlockUpdates.extractLsb' 4 2 = 0b10 then date.fixdDay else date.rDay) ∧
      (date.step clock).rMon = (if date.update clock then date.nextMon
        else if date.rBlockUpdates.extractLsb' 7 2 = 0b10 then date.fixdMon else date.rMon) ∧
      (date.step clock).rYear = (if date.update clock && date.lastDayOfYear then date.nextYear
        else fixYear date.rYear) ∧
      (date.step clock).rBlockUpdates = date.rBlockUpdates <<< 1 := by
  have day : writesDay clock = false := by rw [writesDay, unwritten]; rfl
  have mon : writesMon clock = false := by rw [writesMon, unwritten]; rfl
  have year : writesYear clock = false := by rw [writesYear, unwritten]; rfl
  simp only [RtcDate.step, unwritten, day, mon, year, Bool.false_eq_true, if_false]
  exact ⟨trivial, trivial, trivial, trivial⟩

theorem fixYear_decimal (year : BcdYear) : (fixYear year).Decimal := by
  have digit (bits : BitVec 4) : (if bits > 9 then 0 else bits).toNat ≤ 9 := by
    revert bits
    decide
  exact ⟨digit _, digit _, digit _⟩

theorem fixYear_same (decimal : date.rYear.Decimal) : fixYear date.rYear = date.rYear := by
  have digit (bits : BitVec 4) (below : bits.toNat ≤ 9) : (if bits > 9 then 0 else bits) = bits := by
    revert bits
    decide
  rw [fixYear, digit _ decimal.hundreds, digit _ decimal.tens, digit _ decimal.ones]

/-- The repairs, while the updates are blocked. -/
theorem Tracks.repairs (tracks : Tracks date age pulse) (early : age < 10)
    (unwritten : writes clock = false) :
    (date.step clock).rDay =
        (if age = 5 then fixDay (length date.rMon date.rYear) date.rDay else date.rDay) ∧
      (date.step clock).rMon = (if age = 8 then fixMon date.rMon else date.rMon) ∧
      (date.step clock).rYear = fixYear date.rYear := by
  obtain ⟨blocked, fifth, eighth⟩ := block_early age early
  obtain ⟨day, mon, year, _⟩ := step_registers date unwritten
  obtain ⟨years, lengths, days, months, follows, ages, _⟩ := tracks.follows
  obtain ⟨sameYears, sameLengths, sameDays, sameMonths⟩ := ages early
  have notUpdate : date.update clock = false := by
    rw [update, tracks.block, blocked, Bool.not_true, Bool.and_false]
  rw [notUpdate, if_neg Bool.false_ne_true, tracks.block] at day mon
  rw [notUpdate, Bool.false_and, if_neg Bool.false_ne_true] at year
  refine ⟨?_, ?_, year⟩
  · split
    · case isTrue now =>
      rw [if_pos (by omega)] at sameDays
      rw [day, if_pos (fifth.mpr now)]
      exact follows.fixdDay (by omega) (by omega) (by omega)
    · case isFalse other => exact day.trans (if_neg (fifth.not.mpr other))
  · split
    · case isTrue now =>
      rw [if_pos (by omega)] at sameMonths
      rw [mon, if_pos (eighth.mpr now)]
      exact follows.fixdMon (by omega)
    · case isFalse other => exact mon.trans (if_neg (eighth.not.mpr other))

/-- The month is repaired to one of the same length. -/
theorem Tracks.repair_length (tracks : Tracks date age pulse) (early : age < 10)
    (unwritten : writes clock = false) :
    (∀ leap, monthLength (date.step clock).rMon leap = monthLength date.rMon leap) ∧
      ((date.step clock).rMon == ⟨1, 2⟩) = (date.rMon == ⟨1, 2⟩) := by
  rw [(tracks.repairs early unwritten).2.1]
  split
  · exact (fixMon_repairs date.rMon).2
  · exact ⟨fun _ => rfl, rfl⟩

theorem Tracks.repair_year (tracks : Tracks date age pulse) (early : age < 10)
    (unwritten : writes clock = false) (later : 1 ≤ age) :
    (date.step clock).rYear = date.rYear :=
  (tracks.repairs early unwritten).2.2.trans (fixYear_same (tracks.decimal later))

theorem Tracks.repair_fits (tracks : Tracks date age pulse) (early : age < 10)
    (unwritten : writes clock = false) (late : 6 ≤ age + 1) :
    (length (date.step clock).rMon (date.step clock).rYear).DayOf (date.step clock).rDay := by
  have same : length (date.step clock).rMon (date.step clock).rYear =
      length date.rMon date.rYear := by
    rw [length, length, (tracks.repair_length early unwritten).1,
      tracks.repair_year early unwritten (by omega)]
  rw [same, (tracks.repairs early unwritten).1]
  split
  · exact fixDay_fits _ _ _
  · exact tracks.fits (by omega)

theorem Tracks.repair_month (tracks : Tracks date age pulse) (early : age < 10)
    (unwritten : writes clock = false) (late : 9 ≤ age + 1) : (date.step clock).rMon.Month := by
  rw [(tracks.repairs early unwritten).2.1]
  split
  · exact (fixMon_repairs date.rMon).1
  · exact tracks.month (by omega)

theorem Tracks.repair_follows (tracks : Tracks date age pulse) (early : age < 10)
    (unwritten : writes clock = false) :
    Follows (date.step clock).rDay (date.step clock).rMon (date.step clock).rYear
      (date.step clock) age (age + 1) (if age + 1 ≤ 5 then age + 1 else age + 1 - 6)
      (if age + 1 ≤ 8 then age + 1 else age + 1 - 9) := by
  obtain ⟨day, mon, _⟩ := tracks.repairs early unwritten
  obtain ⟨years, lengths, days, months, follows, ages, _⟩ := tracks.follows
  obtain ⟨sameYears, sameLengths, sameDays, sameMonths⟩ := ages early
  have unwrittenYear : writesYear clock = false := by rw [writesYear, unwritten]; rfl
  refine (follows.step unwrittenYear).change ?_ ?_ ?_ ?_
  · exact fun some => ⟨by omega, tracks.repair_year early unwritten (by omega)⟩
  · exact fun _ => ⟨by omega, tracks.repair_length early unwritten⟩
  · intro some
    have other : age ≠ 5 := fun five => some (by rw [five]; rfl)
    refine ⟨?_, day.trans (if_neg other)⟩
    rw [sameDays]
    split_ifs <;> omega
  · intro some
    have other : age ≠ 8 := fun eight => some (by rw [eight]; rfl)
    refine ⟨?_, mon.trans (if_neg other)⟩
    rw [sameMonths]
    split_ifs <;> omega

theorem Tracks.repair (tracks : Tracks date age pulse) (early : age < 10)
    (unwritten : writes clock = false) (pulse' : Nat) :
    Tracks (date.step clock) (age + 1) pulse' := by
  obtain ⟨_, _, year⟩ := tracks.repairs early unwritten
  obtain ⟨_, _, _, block⟩ := step_registers date unwritten
  constructor
  case block => rw [block, tracks.block, ← BitVec.shiftLeft_add]
  case decimal =>
    intro _
    rw [year]
    exact fixYear_decimal date.rYear
  case fits => exact tracks.repair_fits early unwritten
  case month => exact tracks.repair_month early unwritten
  case follows =>
    refine ⟨_, _, _, _, tracks.repair_follows early unwritten, fun _ => ⟨rfl, rfl, rfl, rfl⟩,
      fun late => ?_⟩
    have last : age = 9 := by omega
    subst last
    exact .inl (by decide)

/-- The registers once the repairs are over. -/
theorem Tracks.proper (tracks : Tracks date age pulse) (late : 10 ≤ age) :
    Proper date.rDay date.rMon date.rYear :=
  ⟨tracks.month (by omega), tracks.decimal (by omega), tracks.fits (by omega)⟩

theorem Tracks.update_eq (tracks : Tracks date age pulse) (late : 10 ≤ age) (clock : DateClock) :
    date.rBlockUpdates = 0 ∧ date.update clock = clock.iPpd := by
  have block : date.rBlockUpdates = 0 :=
    tracks.block.trans (BitVec.shiftLeft_eq_zero late)
  refine ⟨block, ?_⟩
  rw [update, block]
  exact Bool.and_true _

/-- A clock between the pulses. -/
theorem Tracks.stay (tracks : Tracks date age pulse) (late : 10 ≤ age)
    (unwritten : writes clock = false) (still : clock.iPpd = false) :
    Tracks (date.step clock) (age + 1) (pulse + 1) := by
  obtain ⟨zero, updates⟩ := tracks.update_eq late clock
  obtain ⟨day, mon, year, block⟩ := step_registers date unwritten
  obtain ⟨years, lengths, days, months, follows, _, ages⟩ := tracks.follows
  rw [updates, still, if_neg Bool.false_ne_true, zero, if_neg (by decide)] at day mon
  rw [updates, still, Bool.false_and, if_neg Bool.false_ne_true,
    fixYear_same (tracks.decimal (by omega))] at year
  have unwrittenYear : writesYear clock = false := by rw [writesYear, unwritten]; rfl
  constructor
  case block => rw [block, tracks.block, ← BitVec.shiftLeft_add]
  case decimal => rw [year]; exact fun _ => tracks.decimal (by omega)
  case fits => rw [day, mon, year]; exact fun _ => tracks.fits (by omega)
  case month => rw [mon]; exact fun _ => tracks.month (by omega)
  case follows =>
    rw [day, mon, year]
    refine ⟨_, _, _, _, follows.step unwrittenYear, fun early => by omega, fun _ => ?_⟩
    have := ages late
    omega

/-- A pulse moves the date to the next day. -/
theorem Tracks.advance (tracks : Tracks date age pulse) (late : 10 ≤ age)
    (unwritten : writes clock = false) (ppd : clock.iPpd = true) (apart : 9 ≤ pulse) :
    Tracks (date.step clock) (age + 1) 0 ∧
      dateOf (date.step clock).rDay (date.step clock).rMon (date.step clock).rYear =
        wrapped (dateOf date.rDay date.rMon date.rYear).next := by
  obtain ⟨_, updates⟩ := tracks.update_eq late clock
  obtain ⟨day, mon, year, block⟩ := step_registers date unwritten
  obtain ⟨years, lengths, days, months, follows, _, ages⟩ := tracks.follows
  have ready : 6 ≤ years ∧ 4 ≤ lengths ∧ 3 ≤ days ∧ 1 ≤ months := by
    have := ages late
    omega
  have proper := tracks.proper late
  obtain ⟨next, advanced⟩ := proper.next
  rw [updates, if_pos ppd, follows.nextDay (by omega) (by omega) (by omega)] at day
  rw [updates, if_pos ppd, follows.nextMon (by omega) (by omega) (by omega) (by omega)] at mon
  rw [updates, ppd, Bool.true_and, follows.lastDayOfYear (by omega) (by omega) (by omega),
    follows.nextYear (by omega), fixYear_same proper.decimal] at year
  rw [← day, ← mon, ← year] at next advanced
  refine ⟨?_, advanced⟩
  constructor
  case block => rw [block, tracks.block, ← BitVec.shiftLeft_add]
  case decimal => exact fun _ => next.decimal
  case fits => exact fun _ => next.fits
  case month => exact fun _ => next.month
  case follows =>
    exact ⟨0, 0, 0, 0, .start _ _ _ _, fun early => by omega,
      fun _ => .inr ⟨Nat.le_refl 0, Nat.le_refl 0, Nat.le_refl 0, Nat.le_refl 0⟩⟩

theorem fixDay_same {leap : Bool} (fits : (monthLength mon leap).DayOf day) :
    fixDay (monthLength mon leap) day = day := by
  have kept : ∀ length ∈ [(⟨2, 8⟩ : Bcd 2), ⟨2, 9⟩, ⟨3, 0⟩, ⟨3, 1⟩], ∀ tens : BitVec 2,
      ∀ ones : BitVec 4, length.DayOf ⟨tens, ones⟩ → fixDay length ⟨tens, ones⟩ = ⟨tens, ones⟩ := by
    decide +kernel
  exact kept _ (monthLength_cases mon leap) day.tens day.ones fits

theorem fixMon_same (month : mon.Month) : fixMon mon = mon := by
  obtain ⟨tens, ones⟩ := mon
  revert tens ones
  decide

/-- The repairs keep a date of the calendar. -/
theorem Tracks.kept (tracks : Tracks date age pulse) (early : age < 10)
    (unwritten : writes clock = false) (proper : Proper date.rDay date.rMon date.rYear) :
    Proper (date.step clock).rDay (date.step clock).rMon (date.step clock).rYear := by
  obtain ⟨day, mon, year⟩ := tracks.repairs early unwritten
  have sameDay : fixDay (length date.rMon date.rYear) date.rDay = date.rDay :=
    fixDay_same proper.fits
  rw [sameDay, ite_self] at day
  rw [fixMon_same proper.month, ite_self] at mon
  rw [day, mon, year, fixYear_same proper.decimal]
  exact proper

/-- A clock of any run. -/
theorem Tracks.step (tracks : Tracks date age pulse)
    (late : clock.iPpd = true → 9 ≤ pulse) :
    Tracks (date.step clock) (aged (writes clock) age) (aged clock.iPpd pulse) := by
  cases written : writes clock with
  | true => exact step_write written _
  | false =>
      by_cases early : age < 10
      · exact tracks.repair early written _
      · cases ppd : clock.iPpd with
        | true => exact (tracks.advance (by omega) written ppd (late ppd)).1
        | false => exact tracks.stay (by omega) written ppd

/-- The registers of every run; power-up counts as a write. -/
theorem tracked {inputs : Nat → DateClock} (apart : Apart 10 fun time => (inputs time).iPpd)
    (oWbAck : Bool) (time : Nat) :
    Tracks (streamed RtcDate.step (init oWbAck) inputs time)
      (since 0 (fun time => writes (inputs time)) time)
      (since 10 (fun time => (inputs time).iPpd) time) := by
  induction time with
  | zero => exact init_tracks _ _
  | succ time ih =>
      refine ih.step fun pulse => ?_
      have := apart.since_ge pulse
      omega

/-- Every date is one of the calendar until something is written. -/
theorem proper_unwritten {inputs : Nat → DateClock}
    (apart : Apart 10 fun time => (inputs time).iPpd) (oWbAck : Bool) (time : Nat)
    (unwritten : ∀ earlier < time, writes (inputs earlier) = false) :
    let date := streamed RtcDate.step (init oWbAck) inputs time
    Proper date.rDay date.rMon date.rYear := by
  induction time with
  | zero => exact init_proper oWbAck
  | succ time ih =>
      have tracks := tracked apart oWbAck time
      have next := tracked apart oWbAck (time + 1)
      have now : writes (inputs time) = false := unwritten time (Nat.lt_succ_self time)
      rw [since, now, aged, if_neg Bool.false_ne_true] at next
      by_cases early : since 0 (fun time => writes (inputs time)) time < 10
      · exact tracks.kept early now (ih fun earlier less => unwritten earlier (by omega))
      · exact next.proper (by omega)

/-- Eleven clocks after a write, and as long as nothing was written, the
registers hold a date of the calendar; a pulse then moves them to the day after,
ten clocks after power-up at the earliest. -/
theorem calendar {inputs : Nat → DateClock} (apart : Apart 10 fun time => (inputs time).iPpd)
    (oWbAck : Bool) {time : Nat}
    (settled : ∀ written < time, writes (inputs written) = true → written + 11 ≤ time) :
    let date := streamed RtcDate.step (init oWbAck) inputs
    let dated := fun time => dateOf (date time).rDay (date time).rMon (date time).rYear
    Proper (date time).rDay (date time).rMon (date time).rYear ∧
      (dated time).Valid ∧ (dated time).year < 4000 ∧
      (10 ≤ time → writes (inputs time) = false → (inputs time).iPpd = true →
        dated (time + 1) = wrapped (dated time).next) := by
  intro date dated
  have tracks := tracked apart oWbAck time
  have proper : Proper (date time).rDay (date time).rMon (date time).rYear := by
    rcases since_cases 0 (fun time => writes (inputs time)) time with never | ⟨last, written, _⟩
    · refine proper_unwritten apart oWbAck time fun earlier less => ?_
      by_contra written
      have := @since_after (fun time => writes (inputs time)) 0 earlier time
        (Bool.of_not_eq_false written) less
      omega
    · have := settled last (by omega) written
      exact tracks.proper (by omega)
  refine ⟨proper, proper.valid, proper.decimal.value_lt, fun started unwritten ppd => ?_⟩
  have late : 10 ≤ since 0 (fun time => writes (inputs time)) time := by
    rcases since_cases 0 (fun time => writes (inputs time)) time with never | ⟨last, written, _⟩
    · omega
    · have := settled last (by omega) written
      omega
  have gap := apart.since_ge ppd
  exact (tracks.advance late unwritten ppd (by omega)).2

/-- A date written at the first clock and one pulse later. -/
def setDate (data : BitVec 32) (time : Nat) : DateClock where
  iPpd := time == 20
  iWbCycStb := time == 0
  iWbWe := true
  iWbData := data
  iWbSel := 0xf

/-- 2024 is a leap year. -/
theorem leap_day :
    let date := streamed RtcDate.step (init false) (setDate 0x20240228)
    dateOf (date 21).rDay (date 21).rMon (date 21).rYear = ⟨2024, 2, 29⟩ := by
  have settled : ∀ written < 20, writes (setDate 0x20240228 written) = true → written + 11 ≤ 20 := by
    decide
  have apart : Apart 10 fun time => (setDate 0x20240228 time).iPpd := apart_once 10 20
  exact ((calendar apart false settled).2.2.2 (by decide) (by decide) (by decide)).trans (by decide)

/-- After 3999 comes the year 0000. -/
theorem four_thousand_years :
    let date := streamed RtcDate.step (init false) (setDate 0x39991231)
    let dated := fun time => dateOf (date time).rDay (date time).rMon (date time).rYear
    Apart 10 (fun time => (setDate 0x39991231 time).iPpd) ∧
      (∀ written < 20, writes (setDate 0x39991231 written) = true → written + 11 ≤ 20) ∧
      (setDate 0x39991231 20).iPpd = true ∧ dated 20 = ⟨3999, 12, 31⟩ ∧ dated 21 = ⟨0, 1, 1⟩ ∧
      dated 21 ≠ (dated 20).next :=
  ⟨apart_once 10 20, by decide, by decide, by decide, by decide, by decide⟩

end RtcDate

end ZipVersa.Rtc
