import Mathlib.Tactic.Common

/-! The Gregorian calendar, its years reckoned backwards and onwards without end. -/

set_option autoImplicit false

namespace ZipVersa.Lib.Calendar

def isLeap (year : Nat) : Bool := year % 4 == 0 && (year % 100 != 0 || year % 400 == 0)

/-- The days of a month, in a leap year or not. -/
def daysIn (leap : Bool) : Nat → Nat
  | 2 => if leap then 29 else 28
  | 4 | 6 | 9 | 11 => 30
  | _ => 31

@[ext] structure Date where
  year : Nat
  month : Nat
  day : Nat
  deriving DecidableEq, Repr

structure Date.Valid (date : Date) : Prop where
  month : 1 ≤ date.month ∧ date.month ≤ 12
  day : 1 ≤ date.day ∧ date.day ≤ daysIn (isLeap date.year) date.month

/-- The day after. -/
def Date.next (date : Date) : Date :=
  if date.day < daysIn (isLeap date.year) date.month then { date with day := date.day + 1 }
  else if date.month < 12 then ⟨date.year, date.month + 1, 1⟩
  else ⟨date.year + 1, 1, 1⟩

end ZipVersa.Lib.Calendar
