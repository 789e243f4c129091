import Mathlib.Tactic.Common

/-! Pulses on an endless stream of clocks, and the number of clocks since the
last of them. -/

set_option autoImplicit false

namespace ZipVersa.Lib

/-- Pulses at least `gap` clocks apart. -/
def Apart (gap : Nat) (pulse : Nat → Bool) : Prop :=
  ∀ first second, first < second → pulse first = true → pulse second = true →
    first + gap ≤ second

theorem apart_once (gap moment : Nat) : Apart gap (· == moment) := by
  intro first second before pulsed again
  rw [beq_iff_eq] at pulsed again
  omega

/-- No pulse within the last `gap` clocks. -/
def Clear (gap : Nat) (pulse : Nat → Bool) (time : Nat) : Prop :=
  ∀ past < time, pulse past = true → past + gap ≤ time

/-- Pulses that come a clock after those of a source. -/
theorem clear_delayed {pulse source : Nat → Bool} (first : pulse 0 = false)
    (delayed : ∀ time, pulse (time + 1) = source time) (gap time : Nat) :
    Clear gap pulse (time + 1) ↔ Clear gap source time := by
  constructor
  · intro clear past before pulsed
    have := clear (past + 1) (by omega) ((delayed past).trans pulsed)
    omega
  · intro clear past before pulsed
    cases past with
    | zero => exact absurd (first.symm.trans pulsed) Bool.false_ne_true
    | succ past =>
        have := clear past (by omega) ((delayed past).symm.trans pulsed)
        omega

/-- The clocks since an event after a clock on which it happens or not. -/
def aged (event : Bool) (clocks : Nat) : Nat := if event then 0 else clocks + 1

theorem aged_ne_zero (event : Bool) (clocks : Nat) (some : aged event clocks ≠ 0) :
    event = false ∧ aged event clocks = clocks + 1 := by
  cases event with
  | true => exact absurd rfl some
  | false => exact ⟨rfl, rfl⟩

theorem aged_le (event : Bool) (clocks : Nat) : aged event clocks ≤ clocks + 1 := by
  cases event with
  | true => exact Nat.zero_le _
  | false => exact Nat.le_refl _

/-- Clocks since the last pulse; `start` more than the time before the first one. -/
def since (start : Nat) (pulse : Nat → Bool) : Nat → Nat
  | 0 => start
  | time + 1 => aged (pulse time) (since start pulse time)

variable {gap : Nat} {pulse : Nat → Bool}

theorem since_cases (start : Nat) (pulse : Nat → Bool) (time : Nat) :
    since start pulse time = start + time ∨
      ∃ last, pulse last = true ∧ since start pulse time + last + 1 = time := by
  induction time with
  | zero => exact .inl rfl
  | succ time ih =>
      rw [since, aged]
      split
      · case isTrue now => exact .inr ⟨time, now, by rw [Nat.zero_add]⟩
      · rcases ih with never | ⟨last, pulsed, before⟩
        · exact .inl (by rw [never, Nat.add_assoc])
        · exact .inr ⟨last, pulsed, by omega⟩

/-- By a pulse the last one is long past. -/
theorem Apart.since_ge (apart : Apart gap pulse) {time : Nat} (now : pulse time = true) :
    gap ≤ since gap pulse time + 1 := by
  rcases since_cases gap pulse time with never | ⟨last, pulsed, before⟩
  · omega
  · have := apart last time (by omega) pulsed now
    omega

theorem since_after {start first second : Nat} (pulsed : pulse first = true)
    (before : first < second) : since start pulse second + first + 1 ≤ second := by
  induction second with
  | zero => cases before
  | succ second ih =>
      rw [since]
      rcases Nat.lt_succ_iff_lt_or_eq.mp before with earlier | rfl
      · have := ih earlier
        have := aged_le (pulse second) (since start pulse second)
        omega
      · rw [pulsed, aged]
        simp

/-- Pulses that each come late after the last are apart. -/
theorem apart_of_since (start : Nat)
    (late : ∀ time, pulse time = true → gap ≤ since start pulse time + 1) : Apart gap pulse := by
  intro first second before pulsed again
  have waited : since start pulse second + first + 1 ≤ second := since_after pulsed before
  have := late second again
  omega

/-- A level that rises by at most `rate` a clock and pulses when it passes `size`. -/
theorem Apart.of_level (rate size : Nat) (level : Nat → Nat) (positive : 0 < rate)
    (enough : rate * (gap + 1) ≤ size)
    (start : if pulse 0 then level 0 ≤ rate else level 0 ≤ size)
    (next : ∀ time, if pulse (time + 1) then size ≤ level time + rate ∧ level (time + 1) ≤ rate
      else level (time + 1) ≤ level time + rate) : Apart gap pulse := by
  have waits (time : Nat) :
      level time ≤ rate * (if pulse time then 1 else since size pulse time + 2) := by
    induction time with
    | zero =>
        split_ifs at start ⊢
        · rw [Nat.mul_one]
          exact start
        · refine Nat.le_trans start (Nat.le_trans (Nat.le_mul_of_pos_left _ positive) ?_)
          exact Nat.mul_le_mul_left rate (Nat.le_add_right size 2)
    | succ time ih =>
        have step := next time
        split_ifs at step ⊢
        · rw [Nat.mul_one]
          exact step.2
        · refine Nat.le_trans step (Nat.le_trans (Nat.add_le_add_right ih rate) ?_)
          rw [← Nat.mul_succ, since, aged]
          refine Nat.mul_le_mul_left rate ?_
          split_ifs <;> omega
  refine apart_of_since size fun time pulsed => ?_
  cases time with
  | zero =>
      rw [since]
      refine Nat.le_trans (Nat.le_succ gap) (Nat.le_succ_of_le (Nat.le_trans ?_ enough))
      exact Nat.le_mul_of_pos_left _ positive
  | succ time =>
      have step := next time
      rw [if_pos pulsed] at step
      have filled := Nat.le_trans enough (Nat.le_trans step.1 (Nat.add_le_add_right (waits time) rate))
      rw [← Nat.mul_succ] at filled
      have clocks := Nat.le_of_mul_le_mul_left filled positive
      rw [since, aged]
      split_ifs at clocks ⊢ <;> omega

end ZipVersa.Lib
