import ZipVersa.Lib.Clocked
import ZipVersa.Lib.Pulses
import ZipVersa.Rtc.Bcd

/-! `rtcbare`, the time of day, with its input validated
(`OPT_PREVALIDATED_INPUT` zero). -/

set_option autoImplicit false

namespace ZipVersa.Rtc

open Lib

/-- 22 bits of a time: `[7:0]`, `[15:8]` and `[21:16]`. -/
@[ext] structure ClockTime where
  seconds : Bcd 4
  minutes : Bcd 4
  hours : Bcd 2
  deriving DecidableEq, Repr

namespace ClockTime

def midnight : ClockTime := ⟨⟨0, 0⟩, ⟨0, 0⟩, ⟨0, 0⟩⟩

/-- `22'h23_59_59`. -/
def lastSecond : ClockTime := ⟨⟨5, 9⟩, ⟨5, 9⟩, ⟨2, 3⟩⟩

def value (time : ClockTime) : Nat :=
  time.hours.value * 3600 + time.minutes.value * 60 + time.seconds.value

end ClockTime

def Fields.none : Fields := ⟨false, false, false⟩

/-- `carry[0]` to `carry[5]`. -/
structure Carry where
  carry0 : Bool
  carry1 : Bool
  carry2 : Bool
  carry3 : Bool
  carry4 : Bool
  carry5 : Bool
  deriving DecidableEq, Repr

def Carry.step (carry : Carry) (time : ClockTime) : Carry where
  carry0 := decide (9 ≤ time.seconds.ones)
  carry1 := decide (5 ≤ time.seconds.tens) && carry.carry0
  carry2 := decide (9 ≤ time.minutes.ones) && (carry.carry0 && carry.carry1)
  carry3 := decide (5 ≤ time.minutes.tens) && (carry.carry0 && carry.carry1 && carry.carry2)
  carry4 := decide (9 ≤ time.hours.ones) &&
    (carry.carry0 && carry.carry1 && carry.carry2 && carry.carry3)
  carry5 := decide (0x23 ≤ time.hours.word) &&
    (carry.carry0 && carry.carry1 && carry.carry2 && carry.carry3)

/-- `next_clock`. -/
def Carry.next (carry : Carry) (time : ClockTime) : ClockTime where
  seconds :=
    { tens := stepDigit carry.carry1 carry.carry0 time.seconds.tens
      ones := stepDigit carry.carry0 true time.seconds.ones }
  minutes :=
    { tens := stepDigit carry.carry3 carry.carry2 time.minutes.tens
      ones := stepDigit carry.carry2 carry.carry1 time.minutes.ones }
  hours :=
    { tens := stepDigit carry.carry5 carry.carry4 time.hours.tens
      ones := stepDigit (carry.carry4 || carry.carry5) carry.carry3 time.hours.ones }

structure BareClock where
  iReset : Bool
  iPps : Bool
  iWr : Bool
  iData : ClockTime
  iValid : Fields

structure RtcBare where
  bcdClock : ClockTime
  nextClock : ClockTime
  carry : Carry
  prePpd : Bool
  preValid : Fields
  preBcdClock : ClockTime
  suppressed : Fields
  suppressCount : BitVec 3

namespace RtcBare

/-- Power-up; `pre_bcd_clock` has no initial value. -/
def init (preBcdClock : ClockTime) : RtcBare where
  bcdClock := .midnight
  nextClock := { ClockTime.midnight with seconds := ⟨0, 1⟩ }
  carry := ⟨false, false, false, false, false, false⟩
  prePpd := false
  preValid := .none
  preBcdClock := preBcdClock
  suppressed := ⟨true, true, true⟩
  suppressCount := 5

/-- `pre_valid`. -/
def validated (clock : BareClock) : Fields :=
  if clock.iWr then
    { seconds := clock.iValid.seconds && decide (clock.iData.seconds.word ≤ 0x59) &&
        decide (clock.iData.seconds.ones ≤ 9)
      minutes := clock.iValid.minutes && decide (clock.iData.minutes.word ≤ 0x59) &&
        decide (clock.iData.minutes.ones ≤ 9)
      hours := clock.iValid.hours && decide (clock.iData.hours.word ≤ 0x23) &&
        decide (clock.iData.hours.ones ≤ 9) }
  else .none

/-- `suppressed`. -/
def suppression (rtc : RtcBare) : Fields :=
  if rtc.preValid ≠ .none then
    { seconds := rtc.suppressed.seconds || rtc.preValid.seconds
      minutes := rtc.suppressed.minutes || (rtc.preValid.minutes || rtc.preValid.seconds)
      hours := rtc.suppressed.hours ||
        (rtc.preValid.hours || rtc.preValid.minutes || rtc.preValid.seconds) }
  else if rtc.suppressCount > 0 then rtc.suppressed
  else .none

/-- A field of `bcd_clock`: a write before a second before the field as it is. -/
def loaded {w : Nat} (written counts : Bool) (pre next bcd : Bcd w) : Bcd w :=
  if written then pre else if counts then next else bcd

/-- `bcd_clock`. -/
def timed (rtc : RtcBare) (iPps : Bool) : ClockTime where
  seconds := loaded rtc.preValid.seconds (iPps && !rtc.suppressed.seconds)
    rtc.preBcdClock.seconds rtc.nextClock.seconds rtc.bcdClock.seconds
  minutes := loaded rtc.preValid.minutes (iPps && !rtc.suppressed.minutes)
    rtc.preBcdClock.minutes rtc.nextClock.minutes rtc.bcdClock.minutes
  hours := loaded rtc.preValid.hours (iPps && !rtc.suppressed.hours)
    rtc.preBcdClock.hours rtc.nextClock.hours rtc.bcdClock.hours

def step (rtc : RtcBare) (clock : BareClock) : RtcBare :=
  if clock.iReset then init clock.iData
  else
    { bcdClock := rtc.timed clock.iPps
      nextClock := rtc.carry.next rtc.bcdClock
      carry := rtc.carry.step rtc.bcdClock
      prePpd := rtc.bcdClock == .lastSecond
      preValid := validated clock
      preBcdClock := clock.iData
      suppressed := rtc.suppression
      suppressCount :=
        if rtc.preValid ≠ .none then 5
        else if rtc.suppressCount > 0 then rtc.suppressCount - 1
        else rtc.suppressCount }

def oData (rtc : RtcBare) : ClockTime := rtc.bcdClock

def oPpd (rtc : RtcBare) (clock : BareClock) : Bool := rtc.prePpd && clock.iPps

end RtcBare

/-! ### The carries -/

/-- The carries of a time that stays. -/
def ClockTime.carry (time : ClockTime) : Carry :=
  let carry0 := decide (9 ≤ time.seconds.ones)
  let carry1 := decide (5 ≤ time.seconds.tens) && carry0
  let carry2 := decide (9 ≤ time.minutes.ones) && carry1
  let carry3 := decide (5 ≤ time.minutes.tens) && carry2
  { carry0 := carry0
    carry1 := carry1
    carry2 := carry2
    carry3 := carry3
    carry4 := decide (9 ≤ time.hours.ones) && carry3
    carry5 := decide (0x23 ≤ time.hours.word) && carry3 }

/-- The second after a time. -/
def ClockTime.next (time : ClockTime) : ClockTime := time.carry.next time

/-- Two digits below sixty. -/
def Bcd.Sixty (bcd : Bcd 4) : Prop := bcd.ones.toNat < 10 ∧ bcd.tens.toNat < 6

/-- The hours of a day. -/
def Bcd.Day (bcd : Bcd 2) : Prop := bcd.ones.toNat < 10 ∧ bcd.value < 24

/-- The fields of a time in their range. -/
structure ClockTime.Valid (time : ClockTime) : Prop where
  seconds : time.seconds.Sixty
  minutes : time.minutes.Sixty
  hours : time.hours.Day

variable {time : ClockTime}

/-- Two digits below sixty with the carries between them. -/
theorem Bcd.Sixty.counts {bcd : Bcd 4} (sixty : bcd.Sixty) (carry : Bool) :
    let carryOnes := decide (9 ≤ bcd.ones) && carry
    let carryTens := decide (5 ≤ bcd.tens) && carryOnes
    let next : Bcd 4 := ⟨stepDigit carryTens carryOnes bcd.tens, stepDigit carryOnes carry bcd.ones⟩
    next.Sixty ∧ next.value + 60 * carryTens.toNat = bcd.value + carry.toNat := by
  intro carryOnes carryTens next
  obtain ⟨onesLess, tensLess⟩ := sixty
  obtain ⟨onesBelow, ones⟩ := stepDigit_counts 9
    (rfl : carryOnes = (decide (9 ≤ bcd.ones.toNat) && carry)) (by omega) (by decide)
  obtain ⟨tensBelow, tens⟩ := stepDigit_counts 5
    (rfl : carryTens = (decide (5 ≤ bcd.tens.toNat) && carryOnes)) (by omega) (by decide)
  refine ⟨⟨Nat.lt_succ_of_le onesBelow, Nat.lt_succ_of_le tensBelow⟩, ?_⟩
  simp only [Bcd.value, next]
  omega

/-- The hours wrap at 23 and at a nine. -/
theorem Bcd.Day.counts {bcd : Bcd 2} (day : bcd.Day) (carry : Bool) :
    let carryOnes := decide (9 ≤ bcd.ones) && carry
    let carryDay := decide (0x23 ≤ bcd.word) && carry
    let next : Bcd 2 :=
      ⟨stepDigit carryDay carryOnes bcd.tens, stepDigit (carryOnes || carryDay) carry bcd.ones⟩
    next.Day ∧ next.value + 24 * carryDay.toNat = bcd.value + carry.toNat := by
  obtain ⟨tens, ones⟩ := bcd
  revert tens ones carry
  simp only [Bcd.Day]
  decide

theorem ClockTime.Valid.value_lt (valid : time.Valid) : time.value < 86400 := by
  obtain ⟨⟨_, seconds⟩, ⟨_, minutes⟩, _, hours⟩ := valid
  simp only [ClockTime.value, Bcd.value] at hours ⊢
  omega

/-- The settled carries count a second, modulo the day. -/
theorem ClockTime.Valid.next (valid : time.Valid) :
    time.next.Valid ∧ time.next.value = (time.value + 1) % 86400 := by
  obtain ⟨secondsBelow, seconds⟩ := valid.seconds.counts true
  obtain ⟨minutesBelow, minutes⟩ := valid.minutes.counts time.carry.carry1
  obtain ⟨hoursBelow, hours⟩ := valid.hours.counts time.carry.carry3
  rw [Bool.and_true] at secondsBelow seconds
  have valid : time.next.Valid := ⟨secondsBelow, minutesBelow, hoursBelow⟩
  have passes : time.next.value + 86400 * time.carry.carry5.toNat = time.value + 1 := by
    have first : time.next.seconds.value + 60 * time.carry.carry1.toNat = time.seconds.value + 1 :=
      seconds
    have second : time.next.minutes.value + 60 * time.carry.carry3.toNat =
        time.minutes.value + time.carry.carry1.toNat := minutes
    have third : time.next.hours.value + 24 * time.carry.carry5.toNat =
        time.hours.value + time.carry.carry3.toNat := hours
    rw [ClockTime.value, ClockTime.value]
    omega
  exact ⟨valid, by rw [← passes, Nat.add_mul_mod_self_left, Nat.mod_eq_of_lt valid.value_lt]⟩

/-- The carries and the next time after the fields below each have stood for a
number of clocks. -/
structure Settled (time : ClockTime) (carry : Carry) (next : ClockTime)
    (seconds minutes hours : Nat) : Prop where
  carry0 : 1 ≤ seconds → carry.carry0 = time.carry.carry0
  carry1 : 2 ≤ seconds → carry.carry1 = time.carry.carry1
  nextSeconds : 3 ≤ seconds → next.seconds = time.next.seconds
  carry2 : 3 ≤ minutes → carry.carry2 = time.carry.carry2
  carry3 : 4 ≤ minutes → carry.carry3 = time.carry.carry3
  nextMinutes : 5 ≤ minutes → next.minutes = time.next.minutes
  carry4 : 5 ≤ hours → carry.carry4 = time.carry.carry4
  carry5 : 5 ≤ hours → carry.carry5 = time.carry.carry5
  nextHours : 6 ≤ hours → next.hours = time.next.hours

theorem carry_implies (before last : Bool) : (before && (last && before)) = (last && before) := by
  cases before <;> cases last <;> rfl

theorem ClockTime.carry0_carry1 : (time.carry.carry0 && time.carry.carry1) = time.carry.carry1 :=
  carry_implies _ _

theorem ClockTime.carry1_carry2 : (time.carry.carry1 && time.carry.carry2) = time.carry.carry2 :=
  carry_implies _ _

theorem ClockTime.carry2_carry3 : (time.carry.carry2 && time.carry.carry3) = time.carry.carry3 :=
  carry_implies _ _

variable {carry : Carry} {next : ClockTime} {seconds minutes hours : Nat}

/-- A clock that leaves the time as it is. -/
theorem Settled.stay (settled : Settled time carry next seconds minutes hours)
    (first : minutes ≤ seconds) (second : hours ≤ minutes) :
    Settled time (carry.step time) (carry.next time) (seconds + 1) (minutes + 1) (hours + 1) := by
  have below2 (age : 2 ≤ seconds) : (carry.carry0 && carry.carry1) = time.carry.carry1 := by
    rw [settled.carry0 (by omega), settled.carry1 age, ClockTime.carry0_carry1]
  have below3 (age : 3 ≤ minutes) :
      (carry.carry0 && carry.carry1 && carry.carry2) = time.carry.carry2 := by
    rw [below2 (by omega), settled.carry2 age, ClockTime.carry1_carry2]
  have below4 (age : 4 ≤ minutes) :
      (carry.carry0 && carry.carry1 && carry.carry2 && carry.carry3) = time.carry.carry3 := by
    rw [below3 (by omega), settled.carry3 age, ClockTime.carry2_carry3]
  constructor
  case carry0 => exact fun _ => rfl
  case carry1 =>
    intro age
    rw [Carry.step, settled.carry0 (by omega)]
    rfl
  case nextSeconds =>
    intro age
    rw [Carry.next, settled.carry0 (by omega), settled.carry1 (by omega)]
    rfl
  case carry2 =>
    intro age
    rw [Carry.step, below2 (by omega)]
    rfl
  case carry3 =>
    intro age
    rw [Carry.step, below3 (by omega)]
    rfl
  case nextMinutes =>
    intro age
    rw [Carry.next, settled.carry1 (by omega), settled.carry2 (by omega), settled.carry3 (by omega)]
    rfl
  case carry4 =>
    intro age
    rw [Carry.step, below4 (by omega)]
    rfl
  case carry5 =>
    intro age
    rw [Carry.step, below4 (by omega)]
    rfl
  case nextHours =>
    intro age
    rw [Carry.next, settled.carry3 (by omega), settled.carry4 (by omega), settled.carry5 (by omega)]
    rfl

/-- Fields that change are not settled, nor are those above them. -/
theorem Settled.change {after : ClockTime} {seconds' minutes' hours' : Nat}
    (settled : Settled time carry next seconds minutes hours)
    (sameSeconds : seconds' ≠ 0 → seconds' ≤ seconds ∧ after.seconds = time.seconds)
    (sameMinutes : minutes' ≠ 0 → seconds' ≠ 0 ∧ minutes' ≤ minutes ∧ after.minutes = time.minutes)
    (sameHours : hours' ≠ 0 → minutes' ≠ 0 ∧ hours' ≤ hours ∧ after.hours = time.hours) :
    Settled after carry next seconds' minutes' hours' := by
  obtain ⟨second, minute, hour⟩ := after
  have upTo1 {age : Nat} (some : 0 < age) (within : age ≤ seconds') :
      age ≤ seconds ∧ second = time.seconds := by
    obtain ⟨kept, same⟩ := sameSeconds (by omega)
    exact ⟨by omega, same⟩
  have upTo2 {age : Nat} (some : 0 < age) (within : age ≤ minutes') :
      age ≤ minutes ∧ second = time.seconds ∧ minute = time.minutes := by
    obtain ⟨below, kept, same⟩ := sameMinutes (by omega)
    exact ⟨by omega, (sameSeconds below).2, same⟩
  have upTo3 {age : Nat} (some : 0 < age) (within : age ≤ hours') :
      age ≤ hours ∧ second = time.seconds ∧ minute = time.minutes ∧ hour = time.hours := by
    obtain ⟨below, kept, same⟩ := sameHours (by omega)
    obtain ⟨first, _, both⟩ := sameMinutes below
    exact ⟨by omega, (sameSeconds first).2, both, same⟩
  constructor
  case carry0 | carry1 | nextSeconds =>
    intro age
    obtain ⟨enough, rfl⟩ := upTo1 (by decide) age
    first
    | exact settled.carry0 enough
    | exact settled.carry1 enough
    | exact settled.nextSeconds enough
  case carry2 | carry3 | nextMinutes =>
    intro age
    obtain ⟨enough, rfl, rfl⟩ := upTo2 (by decide) age
    first
    | exact settled.carry2 enough
    | exact settled.carry3 enough
    | exact settled.nextMinutes enough
  case carry4 | carry5 | nextHours =>
    intro age
    obtain ⟨enough, rfl, rfl, rfl⟩ := upTo3 (by decide) age
    first
    | exact settled.carry4 enough
    | exact settled.carry5 enough
    | exact settled.nextHours enough

theorem midnight_valid : ClockTime.midnight.Valid :=
  ⟨⟨by decide, by decide⟩, ⟨by decide, by decide⟩, ⟨by decide, by decide⟩⟩

theorem midnight_settled (seconds minutes hours : Nat) :
    Settled .midnight ⟨false, false, false, false, false, false⟩
      { ClockTime.midnight with seconds := ⟨0, 1⟩ } seconds minutes hours := by
  have carry : ClockTime.midnight.carry = ⟨false, false, false, false, false, false⟩ := by decide
  have next : ClockTime.midnight.next = { ClockTime.midnight with seconds := ⟨0, 1⟩ } := by decide
  rw [← carry, ← next]
  constructor <;> exact fun _ => rfl

namespace RtcBare

/-- The registers some clocks after the last second pulse, and after the last
writes to the seconds, to the minutes or below, and to any field. -/
structure Tracks (rtc : RtcBare) (pps seconds minutes hours : Nat) : Prop where
  settled : Settled rtc.bcdClock rtc.carry rtc.nextClock
    (min pps seconds) (min pps minutes) (min pps hours)
  ordered : minutes ≤ seconds ∧ hours ≤ minutes
  secondsFree : rtc.suppressed.seconds = false → 6 ≤ seconds
  minutesFree : rtc.suppressed.minutes = false → 6 ≤ minutes
  hoursFree : rtc.suppressed.hours = false → 6 ≤ hours
  counted : 5 ≤ rtc.suppressCount.toNat + hours
  valid : rtc.bcdClock.Valid
  preSeconds : rtc.preValid.seconds = true → rtc.preBcdClock.seconds.Sixty
  preMinutes : rtc.preValid.minutes = true → rtc.preBcdClock.minutes.Sixty
  preHours : rtc.preValid.hours = true → rtc.preBcdClock.hours.Day
  prePpd : 0 < min pps hours → rtc.prePpd = (rtc.bcdClock == .lastSecond)

theorem init_tracks (preBcdClock : ClockTime) (pps : Nat) : Tracks (init preBcdClock) pps 0 0 0 where
  settled := midnight_settled _ _ _
  ordered := ⟨Nat.le_refl _, Nat.le_refl _⟩
  secondsFree free := nomatch free
  minutesFree free := nomatch free
  hoursFree free := nomatch free
  counted := Nat.le_refl 5
  valid := midnight_valid
  preSeconds written := nomatch written
  preMinutes written := nomatch written
  preHours written := nomatch written
  prePpd _ := rfl

variable {rtc : RtcBare} {clock : BareClock} {pps : Nat}

theorem loaded_eq {w : Nat} {written counts : Bool} {pre next bcd : Bcd w} (kept : written = false)
    (still : counts = false) : loaded written counts pre next bcd = bcd := by
  rw [loaded, kept, still]
  rfl

/-- A field that is loaded holds what it is loaded with. -/
theorem loaded_of {w : Nat} {Holds : Bcd w → Prop} {written counts : Bool} {pre next bcd : Bcd w}
    (first : written = true → Holds pre) (second : counts = true → Holds next) (third : Holds bcd) :
    Holds (loaded written counts pre next bcd) := by
  rw [loaded]
  split_ifs with isWritten isCounted
  · exact first isWritten
  · exact second isCounted
  · exact third

/-- A pulse finds the fields it counts settled. -/
theorem Tracks.due (tracks : Tracks rtc pps seconds minutes hours) (late : 8 ≤ pps) :
    (rtc.suppressed.seconds = false → rtc.nextClock.seconds = rtc.bcdClock.next.seconds) ∧
      (rtc.suppressed.minutes = false → rtc.nextClock.minutes = rtc.bcdClock.next.minutes) ∧
      (rtc.suppressed.hours = false → rtc.nextClock.hours = rtc.bcdClock.next.hours) := by
  refine ⟨fun free => ?_, fun free => ?_, fun free => ?_⟩
  · have := tracks.secondsFree free
    exact tracks.settled.nextSeconds (by omega)
  · have := tracks.minutesFree free
    exact tracks.settled.nextMinutes (by omega)
  · have := tracks.hoursFree free
    exact tracks.settled.nextHours (by omega)

theorem Tracks.timed_valid (tracks : Tracks rtc pps seconds minutes hours) {iPps : Bool}
    (late : iPps = true → 8 ≤ pps) : (rtc.timed iPps).Valid := by
  have next := tracks.valid.next.1
  constructor
  case seconds =>
    refine loaded_of tracks.preSeconds (fun counts => ?_) tracks.valid.seconds
    obtain ⟨pulse, free⟩ := (Bool.and_eq_true _ _).mp counts
    rw [(tracks.due (late pulse)).1 (by simpa using free)]
    exact next.seconds
  case minutes =>
    refine loaded_of tracks.preMinutes (fun counts => ?_) tracks.valid.minutes
    obtain ⟨pulse, free⟩ := (Bool.and_eq_true _ _).mp counts
    rw [(tracks.due (late pulse)).2.1 (by simpa using free)]
    exact next.minutes
  case hours =>
    refine loaded_of tracks.preHours (fun counts => ?_) tracks.valid.hours
    obtain ⟨pulse, free⟩ := (Bool.and_eq_true _ _).mp counts
    rw [(tracks.due (late pulse)).2.2 (by simpa using free)]
    exact next.hours

/-- What passes the validation is in range. -/
theorem validated_sound (clock : BareClock) :
    ((validated clock).seconds = true → clock.iData.seconds.Sixty) ∧
      ((validated clock).minutes = true → clock.iData.minutes.Sixty) ∧
      ((validated clock).hours = true → clock.iData.hours.Day) := by
  have sixty (bcd : Bcd 4) (word : bcd.word ≤ 0x59) (ones : bcd.ones ≤ 9) : bcd.Sixty := by
    have whole : bcd.word.toNat ≤ 0x59 := word
    have low : bcd.ones.toNat ≤ 9 := ones
    rw [Bcd.word_toNat] at whole
    exact ⟨by omega, by omega⟩
  have day (bcd : Bcd 2) (word : bcd.word ≤ 0x23) (ones : bcd.ones ≤ 9) : bcd.Day := by
    have whole : bcd.word.toNat ≤ 0x23 := word
    have low : bcd.ones.toNat ≤ 9 := ones
    rw [Bcd.word_toNat] at whole
    refine ⟨by omega, ?_⟩
    rw [Bcd.value]
    omega
  rw [validated]
  split
  · simp only [Bool.and_eq_true, decide_eq_true_eq]
    exact ⟨fun checked => sixty _ checked.1.2 checked.2, fun checked => sixty _ checked.1.2 checked.2,
      fun checked => day _ checked.1.2 checked.2⟩
  · exact ⟨Bool.noConfusion, Bool.noConfusion, Bool.noConfusion⟩

/-- Which fields are written, or one below them. -/
def written (rtc : RtcBare) : Fields where
  seconds := rtc.preValid.seconds
  minutes := rtc.preValid.seconds || rtc.preValid.minutes
  hours := rtc.preValid.seconds || rtc.preValid.minutes || rtc.preValid.hours

/-- The suppression of a field outlasts every write at or below it by six clocks. -/
theorem Tracks.free (tracks : Tracks rtc pps seconds minutes hours) :
    (rtc.suppression.seconds = false → rtc.written.seconds = false ∧ 6 ≤ seconds + 1) ∧
      (rtc.suppression.minutes = false → rtc.written.minutes = false ∧ 6 ≤ minutes + 1) ∧
      (rtc.suppression.hours = false → rtc.written.hours = false ∧ 6 ≤ hours + 1) := by
  have ordered := tracks.ordered
  have counted := tracks.counted
  have first := tracks.secondsFree
  have second := tracks.minutesFree
  have third := tracks.hoursFree
  rw [suppression, RtcBare.written]
  split_ifs with written counting
  · simp only [Bool.or_eq_false_iff]
    refine ⟨fun ⟨free, below⟩ => ⟨below, ?_⟩, fun ⟨free, minute, below⟩ => ⟨⟨below, minute⟩, ?_⟩,
      fun ⟨free, ⟨hour, minute⟩, below⟩ => ⟨⟨⟨below, minute⟩, hour⟩, ?_⟩⟩
    · exact Nat.le_succ_of_le (first free)
    · exact Nat.le_succ_of_le (second free)
    · exact Nat.le_succ_of_le (third free)
  · rw [not_not] at written
    rw [written]
    exact ⟨fun free => ⟨rfl, Nat.le_succ_of_le (first free)⟩,
      fun free => ⟨rfl, Nat.le_succ_of_le (second free)⟩,
      fun free => ⟨rfl, Nat.le_succ_of_le (third free)⟩⟩
  · rw [not_not] at written
    have zero : rtc.suppressCount.toNat = 0 := Nat.eq_zero_of_not_pos counting
    rw [written]
    exact ⟨fun _ => ⟨rfl, by omega⟩, fun _ => ⟨rfl, by omega⟩, fun _ => ⟨rfl, by omega⟩⟩

/-- A clock without a pulse leaves the fields it does not write. -/
theorem timed_stays (still : clock.iPps = false) :
    (rtc.preValid.seconds = false → (rtc.timed clock.iPps).seconds = rtc.bcdClock.seconds) ∧
      (rtc.preValid.minutes = false → (rtc.timed clock.iPps).minutes = rtc.bcdClock.minutes) ∧
      (rtc.preValid.hours = false → (rtc.timed clock.iPps).hours = rtc.bcdClock.hours) := by
  rw [still]
  exact ⟨fun kept => loaded_eq kept rfl, fun kept => loaded_eq kept rfl,
    fun kept => loaded_eq kept rfl⟩

theorem Tracks.settled_step (tracks : Tracks rtc pps seconds minutes hours) (clock : BareClock) :
    Settled (rtc.timed clock.iPps) (rtc.carry.step rtc.bcdClock) (rtc.carry.next rtc.bcdClock)
      (min (aged clock.iPps pps) (aged rtc.written.seconds seconds))
      (min (aged clock.iPps pps) (aged rtc.written.minutes minutes))
      (min (aged clock.iPps pps) (aged rtc.written.hours hours)) := by
  have ordered := tracks.ordered
  refine (tracks.settled.stay (by omega) (by omega)).change ?_ ?_ ?_
  · intro some
    obtain ⟨pulse, clocks⟩ := aged_ne_zero clock.iPps pps (by omega)
    obtain ⟨kept, age⟩ := aged_ne_zero rtc.written.seconds seconds (by omega)
    exact ⟨by omega, (timed_stays pulse).1 kept⟩
  · intro some
    obtain ⟨pulse, clocks⟩ := aged_ne_zero clock.iPps pps (by omega)
    obtain ⟨kept, age⟩ := aged_ne_zero rtc.written.minutes minutes (by omega)
    obtain ⟨second, minute⟩ := Bool.or_eq_false_iff.mp kept
    have lower : aged rtc.written.seconds seconds = seconds + 1 := by
      rw [written, second]
      rfl
    exact ⟨by omega, by omega, (timed_stays pulse).2.1 minute⟩
  · intro some
    obtain ⟨pulse, clocks⟩ := aged_ne_zero clock.iPps pps (by omega)
    obtain ⟨kept, age⟩ := aged_ne_zero rtc.written.hours hours (by omega)
    obtain ⟨below, hour⟩ := Bool.or_eq_false_iff.mp kept
    have lower : aged rtc.written.minutes minutes = minutes + 1 := by
      rw [written, below]
      rfl
    exact ⟨by omega, by omega, (timed_stays pulse).2.2 hour⟩

/-- `suppress_count` counts the clocks since the last write. -/
theorem Tracks.counted_step (tracks : Tracks rtc pps seconds minutes hours) :
    5 ≤ (if rtc.preValid ≠ .none then (5 : BitVec 3)
      else if rtc.suppressCount > 0 then rtc.suppressCount - 1
      else rtc.suppressCount).toNat + aged rtc.written.hours hours := by
  have counted := tracks.counted
  split_ifs with isWritten counting
  · exact Nat.le_add_right 5 _
  · rw [written, not_not.mp isWritten]
    have one : (rtc.suppressCount - 1).toNat = rtc.suppressCount.toNat - 1 :=
      BitVec.toNat_sub_of_le counting
    change 5 ≤ (rtc.suppressCount - 1).toNat + (hours + 1)
    omega
  · rw [written, not_not.mp isWritten]
    change 5 ≤ rtc.suppressCount.toNat + (hours + 1)
    omega

/-- Without a pulse or a write the time stands. -/
theorem timed_same (still : clock.iPps = false) (unwritten : rtc.written.hours = false) :
    rtc.timed clock.iPps = rtc.bcdClock := by
  simp only [written, Bool.or_eq_false_iff] at unwritten
  obtain ⟨⟨seconds, minutes⟩, hours⟩ := unwritten
  obtain ⟨sameSeconds, sameMinutes, sameHours⟩ := timed_stays still
  exact ClockTime.ext (sameSeconds seconds) (sameMinutes minutes) (sameHours hours)

theorem Tracks.step (tracks : Tracks rtc pps seconds minutes hours)
    (late : clock.iPps = true → 8 ≤ pps) :
    ∃ seconds minutes hours, Tracks (rtc.step clock) (aged clock.iPps pps) seconds minutes hours := by
  rw [RtcBare.step]
  split
  · exact ⟨0, 0, 0, init_tracks _ _⟩
  obtain ⟨freeSeconds, freeMinutes, freeHours⟩ := tracks.free
  obtain ⟨soundSeconds, soundMinutes, soundHours⟩ := validated_sound clock
  have ordered := tracks.ordered
  refine ⟨aged rtc.written.seconds seconds, aged rtc.written.minutes minutes,
    aged rtc.written.hours hours, ?_⟩
  constructor
  case settled => exact tracks.settled_step clock
  case ordered =>
    unfold written
    cases rtc.preValid.seconds <;> cases rtc.preValid.minutes <;> cases rtc.preValid.hours <;>
      simp only [aged, Bool.or_false, Bool.or_true, if_true, Bool.false_eq_true, if_false] <;> omega
  case secondsFree =>
    intro free
    obtain ⟨unwritten, enough⟩ := freeSeconds free
    rw [unwritten]
    exact enough
  case minutesFree =>
    intro free
    obtain ⟨unwritten, enough⟩ := freeMinutes free
    rw [unwritten]
    exact enough
  case hoursFree =>
    intro free
    obtain ⟨unwritten, enough⟩ := freeHours free
    rw [unwritten]
    exact enough
  case counted => exact tracks.counted_step
  case valid => exact tracks.timed_valid late
  case preSeconds => exact soundSeconds
  case preMinutes => exact soundMinutes
  case preHours => exact soundHours
  case prePpd =>
    intro some
    obtain ⟨pulse, _⟩ := aged_ne_zero clock.iPps pps (by omega)
    obtain ⟨kept, _⟩ := aged_ne_zero rtc.written.hours hours (by omega)
    change (rtc.bcdClock == .lastSecond) = (rtc.timed clock.iPps == .lastSecond)
    rw [timed_same pulse kept]

/-- The registers of every run. -/
theorem tracked {inputs : Nat → BareClock} (apart : Apart 9 fun time => (inputs time).iPps)
    (preBcdClock : ClockTime) (time : Nat) :
    ∃ seconds minutes hours, Tracks (streamed RtcBare.step (init preBcdClock) inputs time)
      (since 9 (fun time => (inputs time).iPps) time) seconds minutes hours := by
  induction time with
  | zero => exact ⟨0, 0, 0, init_tracks _ _⟩
  | succ time ih =>
      obtain ⟨_, _, _, tracks⟩ := ih
      refine tracks.step fun pulse => ?_
      have := apart.since_ge pulse
      omega

/-- A second pulse between the writes. -/
theorem Tracks.second (tracks : Tracks rtc pps seconds minutes hours) (late : 8 ≤ pps)
    (pulse : clock.iPps = true) (unsuppressed : rtc.suppressed = .none)
    (unwritten : rtc.preValid = .none) : rtc.timed clock.iPps = rtc.bcdClock.next := by
  obtain ⟨first, second, third⟩ := tracks.due late
  rw [unsuppressed] at first second third
  rw [timed, pulse, unsuppressed, unwritten]
  exact ClockTime.ext (first rfl) (second rfl) (third rfl)

theorem time_of_day {inputs : Nat → BareClock} (apart : Apart 9 fun time => (inputs time).iPps)
    (preBcdClock : ClockTime) (time : Nat) :
    let rtc := streamed RtcBare.step (init preBcdClock) inputs
    (rtc time).oData.Valid ∧
      ((inputs time).iReset = false → (inputs time).iPps = true →
        (rtc time).suppressed = .none → (rtc time).preValid = .none →
          (rtc (time + 1)).oData.value = ((rtc time).oData.value + 1) % 86400) := by
  intro rtc
  obtain ⟨_, _, _, tracks⟩ := tracked apart preBcdClock time
  refine ⟨tracks.valid, fun running pulse unsuppressed unwritten => ?_⟩
  have late := apart.since_ge pulse
  have next : (rtc (time + 1)).oData = (rtc time).oData.next := by
    change ((rtc time).step (inputs time)).bcdClock = (rtc time).bcdClock.next
    rw [RtcBare.step, running]
    exact tracks.second (by omega) pulse unsuppressed unwritten
  rw [next]
  exact tracks.valid.next.2

/-- 23:59:59 written at the first clock. -/
def setLate (pulses : Nat → Bool) (time : Nat) : BareClock where
  iReset := false
  iPps := pulses time
  iWr := time == 0
  iData := .lastSecond
  iValid := ⟨true, true, true⟩

theorem midnight_by_pulse :
    (streamed RtcBare.step (init .midnight) (setLate (· == 8)) 9).oData.value =
      ((streamed RtcBare.step (init .midnight) (setLate (· == 8)) 8).oData.value + 1) % 86400 :=
  (time_of_day (apart_once 9 8 : Apart 9 fun time => (setLate (· == 8) time).iPps) .midnight 8).2
    (by decide) (by decide) (by decide) (by decide)

/-! ### The strobe of the day -/

/-- The strobe is high on a clock exactly if the time rolls over there. -/
def Strobes (inputs : Nat → BareClock) (preBcdClock : ClockTime) (time : Nat) : Prop :=
  let rtc := streamed RtcBare.step (init preBcdClock) inputs
  (rtc time).oPpd (inputs time) = true ↔
    (rtc time).oData = .lastSecond ∧ (rtc (time + 1)).oData = .midnight

instance (inputs : Nat → BareClock) (preBcdClock : ClockTime) (time : Nat) :
    Decidable (Strobes inputs preBcdClock time) :=
  inferInstanceAs (Decidable (_ ↔ _))

/-- Each field is written with zero, or left to a second pulse that it may take. -/
def Zeroed (rtc : RtcBare) (iPps : Bool) : Prop :=
  (if rtc.preValid.seconds then rtc.preBcdClock.seconds = ⟨0, 0⟩
    else (iPps && !rtc.suppressed.seconds) = true) ∧
  (if rtc.preValid.minutes then rtc.preBcdClock.minutes = ⟨0, 0⟩
    else (iPps && !rtc.suppressed.minutes) = true) ∧
  (if rtc.preValid.hours then rtc.preBcdClock.hours = ⟨0, 0⟩
    else (iPps && !rtc.suppressed.hours) = true)

/-- Where no write takes effect, a pulse that finds `pre_ppd` finds no field
suppressed. Where one does, it leaves midnight of 23:59:59 with a pulse and not
without one. Right behind another write, whose time `pre_ppd` has not seen, it
does with just the pulses that find `pre_ppd`. -/
def Unheld (rtc : RtcBare) (iPps : Bool) : Prop :=
  if rtc.preValid = .none then iPps = true → rtc.prePpd = true → rtc.suppressed = .none
  else if iPps = false then rtc.bcdClock = .lastSecond → ¬rtc.Zeroed false
  else if rtc.suppressCount < 5 then rtc.bcdClock = .lastSecond → rtc.Zeroed true
  else if rtc.prePpd = true then rtc.bcdClock = .lastSecond ∧ rtc.Zeroed true
  else rtc.bcdClock = .lastSecond → ¬rtc.Zeroed true

theorem loaded_eq_iff {w : Nat} {written counts : Bool} {pre next bcd zero : Bcd w}
    (counted : counts = true → next = zero) (apart : bcd ≠ zero) :
    loaded written counts pre next bcd = zero ↔ if written then pre = zero else counts = true := by
  cases written with
  | true => exact Iff.rfl
  | false =>
      cases counts with
      | true => exact iff_of_true (counted rfl) rfl
      | false => exact iff_of_false apart Bool.noConfusion

theorem Tracks.zeroed_iff (tracks : Tracks rtc pps seconds minutes hours) {iPps : Bool}
    (late : iPps = true → 8 ≤ pps) (last : rtc.bcdClock = .lastSecond) :
    rtc.timed iPps = .midnight ↔ rtc.Zeroed iPps := by
  have next : rtc.bcdClock.next = .midnight := by
    rw [last]
    decide
  have due {suppressed : Bool} (counts : (iPps && !suppressed) = true) :
      8 ≤ pps ∧ suppressed = false := by
    simp only [Bool.and_eq_true, Bool.not_eq_true'] at counts
    exact ⟨late counts.1, counts.2⟩
  have second : (rtc.timed iPps).seconds = ⟨0, 0⟩ ↔ _ :=
    loaded_eq_iff (fun counts => by
      rw [(tracks.due (due counts).1).1 (due counts).2, next]
      rfl) (by rw [last]; decide)
  have minute : (rtc.timed iPps).minutes = ⟨0, 0⟩ ↔ _ :=
    loaded_eq_iff (fun counts => by
      rw [(tracks.due (due counts).1).2.1 (due counts).2, next]
      rfl) (by rw [last]; decide)
  have hour : (rtc.timed iPps).hours = ⟨0, 0⟩ ↔ _ :=
    loaded_eq_iff (fun counts => by
      rw [(tracks.due (due counts).1).2.2 (due counts).2, next]
      rfl) (by rw [last]; decide)
  rw [Zeroed, ← second, ← minute, ← hour, ClockTime.ext_iff]
  rfl

theorem zeroed_of_unwritten (unwritten : rtc.preValid = .none) {iPps : Bool} :
    rtc.Zeroed iPps ↔ iPps = true ∧ rtc.suppressed = .none := by
  rw [Zeroed, unwritten]
  obtain ⟨seconds, minutes, hours⟩ := rtc.suppressed
  cases iPps <;> cases seconds <;> cases minutes <;> cases hours <;> simp [Fields.none]

/-- Between the writes `pre_ppd` tells at a pulse that the day ends. -/
theorem Tracks.prePpd_iff (tracks : Tracks rtc pps seconds minutes hours) (late : 8 ≤ pps)
    (unsuppressed : rtc.suppressed = .none) : rtc.prePpd = true ↔ rtc.bcdClock = .lastSecond := by
  have some := tracks.hoursFree (by rw [unsuppressed]; rfl)
  rw [tracks.prePpd (by omega), beq_iff_eq]

theorem strobes_iff_zeroed {inputs : Nat → BareClock}
    (apart : Apart 9 fun time => (inputs time).iPps) (preBcdClock : ClockTime) {time : Nat}
    (running : (inputs time).iReset = false) :
    let rtc := streamed RtcBare.step (init preBcdClock) inputs time
    Strobes inputs preBcdClock time ↔ (rtc.oPpd (inputs time) = true ↔
      rtc.bcdClock = .lastSecond ∧ rtc.Zeroed (inputs time).iPps) := by
  intro rtc
  obtain ⟨_, _, _, tracks⟩ := tracked apart preBcdClock time
  have next : (streamed RtcBare.step (init preBcdClock) inputs (time + 1)).oData =
      rtc.timed (inputs time).iPps := by
    change (rtc.step (inputs time)).bcdClock = _
    rw [RtcBare.step, running]
    rfl
  have rolls : rtc.bcdClock = .lastSecond ∧ rtc.timed (inputs time).iPps = .midnight ↔
      rtc.bcdClock = .lastSecond ∧ rtc.Zeroed (inputs time).iPps := by
    refine and_congr_right fun last => tracks.zeroed_iff (fun pulse => ?_) last
    have := apart.since_ge pulse
    omega
  rw [Strobes, next, ← rolls]
  rfl

/-- The strobe is right exactly on the clocks that neither hold nor overwrite the
time against it. -/
theorem strobes_iff {inputs : Nat → BareClock} (apart : Apart 9 fun time => (inputs time).iPps)
    (preBcdClock : ClockTime) {time : Nat} (running : (inputs time).iReset = false) :
    Strobes inputs preBcdClock time ↔
      (streamed RtcBare.step (init preBcdClock) inputs time).Unheld (inputs time).iPps := by
  refine (strobes_iff_zeroed apart preBcdClock running).trans ?_
  obtain ⟨_, _, _, tracks⟩ := tracked apart preBcdClock time
  have late (pulse : (inputs time).iPps = true) := apart.since_ge pulse
  generalize streamed RtcBare.step (init preBcdClock) inputs time = rtc at tracks ⊢
  rw [Unheld, oPpd, Bool.and_eq_true]
  split
  · case isTrue unwritten =>
    rw [zeroed_of_unwritten unwritten]
    constructor
    · intro exact pulse early
      exact (exact.mp ⟨early, pulse⟩).2.2
    · intro unheld
      constructor
      · rintro ⟨early, pulse⟩
        have free := unheld pulse early
        have := late pulse
        exact ⟨(tracks.prePpd_iff (by omega) free).mp early, pulse, free⟩
      · rintro ⟨last, pulse, free⟩
        have := late pulse
        exact ⟨(tracks.prePpd_iff (by omega) free).mpr last, pulse⟩
  · case isFalse written =>
    cases pulse : (inputs time).iPps with
    | false => simp
    | true =>
        have long := late pulse
        rw [if_neg (by decide)]
        split
        · case isTrue earlier =>
          have few : rtc.suppressCount.toNat < 5 := earlier
          have counted := tracks.counted
          rw [tracks.prePpd (by omega), beq_iff_eq]
          simp
        · case isFalse behind => cases rtc.prePpd <;> simp

/-- A second pulse that comes late enough behind the write of 23:59:59. -/
theorem strobe_at_midnight : Strobes (setLate (· == 8)) .midnight 8 := by
  refine (strobes_iff (apart_once 9 8 : Apart 9 fun time => (setLate (· == 8) time).iPps)
    .midnight rfl).mpr ?_
  rw [Unheld, if_pos (by decide)]
  decide

/-- 23:59:59 takes effect, and a second later than two clocks finds it held. -/
theorem strobe_while_held :
    Apart 9 (fun time => (setLate (· == 3) time).iPps) ∧
      (streamed RtcBare.step (init .midnight) (setLate (· == 3)) 3).oPpd (setLate (· == 3) 3) =
        true ∧
      (streamed RtcBare.step (init .midnight) (setLate (· == 3)) 4).oData = .lastSecond ∧
      ¬ Strobes (setLate (· == 3)) .midnight 3 :=
  ⟨apart_once 9 3, by decide, by decide, by decide⟩

end RtcBare

end ZipVersa.Rtc
