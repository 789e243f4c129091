import ZipVersa.Enet.Transmitter

/-! `txespeed`, the last circuit of the transmit side: the bytes of the packet
as they go to the PHY, two nibbles a byte below a gigabit, and the clock enable
`o_ce` of all the stages before it. -/

set_option autoImplicit false

namespace ZipVersa.Enet

open Lib

structure TxeSpeed where
  rSpd : BitVec 2
  rCe : Bool
  ckCounter : BitVec 7
  oCk : BitVec 2
  rBuf : BitVec 4
  secondHalf : Bool
  oV : Bool
  oD : Byte
  oCe : Bool
  deriving DecidableEq, Repr

namespace TxeSpeed

def ck10m : Nat := 50

def ck100m : Nat := 5

def ck1g : Nat := 1

def spd10m : BitVec 2 := 2

def spd100m : BitVec 2 := 1

def spd1g : BitVec 2 := 0

/-- The wires into the circuit at an edge of `i_clk`. -/
structure Clock where
  iReset : Bool
  iSpd : BitVec 2
  iV : Bool
  iD : Byte
  deriving DecidableEq, Repr

/-- `o_ck` within a symbol of `ck` clocks; `HLF` is `ck / 2`. -/
def halfCk (ck : Nat) (counter : BitVec 7) : BitVec 2 :=
  if ck % 2 = 1 ∧ counter.toNat = ck / 2 + 1 then 2
  else if counter.toNat ≤ ck / 2 then 0
  else 3

/-- The line between packets tells the link state and the speed, in each nibble
bit 0 and bits 2:1. The upper bits of the nibbles are set as the pair
`{ o_d[7], o_d[3] } <= 1`. -/
def status (rSpd : BitVec 2) : Byte :=
  let speed : BitVec 2 := if rSpd = spd100m then 1 else if rSpd = spd10m then 0 else 2
  0#1 ++ speed ++ 1#1 ++ 1#1 ++ speed ++ 1#1

def twice (nibble : BitVec 4) : Byte := nibble ++ nibble

def step (speed : TxeSpeed) (clock : Clock) : TxeSpeed where
  rSpd :=
    if clock.iReset then spd1g
    else if !speed.oV && (speed.rSpd == spd1g || speed.ckCounter == 1) then clock.iSpd
    else speed.rSpd
  rCe :=
    if clock.iReset then true
    else if speed.rCe then
      (if speed.rSpd = spd10m then false
      else if speed.rSpd = spd100m then false
      else decide (ck1g ≤ 1))
    else decide (speed.ckCounter.toNat ≤ 1)
  ckCounter :=
    if clock.iReset then 0
    else if speed.rCe then
      (if speed.rSpd = spd10m then BitVec.ofNat 7 (ck10m - 1)
      else if speed.rSpd = spd100m then BitVec.ofNat 7 (ck100m - 1)
      else BitVec.ofNat 7 (ck1g - 1))
    else speed.ckCounter - 1
  oCk :=
    if clock.iReset then 2
    else if speed.rSpd = spd1g then 2
    else if speed.rCe then 3
    else if speed.rSpd = spd10m then halfCk ck10m speed.ckCounter
    else halfCk ck100m speed.ckCounter
  rBuf := if speed.rCe then clock.iD.extractLsb' 4 4 else speed.rBuf
  secondHalf :=
    if clock.iReset || speed.rSpd == spd1g then true
    else if speed.rCe then !speed.secondHalf
    else speed.secondHalf
  oV :=
    if clock.iReset then false
    else if speed.rCe && (speed.rSpd == spd1g || !speed.secondHalf) then clock.iV
    else speed.oV
  oD :=
    if speed.rCe then
      (if !clock.iV && (!speed.oV || speed.secondHalf) then status speed.rSpd
      else if speed.rSpd = spd1g then clock.iD
      else if speed.secondHalf then twice speed.rBuf
      else twice (clock.iD.extractLsb' 0 4))
    else speed.oD
  oCe := clock.iReset || speed.rCe && speed.secondHalf

/-- A speed below a gigabit. -/
inductive Slow where
  | m10
  | m100
  deriving DecidableEq, Repr

namespace Slow

def spd : Slow → BitVec 2
  | .m10 => spd10m
  | .m100 => spd100m

/-- The clocks of a symbol. -/
def ck : Slow → Nat
  | .m10 => ck10m
  | .m100 => ck100m

theorem ck_pos (slow : Slow) : 1 < slow.ck := by
  cases slow <;> decide

end Slow

/-- The byte on offer, and what is on the line. -/
def Clock.byte (clock : Clock) : Option Byte := carried clock.iV clock.iD

def line (speed : TxeSpeed) : Option Byte := carried speed.oV speed.oD

def lower (byte : Byte) : Byte := twice (byte.extractLsb' 0 4)

def upper (byte : Byte) : Byte := twice (byte.extractLsb' 4 4)

/-- No reset, and the speed as it is. -/
def Clock.Stable (slow : Slow) (clock : Clock) : Prop :=
  clock.iReset = false ∧ clock.iSpd = slow.spd

/-- `count` more clocks of a symbol follow this one. -/
structure Coasts (slow : Slow) (count : Nat) (speed : TxeSpeed) : Prop where
  rSpd : speed.rSpd = slow.spd
  rCe : speed.rCe = decide (count = 0)
  ckCounter : speed.ckCounter = BitVec.ofNat 7 count
  inside : count < slow.ck

variable {slow : Slow} {count : Nat} {speed : TxeSpeed} {clock : Clock}

theorem Coasts.small (coasts : speed.Coasts slow count) : count < 50 := by
  have inside := coasts.inside
  cases slow with
  | m10 => exact inside
  | m100 => exact Nat.lt_of_lt_of_le inside (by decide)

theorem Coasts.slow_ne (coasts : speed.Coasts slow count) : (speed.rSpd == spd1g) = false := by
  rw [coasts.rSpd]
  cases slow <;> rfl

theorem Coasts.due (coasts : speed.Coasts slow 0) : speed.rCe = true := by
  rw [coasts.rCe]
  rfl

theorem step_rSpd (rSpd : speed.rSpd = slow.spd) (stable : clock.Stable slow) :
    (speed.step clock).rSpd = slow.spd := by
  simp only [step, stable.1, stable.2, rSpd, Bool.false_eq_true, if_false, ite_self]

/-- An edge of the divider. -/
theorem step_due (rSpd : speed.rSpd = slow.spd) (due : speed.rCe = true)
    (stable : clock.Stable slow) :
    (speed.step clock).Coasts slow (slow.ck - 1) ∧ (speed.step clock).oCe = speed.secondHalf ∧
      (speed.step clock).secondHalf = !speed.secondHalf := by
  have some := slow.ck_pos
  refine ⟨⟨step_rSpd rSpd stable, ?_, ?_, by omega⟩, ?_, ?_⟩
  · cases slow <;> simp [step, stable.1, due, rSpd, Slow.spd, Slow.ck, spd10m, spd100m, ck10m,
      ck100m]
  · cases slow <;> simp [step, stable.1, due, rSpd, Slow.spd, Slow.ck, spd10m, spd100m, ck10m,
      ck100m]
  · simp [step, stable.1, due]
  · cases slow <;> simp [step, stable.1, due, rSpd, Slow.spd, spd10m, spd100m, spd1g]

/-- What shows of the registers between the edges of the divider. -/
def shown (speed : TxeSpeed) : Bool × BitVec 4 × Bool × Byte :=
  (speed.secondHalf, speed.rBuf, speed.oV, speed.oD)

/-- Within a symbol only the counter moves. -/
theorem Coasts.step (coasts : speed.Coasts slow (count + 1)) (stable : clock.Stable slow) :
    (speed.step clock).Coasts slow count ∧ (speed.step clock).oCe = false ∧
      (speed.step clock).shown = speed.shown := by
  have small := coasts.small
  have idle : speed.rCe = false := by rw [coasts.rCe]; rfl
  have other := coasts.slow_ne
  have value : (BitVec.ofNat 7 (count + 1)).toNat = count + 1 := by
    rw [BitVec.toNat_ofNat, Nat.mod_eq_of_lt (by omega)]
  refine ⟨⟨step_rSpd coasts.rSpd stable, ?_, ?_, Nat.lt_of_succ_lt coasts.inside⟩, ?_, ?_⟩
  · simp only [TxeSpeed.step, stable.1, idle, coasts.ckCounter, value, Bool.false_eq_true, if_false]
    rw [decide_eq_decide]
    omega
  · simp only [TxeSpeed.step, stable.1, idle, coasts.ckCounter, Bool.false_eq_true, if_false]
    rw [BitVec.ofNat_add]
    exact BitVec.add_sub_cancel _ _
  · simp [TxeSpeed.step, stable.1, idle]
  · simp [shown, TxeSpeed.step, stable.1, idle, other]

/-- The first half of a byte. -/
theorem Coasts.tick_lower (coasts : speed.Coasts slow 0) (stable : clock.Stable slow)
    (first : speed.secondHalf = false) :
    (speed.step clock).line = clock.byte.map lower ∧ (speed.step clock).oV = clock.iV ∧
      (speed.step clock).rBuf = clock.iD.extractLsb' 4 4 := by
  have due := coasts.due
  have other : ¬ speed.rSpd = spd1g := beq_eq_false_iff_ne.mp coasts.slow_ne
  have valid : (speed.step clock).oV = clock.iV := by
    simp [TxeSpeed.step, stable.1, due, first]
  refine ⟨?_, valid, by simp [TxeSpeed.step, due]⟩
  rw [line, valid, Clock.byte]
  cases offered : clock.iV with
  | false => rfl
  | true => simp [carried, TxeSpeed.step, due, offered, other, first, lower]

/-- The second half of the byte that is still on offer. -/
theorem Coasts.tick_upper (coasts : speed.Coasts slow 0) (stable : clock.Stable slow)
    (second : speed.secondHalf = true) (valid : speed.oV = clock.iV)
    (rBuf : clock.iV = true → speed.rBuf = clock.iD.extractLsb' 4 4) :
    (speed.step clock).line = clock.byte.map upper := by
  have due := coasts.due
  have other : ¬ speed.rSpd = spd1g := beq_eq_false_iff_ne.mp coasts.slow_ne
  have kept : (speed.step clock).oV = clock.iV := by
    simp [TxeSpeed.step, stable.1, second, other, valid]
  rw [line, kept, Clock.byte]
  cases offered : clock.iV with
  | false => rfl
  | true => simp [carried, TxeSpeed.step, due, offered, other, second, rBuf offered, upper]

/-! ### Byte times -/

section Stream

variable {state : TxeSpeed} {inputs : Nat → Clock}

/-- Over the clocks of a symbol. -/
theorem symbol_held {start : Nat} (stable : ∀ time, (inputs time).Stable slow)
    (first : (streamed TxeSpeed.step state inputs start).Coasts slow (slow.ck - 1)) :
    ∀ time, time < slow.ck →
      (streamed TxeSpeed.step state inputs (start + time)).Coasts slow (slow.ck - 1 - time) ∧
      (0 < time → (streamed TxeSpeed.step state inputs (start + time)).oCe = false) ∧
      (streamed TxeSpeed.step state inputs (start + time)).shown =
        (streamed TxeSpeed.step state inputs start).shown := by
  intro time inside
  induction time with
  | zero => exact ⟨first, nofun, rfl⟩
  | succ time ih =>
      obtain ⟨coasts, _, same⟩ := ih (Nat.lt_of_succ_lt inside)
      have count : slow.ck - 1 - time = slow.ck - 1 - (time + 1) + 1 := by omega
      rw [count] at coasts
      obtain ⟨next, low, kept⟩ := coasts.step (stable (start + time))
      exact ⟨next, fun _ => low, kept.trans same⟩

/-- `o_ce` is high, and the byte on offer has been sent but for the rest of its
upper nibble. -/
structure Hands (slow : Slow) (speed : TxeSpeed) : Prop where
  coasts : speed.Coasts slow (slow.ck - 1)
  secondHalf : speed.secondHalf = false
  oCe : speed.oCe = true

theorem line_eq {first second : TxeSpeed} (same : first.shown = second.shown) :
    first.line = second.line := by
  simp only [shown, Prod.mk.injEq] at same
  rw [line, line, same.2.2.1, same.2.2.2]

theorem byte_eq {first second : Clock} (same : first.byte = second.byte) :
    first.iV = second.iV ∧ (second.iV = true → first.iD = second.iD) := by
  unfold Clock.byte carried at same
  cases offered : first.iV <;> cases again : second.iV <;> simp_all

/-- What is on offer stays until it is taken. -/
theorem byte_held {start : Nat}
    (holds : ∀ time, (streamed TxeSpeed.step state inputs time).oCe = false →
      (inputs (time + 1)).byte = (inputs time).byte) (length : Nat)
    (low : ∀ time, time < length →
      (streamed TxeSpeed.step state inputs (start + time)).oCe = false) :
    (inputs (start + length)).byte = (inputs start).byte := by
  induction length with
  | zero => rfl
  | succ length ih =>
      have before := ih fun time inside => low time (Nat.lt_succ_of_lt inside)
      exact (holds _ (low length (Nat.lt_succ_self length))).trans before

/-- The tick at the end of a symbol. -/
theorem symbol_ends {start : Nat} (stable : ∀ time, (inputs time).Stable slow)
    (first : (streamed TxeSpeed.step state inputs start).Coasts slow (slow.ck - 1)) :
    ∃ now : TxeSpeed, now.Coasts slow 0 ∧ now.shown = (streamed TxeSpeed.step state inputs start).shown ∧
      streamed TxeSpeed.step state inputs (start + slow.ck) =
        now.step (inputs (start + slow.ck - 1)) := by
  have some := slow.ck_pos
  obtain ⟨coasts, _, same⟩ := symbol_held stable first (slow.ck - 1) (by omega)
  rw [Nat.sub_self] at coasts
  refine ⟨_, coasts, same, ?_⟩
  have time : start + slow.ck = start + (slow.ck - 1) + 1 := by omega
  rw [time, Nat.add_sub_cancel]
  rfl

/-- From one `o_ce` to the next. -/
theorem Hands.byte_time {start : Nat} (hands : (streamed TxeSpeed.step state inputs start).Hands slow)
    (stable : ∀ time, (inputs time).Stable slow)
    (holds : ∀ time, (streamed TxeSpeed.step state inputs time).oCe = false →
      (inputs (time + 1)).byte = (inputs time).byte) :
    (∀ time, time < slow.ck →
      (streamed TxeSpeed.step state inputs (start + time)).oCe = decide (time = 0) ∧
      (streamed TxeSpeed.step state inputs (start + time)).line =
        (streamed TxeSpeed.step state inputs start).line) ∧
    (∀ time, time < slow.ck →
      (streamed TxeSpeed.step state inputs (start + slow.ck + time)).oCe = false ∧
      (streamed TxeSpeed.step state inputs (start + slow.ck + time)).line =
        (inputs (start + slow.ck + slow.ck)).byte.map lower) ∧
    (streamed TxeSpeed.step state inputs (start + slow.ck + slow.ck)).Hands slow ∧
    (streamed TxeSpeed.step state inputs (start + slow.ck + slow.ck)).line =
      (inputs (start + slow.ck + slow.ck)).byte.map upper := by
  have some := slow.ck_pos
  have upperHalf := symbol_held stable hands.coasts
  obtain ⟨ending, coastsEnd, sameEnd, middle⟩ := symbol_ends stable hands.coasts
  have first : ending.secondHalf = false := by
    rw [← hands.secondHalf]
    exact congrArg Prod.fst sameEnd
  obtain ⟨coastsMiddle, lowMiddle, halfMiddle⟩ := step_due coastsEnd.rSpd coastsEnd.due (stable (start + slow.ck - 1))
  obtain ⟨lineMiddle, validMiddle, bufMiddle⟩ := coastsEnd.tick_lower (stable _) first
  rw [first] at lowMiddle halfMiddle
  rw [← middle] at coastsMiddle lowMiddle halfMiddle lineMiddle validMiddle bufMiddle
  have lowerHalf := symbol_held stable coastsMiddle
  obtain ⟨closing, coastsClose, sameClose, last⟩ := symbol_ends stable coastsMiddle
  simp only [shown, Prod.mk.injEq] at sameClose
  obtain ⟨halfClose, bufClose, validClose, _⟩ := sameClose
  obtain ⟨coastsLast, highLast, halfLast⟩ :=
    step_due coastsClose.rSpd coastsClose.due (stable (start + slow.ck + slow.ck - 1))
  -- nothing is taken between the two, so the byte stays
  have low : ∀ time, 0 < time → time < slow.ck + slow.ck →
      (streamed TxeSpeed.step state inputs (start + time)).oCe = false := by
    intro time after before
    rcases Nat.lt_trichotomy time slow.ck with early | rfl | late
    · exact (upperHalf time early).2.1 after
    · exact lowMiddle
    · have split : start + time = start + slow.ck + (time - slow.ck) := by omega
      rw [split]
      exact (lowerHalf (time - slow.ck) (by omega)).2.1 (by omega)
  have quiet : ∀ time, time < slow.ck + 1 →
      (streamed TxeSpeed.step state inputs (start + slow.ck - 1 + time)).oCe = false := by
    intro time inside
    have shift : start + slow.ck - 1 + time = start + (slow.ck - 1 + time) := by omega
    rw [shift]
    exact low _ (by omega) (by omega)
  have taken := byte_held holds (slow.ck + 1) quiet
  have offered := byte_held holds slow.ck fun time inside => quiet time (by omega)
  have atEnd : start + slow.ck - 1 + (slow.ck + 1) = start + slow.ck + slow.ck := by omega
  have atTick : start + slow.ck - 1 + slow.ck = start + slow.ck + slow.ck - 1 := by omega
  rw [atEnd] at taken
  rw [atTick] at offered
  obtain ⟨sameV, sameD⟩ := byte_eq offered
  have lineLast := coastsClose.tick_upper (stable (start + slow.ck + slow.ck - 1))
    (halfClose.trans halfMiddle) (validClose.trans (validMiddle.trans sameV.symm))
    fun valid => by rw [bufClose, bufMiddle, sameD (sameV.symm.trans valid)]
  rw [halfClose, halfMiddle] at highLast halfLast
  rw [← last] at coastsLast highLast halfLast lineLast
  refine ⟨fun time inside => ⟨?_, line_eq (upperHalf time inside).2.2⟩, fun time inside => ?_,
    ⟨coastsLast, halfLast, highLast⟩, by rw [lineLast, offered, taken]⟩
  · cases time with
    | zero => exact hands.oCe
    | succ time => exact (upperHalf (time + 1) inside).2.1 (Nat.succ_pos time)
  · rw [taken, ← lineMiddle]
    refine ⟨?_, line_eq (lowerHalf time inside).2.2⟩
    rw [Nat.add_assoc]
    exact low _ (by omega) (by omega)

/-- An edge at which a byte is handed over, whatever came before. -/
theorem hands_of_ready (rSpd : speed.rSpd = slow.spd) (stable : clock.Stable slow)
    (ready : (speed.step clock).oCe = true) : (speed.step clock).Hands slow := by
  obtain ⟨due, second⟩ : speed.rCe = true ∧ speed.secondHalf = true := by
    simpa [step, stable.1] using ready
  obtain ⟨coasts, _, first⟩ := step_due rSpd due stable
  rw [second] at first
  exact ⟨coasts, first, ready⟩

/-- The speed that a reset leaves is changed at once; the second clock after it
hands over. -/
theorem reset_ready (speed : TxeSpeed) {start first second : Clock} (reset : start.iReset = true)
    (stable : first.Stable slow) (still : second.Stable slow) :
    ((speed.step start).step first).rSpd = slow.spd ∧
      (((speed.step start).step first).step second).oCe = true := by
  constructor
  · simp [step, reset, stable.1, stable.2]
  · simp [step, reset, stable.1, still.1, spd1g, spd10m, spd100m, ck1g]

/-- The bytes of a stream whose speed does not change, from a clock at which
one is handed over on. -/
theorem txespeed_sends {before : TxeSpeed} (rSpd : before.rSpd = slow.spd)
    (still : clock.Stable slow) (ready : (before.step clock).oCe = true)
    (stable : ∀ time, (inputs time).Stable slow)
    (holds : ∀ time, (streamed step (before.step clock) inputs time).oCe = false →
      (inputs (time + 1)).byte = (inputs time).byte) :
    (∀ time, (streamed step (before.step clock) inputs time).oCe =
      decide (time % (2 * slow.ck) = 0)) ∧
    ∀ count time, time < slow.ck →
      (streamed step (before.step clock) inputs (2 * slow.ck * count + slow.ck + time)).line =
          (inputs (2 * slow.ck * (count + 1))).byte.map lower ∧
        (streamed step (before.step clock) inputs (2 * slow.ck * (count + 1) + time)).line =
          (inputs (2 * slow.ck * (count + 1))).byte.map upper := by
  have some := slow.ck_pos
  have next (count : Nat) : 2 * slow.ck * count + slow.ck + slow.ck =
      2 * slow.ck * (count + 1) := by rw [Nat.mul_succ, Nat.two_mul, Nat.add_assoc]
  have hands : ∀ count, (streamed step (before.step clock) inputs (2 * slow.ck * count)).Hands
      slow := by
    intro count
    induction count with
    | zero => exact hands_of_ready rSpd still ready
    | succ count ih =>
        rw [← next]
        exact (ih.byte_time stable holds).2.2.1
  constructor
  · intro time
    obtain ⟨firstHalf, lastHalf, _⟩ := (hands (time / (2 * slow.ck))).byte_time stable holds
    have split := Nat.div_add_mod time (2 * slow.ck)
    have inside := Nat.mod_lt time (show 0 < 2 * slow.ck by omega)
    by_cases early : time % (2 * slow.ck) < slow.ck
    · have ce := (firstHalf _ early).1
      rwa [split] at ce
    · have ce := (lastHalf (time % (2 * slow.ck) - slow.ck) (by omega)).1
      have shift : 2 * slow.ck * (time / (2 * slow.ck)) + slow.ck +
          (time % (2 * slow.ck) - slow.ck) = time := by omega
      rw [shift] at ce
      rw [ce, eq_comm, decide_eq_false_iff_not]
      omega
  · intro count time inside
    obtain ⟨_, lastHalf, _, upperLine⟩ := (hands count).byte_time stable holds
    obtain ⟨later, _⟩ := (hands (count + 1)).byte_time stable holds
    rw [next] at lastHalf upperLine
    exact ⟨(lastHalf time inside).2, by rw [(later time inside).2, upperLine]⟩

end Stream

/-- The stage before offers its byte until it is enabled. -/
theorem preamble_waits {aw : Nat} (tx : Transmitter aw) {edge : TxClock aw}
    (running : edge.iReset = false) (waits : edge.txCe = false) :
    carried (tx.step edge).pre.oV (tx.step edge).pre.oD = carried tx.pre.oV tx.pre.oD := by
  simp [Transmitter.step, AddEPreamble.step, running, waits]

/-- At 100 Mb/s after a reset: an idle clock, a byte for as long as it takes, and
another one. -/
def fresh : TxeSpeed :=
  (⟨0, true, 0, 2, 0, true, false, 0, false⟩ : TxeSpeed).step ⟨true, 1, false, 0⟩

def twoBytes (time : Nat) : Clock :=
  ⟨false, 1, decide (0 < time), if time ≤ 10 then 0x5a else 0xc3⟩

theorem twoBytes_sent :
    (∀ time, (streamed step ((fresh.step ⟨false, 1, false, 0⟩).step ⟨false, 1, false, 0⟩) twoBytes
        time).oCe = decide (time % (2 * Slow.m100.ck) = 0)) ∧
    ∀ count time, time < Slow.m100.ck →
      (streamed step ((fresh.step ⟨false, 1, false, 0⟩).step ⟨false, 1, false, 0⟩) twoBytes
          (2 * Slow.m100.ck * count + Slow.m100.ck + time)).line =
          (twoBytes (2 * Slow.m100.ck * (count + 1))).byte.map lower ∧
        (streamed step ((fresh.step ⟨false, 1, false, 0⟩).step ⟨false, 1, false, 0⟩) twoBytes
          (2 * Slow.m100.ck * (count + 1) + time)).line =
          (twoBytes (2 * Slow.m100.ck * (count + 1))).byte.map upper := by
  refine txespeed_sends (by decide) ⟨rfl, rfl⟩ (by decide) (fun _ => ⟨rfl, rfl⟩) fun time low => ?_
  match time with
  | 0 => exact absurd low (by decide)
  | time + 1 =>
      by_cases edge : time = 9
      · subst edge
        exact absurd low (by decide)
      · have same : time + 1 + 1 ≤ 10 ↔ time + 1 ≤ 10 := by omega
        simp only [twoBytes, Clock.byte, Nat.succ_pos, same]

end TxeSpeed

end ZipVersa.Enet
