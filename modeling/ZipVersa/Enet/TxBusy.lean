import ZipVersa.Enet.TxControl
import ZipVersa.Lib.Queue

/-! When `n_tx_busy` is left set with nothing to clear it. What is up in the
transmitter hands its turn on: the command to `txeaddr`, that to the stages one
after the other, and the last byte clears the flag. Two places break the chain:
a command whose length `txeaddr` refuses, and the end of a packet at 10 or
100 Mb/s. -/

set_option autoImplicit false

namespace ZipVersa.Enet

open Lib

/-! ### From the command to the bytes -/

/-- A packet being read is long enough for all of `r_buf` to fill. -/
structure Reads {aw : Nat} (addr : TxeAddr aw) (mac : AddEMac) : Prop where
  width : addr.rLen.toNat < 2 ^ (aw + 2)
  starts : addr.startSignal = true → 8 ≤ addr.rLen.toNat ∧ addr.oMemv = false
  inside : addr.oMemv = true →
    8 ≤ addr.rLen.toNat ∧ 1 ≤ addr.lclAddr.toNat ∧ addr.lclAddr.toNat ≤ addr.rLen.toNat
  filled : addr.oMemv = true → ∀ place : Fin 6, place.val + 1 < addr.lclAddr.toNat →
    (mac.rBuf place).v = true

section Reader

variable {aw : Nat} {addr : TxeAddr aw} {mac : AddEMac} {iCe iStart iEn : Bool}
  {iLen : BitVec (aw + 2)} {iData : BitVec 32} {iHwMac : BitVec 48} {iByte : Byte}

theorem TxeAddr.start_memv (up : addr.startSignal = true) :
    (addr.step false iCe iStart iLen iData).oMemv = true := by
  simp [TxeAddr.step, up]

theorem TxeAddr.command_starts (idle : addr.oMemv = false) (low : addr.startSignal = false)
    (enough : minPktSz ≤ iLen.toNat) :
    (addr.step false iCe true iLen iData).startSignal = true := by
  simp [TxeAddr.step, idle, low, enough]

theorem Reads.reset (addr : TxeAddr aw) (mac : AddEMac) :
    Reads (addr.step true iCe iStart iLen iData) mac where
  width := Nat.two_pow_pos _
  starts up := nomatch up
  inside up := nomatch up
  filled up := nomatch up

/-- A packet that is about to be read. -/
theorem Reads.start (reads : Reads addr mac) (up : addr.startSignal = true) :
    Reads (addr.step false iCe iStart iLen iData)
      (mac.step false iCe iEn iHwMac addr.oMemv iByte) := by
  obtain ⟨long, _⟩ := reads.starts up
  have one : (1 : BitVec (aw + 3)).toNat = 1 := BitVec.toNat_one (Nat.succ_pos _)
  constructor
  · simpa [TxeAddr.step, up] using reads.width
  · simp [TxeAddr.step, up]
  · intro _
    simp only [TxeAddr.step, up, Bool.not_true, Bool.and_false, Bool.false_eq_true, if_false, if_true,
      one]
    omega
  · intro _ place early
    simp only [TxeAddr.step, up, Bool.false_eq_true, if_false, if_true, one] at early
    omega

/-- No packet is being read. -/
theorem Reads.idle (reads : Reads addr mac) (low : addr.startSignal = false)
    (idle : addr.oMemv = false) :
    Reads (addr.step false iCe iStart iLen iData)
      (mac.step false iCe iEn iHwMac addr.oMemv iByte) := by
  have bound := iLen.isLt
  have wide : (iLen.setWidth (aw + 3)).toNat = iLen.toNat := by
    rw [BitVec.toNat_setWidth_of_le (by omega)]
  constructor
  · cases iStart with
    | true => simpa [TxeAddr.step, low, idle, wide] using bound
    | false => simpa [TxeAddr.step] using reads.width
  · cases iStart with
    | true =>
        simp only [TxeAddr.step, low, idle, wide, Bool.not_false, Bool.and_self, Bool.true_and,
          Bool.false_eq_true, if_false, if_true, Bool.and_false, Bool.false_and, and_true]
        exact of_decide_eq_true
    | false => simp [TxeAddr.step]
  · simp [TxeAddr.step, low, idle]
  · simp [TxeAddr.step, low, idle]

/-- A byte is on offer and not taken. -/
theorem Reads.wait (reads : Reads addr mac) (low : addr.startSignal = false)
    (busy : addr.oMemv = true) :
    Reads (addr.step false false iStart iLen iData)
      (mac.step false false iEn iHwMac addr.oMemv iByte) := by
  constructor
  · simpa [TxeAddr.step, low, busy] using reads.width
  · simp [TxeAddr.step, busy]
  · simpa [TxeAddr.step, low, busy] using reads.inside busy
  · simpa [TxeAddr.step, AddEMac.step, low, busy] using reads.filled busy

/-- A byte is taken. -/
theorem Reads.take (reads : Reads addr mac) (low : addr.startSignal = false)
    (busy : addr.oMemv = true) :
    Reads (addr.step false true iStart iLen iData)
      (mac.step false true iEn iHwMac addr.oMemv iByte) := by
  obtain ⟨long, _, within⟩ := reads.inside busy
  have width := reads.width
  have double : 2 ^ (aw + 3) = 2 * 2 ^ (aw + 2) := Nat.pow_succ'
  have one : (1 : BitVec (aw + 3)).toNat = 1 := BitVec.toNat_one (Nat.succ_pos _)
  have next : (addr.lclAddr + 1).toNat = addr.lclAddr.toNat + 1 := by
    rw [BitVec.toNat_add_of_lt (by omega), one]
  constructor
  · simpa [TxeAddr.step, low, busy] using width
  · simp [TxeAddr.step, busy]
  · intro more
    have below : addr.lclAddr.toNat < addr.rLen.toNat := by
      simpa [TxeAddr.step, low, busy, BitVec.ult_iff_toNat_lt] using more
    simp only [TxeAddr.step, low, busy, Bool.not_true, Bool.and_false, Bool.false_and,
      Bool.false_eq_true, if_false, Bool.and_self, if_true, next]
    omega
  · intro _ place early
    simp only [TxeAddr.step, low, busy, Bool.false_eq_true, if_false, Bool.and_self, if_true,
      next] at early
    simp only [AddEMac.step, busy, Bool.not_true, Bool.false_and, Bool.false_eq_true, if_false,
      if_true, shiftIn]
    by_cases first : place.val = 0
    · rw [if_pos first]
    · rw [if_neg first]
      exact reads.filled busy ⟨place.val - 1, by omega⟩ (by simp only; omega)

theorem Reads.step (reads : Reads addr mac) :
    Reads (addr.step false iCe iStart iLen iData)
      (mac.step false iCe iEn iHwMac addr.oMemv iByte) := by
  rcases Bool.eq_false_or_eq_true addr.startSignal with up | low
  · exact reads.start up
  · rcases Bool.eq_false_or_eq_true addr.oMemv with busy | idle
    · cases iCe with
      | false => exact reads.wait low busy
      | true => exact reads.take low busy
    · exact reads.idle low idle

/-- The last byte read leaves `addemac` with one of its own to give. -/
theorem Reads.moves (reads : Reads addr mac) (busy : addr.oMemv = true) :
    (addr.step false iCe iStart iLen iData).oMemv = true ∨
      (mac.step false iCe iEn iHwMac addr.oMemv iByte).oV = true := by
  obtain ⟨long, _, within⟩ := reads.inside busy
  cases up : addr.startSignal with
  | true => exact .inl (TxeAddr.start_memv up)
  | false =>
      cases iCe with
      | false => exact .inl (by simp [TxeAddr.step, up, busy])
      | true =>
          by_cases more : addr.lclAddr.toNat < addr.rLen.toNat
          · exact .inl (by simp [TxeAddr.step, up, busy, BitVec.ult_iff_toNat_lt, more])
          · have last : (mac.rBuf 5).v = true := reads.filled busy 5 (Nat.lt_of_lt_of_le (by decide) (by omega : 8 ≤ addr.lclAddr.toNat))
            exact .inr (by simp [AddEMac.step, busy, last])

end Reader

/-! ### From `addepad` to the line -/

/-- Not more than `count` bytes of a packet have gone from `addecrc` into the
preamble since it was silent; `addepad` is not near its end. -/
def Young (pad : AddEPad) (crc : AddECrc) (count : Nat) : Prop :=
  crc.oV = false ∨ pad.oV = true ∧ pad.rNcnt.toNat ≤ count

/-- What follows a packet through the preamble's register are the holes behind
it, and these are gone long before the next packet is. -/
structure Trails (pad : AddEPad) (crc : AddECrc) (pre : AddEPreamble) : Prop where
  counts : crc.oV = false → pad.oV = true → pad.rNcnt.toNat = 0
  lanes : ∀ place : Fin 8, (pre.shiftreg place).v = false → Young pad crc (place.val + 1)
  silent : pre.oV = false → Young pad crc 9

section Preamble

variable {pad : AddEPad} {crc : AddECrc} {pre : AddEPreamble} {iCe iEn iV : Bool}
  {iD iByte : Byte} {count bound : Nat}

theorem Young.mono (young : Young pad crc count) (more : count ≤ bound) : Young pad crc bound :=
  young.imp id fun held => ⟨held.1, Nat.le_trans held.2 more⟩

theorem AddEPad.step_up (iV : Bool) (iD : Byte) (young : pad.oV = true ∧ pad.rNcnt.toNat ≤ count) (room : count < 59) :
    (pad.step false true iV iD).oV = true ∧ (pad.step false true iV iD).rNcnt.toNat ≤ count + 1 := by
  obtain ⟨up, few⟩ := young
  have below : pad.rNcnt.toNat < 59 := Nat.lt_of_le_of_lt few room
  have next : (pad.rNcnt + 1).toNat = pad.rNcnt.toNat + 1 := by
    rw [BitVec.toNat_add_of_lt (Nat.lt_trans (Nat.succ_lt_succ below) (by decide))]
    rfl
  constructor
  · simp [AddEPad.step, up, minOctets, below]
  · simp only [AddEPad.step, up, minOctets, Nat.lt_succ_of_lt below, Bool.false_eq_true, if_false,
      if_true, Bool.not_true, next]
    omega

theorem Young.step (young : Young pad crc count)
    (counts : crc.oV = false → pad.oV = true → pad.rNcnt.toNat = 0) (room : count < 59) :
    Young (pad.step false true iV iD) (crc.step false true iEn pad.oV iByte) (count + 1) := by
  rcases young with silent | held
  · rcases Bool.eq_false_or_eq_true pad.oV with up | low
    · have zero : pad.rNcnt.toNat ≤ count := by rw [counts silent up]; exact Nat.zero_le _
      exact .inr (AddEPad.step_up _ _ ⟨up, zero⟩ room)
    · exact .inl (by simp [AddECrc.step, silent, low])
  · exact .inr (AddEPad.step_up _ _ held room)

theorem Trails.reset : Trails (pad.step true iCe iV iD) (crc.step true iCe iEn pad.oV iByte)
    (pre.step true iCe true crc.oV crc.oD) where
  counts _ up := nomatch up
  lanes _ hole := nomatch hole
  silent _ := .inl rfl

theorem Trails.step (trails : Trails pad crc pre) :
    Trails (pad.step false iCe iV iD) (crc.step false iCe iEn pad.oV iByte)
      (pre.step false iCe true crc.oV crc.oD) := by
  cases iCe with
  | false => exact trails
  | true =>
      have counts := trails.counts
      constructor
      · intro silent up
        rcases Bool.eq_false_or_eq_true pad.oV with before | low
        · simp [AddECrc.step, before] at silent
        · simp [AddEPad.step, low]
      · intro place hole
        rcases Bool.eq_false_or_eq_true (!crc.oV && !pre.oV) with loads | shifts
        · simp [AddEPreamble.step, loads, AddEPreamble.preset] at hole
        · simp only [AddEPreamble.step, shifts, Bool.false_eq_true, if_false, if_true, shiftIn] at hole
          by_cases first : place.val = 0
          · rw [if_pos first] at hole
            have young : Young pad crc 0 := .inl hole
            exact (young.step counts (by decide)).mono (by omega)
          · rw [if_neg first] at hole
            exact ((trails.lanes _ hole).step counts (by simp only; omega)).mono (by simp only; omega)
      · intro silent
        rcases Bool.eq_false_or_eq_true (pre.shiftreg 7).v with filled | hole
        · have quiet : pre.oV = false ∧ crc.oV = false := by
            simpa [AddEPreamble.step, filled] using silent
          have young : Young pad crc 0 := .inl quiet.2
          exact (young.step counts (by decide)).mono (by decide)
        · exact (trails.lanes 7 hole).step counts (by decide)

theorem AddEPad.takes (up : iV = true) : (pad.step false true iV iD).oV = true := by
  simp [AddEPad.step, up]

theorem AddECrc.takes (up : iV = true) : (crc.step false true iEn iV iD).oV = true := by
  simp [AddECrc.step, up]

/-- A packet leaves `addecrc` for the preamble. -/
theorem Trails.moves (trails : Trails pad crc pre) (up : crc.oV = true) :
    (crc.step false iCe iEn pad.oV iByte).oV = true ∨
      (pre.step false iCe true crc.oV crc.oD).oV = true := by
  cases iCe with
  | false => exact .inl up
  | true =>
      rcases Bool.eq_false_or_eq_true pad.oV with more | last
      · exact .inl (AddECrc.takes more)
      · rcases Bool.eq_false_or_eq_true (pre.shiftreg 7).v with filled | hole
        · exact .inr (by simp [AddEPreamble.step, filled, up])
        · rcases trails.lanes 7 hole with silent | ⟨more, _⟩
          · exact absurd (up.symm.trans silent) (by decide)
          · exact absurd (more.symm.trans last) (by decide)

end Preamble

namespace TxeSpeed

/-- 10 or 100 Mb/s. -/
def slowed (speed : TxeSpeed) : Bool := speed.rSpd == spd10m || speed.rSpd == spd100m

/-- The divider between its ticks; a third speed, that no PHY has, runs at every
clock as a gigabit does, with a byte at every other one. -/
structure Paced (speed : TxeSpeed) : Prop where
  count : speed.rCe = decide (speed.ckCounter = 0)
  full : speed.slowed = false → speed.rCe = true
  entry : speed.oCe = true → speed.secondHalf = true → speed.rCe = true
  gigabit : speed.rSpd = spd1g → speed.oCe = true → speed.secondHalf = true
  third : speed.slowed = false → speed.rSpd ≠ spd1g →
    speed.oCe = true ∨ speed.secondHalf = true ∨ speed.oV = false

variable {speed : TxeSpeed} {clock : Clock}

theorem gigabit_full (gigabit : speed.rSpd = spd1g) : speed.slowed = false := by
  simp [slowed, gigabit, spd1g, spd10m, spd100m]

@[simp] theorem step_oCe (speed : TxeSpeed) (clock : Clock) :
    (speed.step clock).oCe = (clock.iReset || speed.rCe && speed.secondHalf) := rfl

theorem step_secondHalf (speed : TxeSpeed) (running : clock.iReset = false) :
    (speed.step clock).secondHalf =
      if speed.rSpd = spd1g then true
      else if speed.rCe then !speed.secondHalf else speed.secondHalf := by
  simp [step, running]

theorem step_oV (speed : TxeSpeed) (running : clock.iReset = false) :
    (speed.step clock).oV =
      if speed.rCe = true ∧ (speed.rSpd = spd1g ∨ speed.secondHalf = false) then clock.iV
      else speed.oV := by
  simp [step, running]

/-- The divider runs at every clock unless the speed is below a gigabit. -/
theorem step_rCe (speed : TxeSpeed) (running : clock.iReset = false) :
    (speed.step clock).rCe =
      if speed.rCe then !speed.slowed else decide (speed.ckCounter.toNat ≤ 1) := by
  simp only [step, running, slowed, Bool.false_eq_true, if_false]
  by_cases ten : speed.rSpd = spd10m
  · simp [ten]
  · by_cases hundred : speed.rSpd = spd100m
    · simp [hundred]
    · simp [beq_eq_false_iff_ne.mpr ten, beq_eq_false_iff_ne.mpr hundred, ten, hundred, ck1g]

/-- The speed changes between packets, and then only before a tick. -/
theorem Paced.speed_cases (paced : speed.Paced) (running : clock.iReset = false) :
    (speed.step clock).rSpd = speed.rSpd ∨
      speed.oV = false ∧ (speed.rSpd = spd1g ∨
        speed.rSpd ≠ spd1g ∧ speed.ckCounter = 1 ∧ speed.rCe = false) := by
  by_cases kept : (!speed.oV && (speed.rSpd == spd1g || speed.ckCounter == 1)) = true
  · have free : speed.oV = false ∧ (speed.rSpd = spd1g ∨ speed.ckCounter = 1) := by
      simpa using kept
    refine .inr ⟨free.1, ?_⟩
    by_cases gigabit : speed.rSpd = spd1g
    · exact .inl gigabit
    · have last := free.2.resolve_left gigabit
      exact .inr ⟨gigabit, last, by rw [paced.count, last]; rfl⟩
  · refine .inl ?_
    simp only [step, running, Bool.false_eq_true, if_false]
    exact if_neg kept

theorem Paced.reset (speed : TxeSpeed) (reset : clock.iReset = true) :
    (speed.step clock).Paced := by
  constructor <;> simp [step, reset]

theorem Paced.step_count (paced : speed.Paced) (running : clock.iReset = false) :
    (speed.step clock).rCe = decide ((speed.step clock).ckCounter = 0) := by
  rw [step_rCe _ running]
  cases ticks : speed.rCe with
  | true =>
      by_cases ten : speed.rSpd = spd10m
      · simp [step, running, ticks, slowed, ten, ck10m]
      · by_cases hundred : speed.rSpd = spd100m
        · simp [step, running, ticks, slowed, hundred, spd10m, spd100m, ck100m]
        · simp [step, running, ticks, slowed, ten, hundred, ck1g]
  | false =>
      have more : speed.ckCounter ≠ 0 := by
        have count := paced.count
        rw [ticks] at count
        exact of_decide_eq_false count.symm
      have last : speed.ckCounter.toNat ≤ 1 ↔ speed.ckCounter - 1 = 0 := by bv_omega
      simp only [step, running, ticks, Bool.false_eq_true, if_false]
      rw [decide_eq_decide]
      exact last

theorem Paced.step (paced : speed.Paced) : (speed.step clock).Paced := by
  rcases Bool.eq_false_or_eq_true clock.iReset with reset | running
  · exact .reset speed reset
  -- what a change of the speed leaves behind
  have changed := paced.speed_cases running
  have ticks := step_rCe speed running
  have halves := step_secondHalf speed running
  have same : (speed.step clock).rSpd = speed.rSpd →
      (speed.step clock).slowed = speed.slowed := fun kept => by rw [slowed, slowed, kept]
  constructor
  · exact paced.step_count running
  · intro full
    rcases changed with kept | ⟨_, gigabit | ⟨_, last, waits⟩⟩
    · rw [same kept] at full
      rw [ticks, if_pos (paced.full full), full]
      rfl
    · have full := gigabit_full gigabit
      rw [ticks, if_pos (paced.full full), full]
      rfl
    · rw [ticks, waits, last]
      rfl
  · intro ready second
    obtain ⟨now, half⟩ : speed.rCe = true ∧ speed.secondHalf = true := by
      simpa [running] using ready
    by_cases gigabit : speed.rSpd = spd1g
    · rw [ticks, if_pos now, gigabit_full gigabit]
      rfl
    · rw [halves, if_neg gigabit, if_pos now, half] at second
      cases second
  · intro gigabit ready
    obtain ⟨now, half⟩ : speed.rCe = true ∧ speed.secondHalf = true := by
      simpa [running] using ready
    rcases changed with kept | ⟨_, before | ⟨_, _, waits⟩⟩
    · rw [halves, if_pos (kept ▸ gigabit)]
    · rw [halves, if_pos before]
    · exact absurd (now.symm.trans waits) (by decide)
  · intro full third
    rcases changed with kept | ⟨silent, before | ⟨slow, _, waits⟩⟩
    · rw [same kept] at full
      rw [kept] at third
      have now := paced.full full
      rw [step_oCe, halves, if_neg third, if_pos now, now]
      cases speed.secondHalf <;> simp
    · exact .inr (.inl (by rw [halves, if_pos before]))
    · refine .inr (.inr ?_)
      rw [step_oV speed running, waits]
      simpa using silent

/-- The bytes of the preamble that may have gone by unseen: where the speed
changes as a packet begins, up to two are handed over before one is taken in. -/
def missed (speed : TxeSpeed) : Nat :=
  if speed.secondHalf then 0 else if speed.oCe then 1 else 2

theorem missed_le (speed : TxeSpeed) : speed.missed ≤ 2 := by
  unfold missed
  split
  · exact Nat.zero_le 2
  · split <;> decide

/-- While a byte stays unseen, one more is missed only where it is handed over. -/
theorem Paced.step_missed (paced : speed.Paced) (running : clock.iReset = false)
    (offered : clock.iV = true) (unseen : (speed.step clock).oV = false) :
    speed.oV = false ∧
      speed.missed + (if speed.oCe then 1 else 0) ≤ (speed.step clock).missed := by
  have taken : ¬ (speed.rCe = true ∧ (speed.rSpd = spd1g ∨ speed.secondHalf = false)) := by
    intro takes
    rw [step_oV _ running, if_pos takes, offered] at unseen
    cases unseen
  rw [step_oV _ running, if_neg taken] at unseen
  refine ⟨unseen, ?_⟩
  have slower : speed.rSpd ≠ spd1g := fun gigabit =>
    taken ⟨paced.full (gigabit_full gigabit), .inl gigabit⟩
  have half := step_secondHalf speed running
  rw [if_neg slower] at half
  rw [missed, missed, step_oCe, half, running]
  cases second : speed.secondHalf with
  | true =>
      cases ready : speed.oCe with
      | true => simp [paced.entry ready second]
      | false => simp
  | false =>
      have waits : speed.rCe = false := by
        rw [← Bool.not_eq_true]
        exact fun ticks => taken ⟨ticks, .inr second⟩
      cases speed.oCe <;> simp [waits]

end TxeSpeed

section Line

variable {pad : AddEPad} {crc : AddECrc} {pre : AddEPreamble} {speed : TxeSpeed}
  {clock : TxeSpeed.Clock} {iEn iV : Bool} {iD iByte : Byte}

/-- Until the first byte of a packet is on the line, most of it is still to come. -/
def Begins (pad : AddEPad) (pre : AddEPreamble) (speed : TxeSpeed) : Prop :=
  pre.oV = true → speed.oV = false → pad.oV = true ∧ pad.rNcnt.toNat ≤ 10 + speed.missed

theorem Begins.step (begins : Begins pad pre speed) (trails : Trails pad crc pre)
    (paced : speed.Paced) (running : clock.iReset = false) (offered : clock.iV = pre.oV) :
    Begins (pad.step false speed.oCe iV iD) (pre.step false speed.oCe true crc.oV crc.oD)
      (speed.step clock) := by
  intro shows unseen
  rcases Bool.eq_false_or_eq_true pre.oV with before | rises
  · obtain ⟨dark, more⟩ := paced.step_missed running (offered.trans before) unseen
    have held := begins before dark
    have few := speed.missed_le
    cases ready : speed.oCe with
    | false =>
        rw [ready] at more
        exact ⟨held.1, Nat.le_trans held.2 (Nat.add_le_add_left more 10)⟩
    | true =>
        rw [ready, if_pos rfl] at more
        obtain ⟨up, count⟩ := AddEPad.step_up iV iD held (by omega)
        exact ⟨up, by omega⟩
  · cases ready : speed.oCe with
    | false =>
        rw [ready] at shows
        exact absurd (shows.symm.trans rises) (by decide)
    | true =>
        have starts : crc.oV = true := by
          rw [ready] at shows
          simp [AddEPreamble.step, rises] at shows
          exact shows.2
        have young := (trails.silent rises).resolve_left (by rw [starts]; decide)
        obtain ⟨up, count⟩ := AddEPad.step_up iV iD young (by decide)
        exact ⟨up, by omega⟩

/-- The line is up with bytes that `n_tx_busy` will see the end of. -/
def Ends (speed : TxeSpeed) : Prop :=
  speed.oV = true ∧ speed.slowed = false ∧
    (speed.rSpd = TxeSpeed.spd1g → speed.oCe = true)

theorem TxeSpeed.Paced.same_speed (paced : speed.Paced) (running : clock.iReset = false)
    (up : speed.oV = true) : (speed.step clock).rSpd = speed.rSpd := by
  rcases paced.speed_cases running with kept | ⟨silent, _⟩
  · exact kept
  · exact absurd (up.symm.trans silent) (by decide)

theorem slowed_congr {other : TxeSpeed} (same : other.rSpd = speed.rSpd) :
    other.slowed = speed.slowed := by
  rw [TxeSpeed.slowed, TxeSpeed.slowed, same]

/-- At the third speed the end of a packet is seen a clock late. -/
theorem Ends.wait (ends : Ends speed) (paced : speed.Paced) (running : clock.iReset = false)
    (waits : speed.oCe = false) : Ends (speed.step clock) := by
  obtain ⟨up, full, gigabit⟩ := ends
  have same := paced.same_speed running up
  have third : speed.rSpd ≠ TxeSpeed.spd1g := by
    intro now
    exact absurd ((gigabit now).symm.trans waits) (by decide)
  have second : speed.secondHalf = true := by
    rcases paced.third full third with ready | second | silent
    · exact absurd (ready.symm.trans waits) (by decide)
    · exact second
    · exact absurd (up.symm.trans silent) (by decide)
  refine ⟨?_, (slowed_congr same).trans full, fun now => absurd (same.symm.trans now) third⟩
  rw [TxeSpeed.step_oV _ running, second]
  simp [third, up]

/-- A byte leaves `addepreamble`, and others follow it or it is on the line. -/
theorem Begins.moves (begins : Begins pad pre speed) (paced : speed.Paced)
    (running : clock.iReset = false) (up : pre.oV = true) (offered : clock.iV = pre.oV)
    (quick : speed.oV = true → speed.slowed = false) :
    (crc.step false speed.oCe iEn pad.oV iByte).oV = true ∨
      (pre.step false speed.oCe true crc.oV crc.oD).oV = true ∨ Ends (speed.step clock) := by
  cases ready : speed.oCe with
  | false => exact .inr (.inl up)
  | true =>
      rcases Bool.eq_false_or_eq_true speed.oV with seen | unseen
      · have full := quick seen
        have same := paced.same_speed running seen
        refine .inr (.inr ⟨?_, (slowed_congr same).trans full, ?_⟩)
        · rw [TxeSpeed.step_oV _ running, offered, up, seen]
          exact ite_self _
        · intro gigabit
          have half := paced.gigabit (same.symm.trans gigabit) ready
          rw [TxeSpeed.step_oCe, paced.full full, half]
          exact Bool.or_true _
      · exact .inl (AddECrc.takes (begins up unseen).1)

end Line

/-! ### The transmitter -/

namespace TxNet

variable {aw : Nat} {net : TxNet aw} {bus : TxBus aw} {nTxSpd : BitVec 2}
  {txmem : BitVec aw → BitVec 32}

/-- Busy, with no command, no byte in any stage and none on the line. -/
def stuck (net : TxNet aw) : Bool :=
  net.nTxBusy && !net.nTxCmd && net.stages.quiet && !net.speed.oV

/-- At its last clock a command finds `txeaddr` reading, or with a length that
it takes; and no byte follows another on the line at 10 or 100 Mb/s while
`n_tx_busy` is set. -/
def Sends (net : TxNet aw) : Prop :=
  (net.nTxCmd = true → net.rTxCmd = false → net.stages.addr.oMemv = false →
    net.stages.addr.startSignal = false → TxeAddr.minPktSz ≤ net.nTxLen.toNat) ∧
  (net.nTxBusy = true → net.stages.pre.oV = true → net.speed.oV = true →
    net.speed.slowed = false)

instance (net : TxNet aw) : Decidable net.Sends := inferInstanceAs (Decidable (_ ∧ _))

structure Flows (net : TxNet aw) : Prop where
  reads : Reads net.stages.addr net.stages.mac
  trails : Trails net.stages.pad net.stages.crc net.stages.pre
  paced : net.speed.Paced
  begins : Begins net.stages.pad net.stages.pre net.speed

/-- Somebody has the packet. -/
inductive Live (net : TxNet aw) : Prop where
  | command : net.nTxCmd = true → Live net
  | start : net.stages.addr.startSignal = true → Live net
  | reader : net.stages.addr.oMemv = true → Live net
  | mac : net.stages.mac.oV = true → Live net
  | pad : net.stages.pad.oV = true → Live net
  | crc : net.stages.crc.oV = true → Live net
  | pre : net.stages.pre.oV = true → Live net
  | line : Ends net.speed → Live net

theorem Live.not_stuck (live : net.Live) : net.stuck = false := by
  cases live with
  | line ends => simp [stuck, ends.1]
  | _ up => simp [stuck, Transmitter.quiet, up]

/-! What an edge does to the stages while nothing resets them. -/

section Running

variable (bus nTxSpd txmem) (running : net.halted = false)

include running

theorem run_addr : (net.step bus nTxSpd txmem).stages.addr =
    net.stages.addr.step false net.speed.oCe net.nTxCmd net.nTxLen net.stages.nTxData := by
  rw [← running]
  rfl

theorem run_mac : (net.step bus nTxSpd txmem).stages.mac =
    net.stages.mac.step false net.speed.oCe net.nTxConfigHwMac bus.hwMac net.stages.addr.oMemv
      net.stages.addr.oMemd := by
  rw [← running]
  rfl

theorem run_pad : (net.step bus nTxSpd txmem).stages.pad =
    net.stages.pad.step false net.speed.oCe net.stages.mac.oV net.stages.mac.oByte := by
  rw [← running]
  rfl

theorem run_crc : (net.step bus nTxSpd txmem).stages.crc =
    net.stages.crc.step false net.speed.oCe net.nTxConfigHwCrc net.stages.pad.oV
      net.stages.pad.oD := by
  rw [← running]
  rfl

theorem run_pre : (net.step bus nTxSpd txmem).stages.pre =
    net.stages.pre.step false net.speed.oCe true net.stages.crc.oV net.stages.crc.oD := by
  rw [← running]
  rfl

theorem awake : (net.speedClock nTxSpd).iReset = false :=
  (Bool.or_eq_false_iff.mp running).1

end Running

theorem Flows.halt (flows : net.Flows) (halted : net.halted = true) :
    (net.step bus nTxSpd txmem).Flows := by
  refine ⟨?_, ?_, flows.paced.step, ?_⟩
  · simp only [step, Transmitter.step, stagesClock, halted]
    exact .reset _ _
  · simp only [step, Transmitter.step, stagesClock, halted]
    exact .reset
  · simp only [step, Transmitter.step, stagesClock, halted]
    exact fun up => absurd up Bool.false_ne_true

theorem Flows.run (flows : net.Flows) (running : net.halted = false) :
    (net.step bus nTxSpd txmem).Flows := by
  refine ⟨?_, ?_, flows.paced.step, ?_⟩
  · rw [run_addr bus nTxSpd txmem running, run_mac bus nTxSpd txmem running]
    exact flows.reads.step
  · rw [run_pad bus nTxSpd txmem running, run_crc bus nTxSpd txmem running,
      run_pre bus nTxSpd txmem running]
    exact flows.trails.step
  · rw [run_pad bus nTxSpd txmem running, run_pre bus nTxSpd txmem running]
    exact flows.begins.step flows.trails flows.paced (awake nTxSpd running) rfl

theorem Flows.step (flows : net.Flows) : (net.step bus nTxSpd txmem).Flows := by
  rcases Bool.eq_false_or_eq_true net.halted with halted | running
  · exact flows.halt halted
  · exact flows.run running

theorem halted_idle (halted : net.halted = true) :
    (net.step bus nTxSpd txmem).nTxBusy = false := by
  simp [step, halted]

section Live

variable (flows : net.Flows) (running : net.halted = false)

include flows running

theorem Live.of_reader (up : net.stages.addr.oMemv = true) :
    (net.step bus nTxSpd txmem).Live := by
  rcases flows.reads.moves up with more | given
  · exact .reader (by rw [run_addr _ _ _ running]; exact more)
  · exact .mac (by rw [run_mac _ _ _ running]; exact given)

omit flows in
theorem Live.of_start (up : net.stages.addr.startSignal = true) :
    (net.step bus nTxSpd txmem).Live :=
  .reader (by rw [run_addr _ _ _ running]; exact TxeAddr.start_memv up)

theorem Live.of_command (sends : net.Sends) (up : net.nTxCmd = true) :
    (net.step bus nTxSpd txmem).Live := by
  rcases Bool.eq_false_or_eq_true net.rTxCmd with held | last
  · exact .command held
  · rcases Bool.eq_false_or_eq_true net.stages.addr.oMemv with reads | idle
    · exact .of_reader flows running reads
    · rcases Bool.eq_false_or_eq_true net.stages.addr.startSignal with starts | low
      · exact .of_start running starts
      · refine .start ?_
        rw [run_addr _ _ _ running, up]
        exact TxeAddr.command_starts idle low (sends.1 up last idle low)

omit flows in
theorem Live.of_mac (up : net.stages.mac.oV = true) : (net.step bus nTxSpd txmem).Live := by
  cases ready : net.speed.oCe with
  | false => exact .mac (by rw [run_mac _ _ _ running, ready]; exact up)
  | true => exact .pad (by rw [run_pad _ _ _ running, ready]; exact AddEPad.takes up)

omit flows in
theorem Live.of_pad (up : net.stages.pad.oV = true) : (net.step bus nTxSpd txmem).Live := by
  cases ready : net.speed.oCe with
  | false => exact .pad (by rw [run_pad _ _ _ running, ready]; exact up)
  | true => exact .crc (by rw [run_crc _ _ _ running, ready]; exact AddECrc.takes up)

theorem Live.of_crc (up : net.stages.crc.oV = true) : (net.step bus nTxSpd txmem).Live := by
  rcases flows.trails.moves up with more | given
  · exact .crc (by rw [run_crc _ _ _ running]; exact more)
  · exact .pre (by rw [run_pre _ _ _ running]; exact given)

theorem Live.of_pre (up : net.stages.pre.oV = true)
    (quick : net.speed.oV = true → net.speed.slowed = false) :
    (net.step bus nTxSpd txmem).Live := by
  rcases flows.begins.moves flows.paced (awake nTxSpd running) up rfl quick with
    follows | more | given
  · exact .crc (by rw [run_crc _ _ _ running]; exact follows)
  · exact .pre (by rw [run_pre _ _ _ running]; exact more)
  · exact .line given

/-- Whoever has the packet keeps it or hands it on. -/
theorem Live.step (live : net.nTxBusy = true → net.Live) (sends : net.Sends)
    (busy : (net.step bus nTxSpd txmem).nTxBusy = true) : (net.step bus nTxSpd txmem).Live := by
  rcases Bool.eq_false_or_eq_true net.nTxCmd with up | low
  · exact .of_command flows running sends up
  have before : net.nTxBusy = true := by
    rw [← Bool.not_eq_false]
    intro idle
    simp [TxNet.step, running, idle, low] at busy
  have quick := sends.2 before
  cases live before with
  | command up => exact .of_command flows running sends up
  | start up => exact .of_start running up
  | reader up => exact .of_reader flows running up
  | mac up => exact .of_mac running up
  | pad up => exact .of_pad running up
  | crc up => exact .of_crc flows running up
  | pre up => exact .of_pre flows running up (quick up)
  | line ends =>
      rcases Bool.eq_false_or_eq_true net.stages.pre.oV with more | last
      · exact .of_pre flows running more (quick more)
      · cases ready : net.speed.oCe with
        | true => simp [TxNet.step, running, before, ready, ends.1, last] at busy
        | false => exact .line (ends.wait flows.paced (awake nTxSpd running) ready)

end Live

/-! ### The packets that are left out -/

theorem quiet_stays (running : net.halted = false) (quiet : net.stages.quiet = true)
    (refused : net.nTxCmd = true → net.nTxLen.toNat < TxeAddr.minPktSz) :
    (net.step bus nTxSpd txmem).stages.quiet = true := by
  simp only [Transmitter.quiet, Bool.and_eq_true, Bool.not_eq_true'] at quiet
  obtain ⟨⟨⟨⟨⟨reader, start⟩, mac⟩, pad⟩, crc⟩, pre⟩ := quiet
  have short : net.nTxCmd = false ∨ net.nTxLen.toNat < TxeAddr.minPktSz := by
    rcases Bool.eq_false_or_eq_true net.nTxCmd with up | low
    · exact .inr (refused up)
    · exact .inl low
  simp only [Transmitter.quiet, run_addr _ _ _ running, run_mac _ _ _ running,
    run_pad _ _ _ running, run_crc _ _ _ running, run_pre _ _ _ running]
  cases net.speed.oCe <;>
    simp [TxeAddr.step, AddEMac.step, AddEPad.step, AddECrc.step, AddEPreamble.step, reader, start,
      mac, pad, crc, pre, short]

theorem dark_stays (running : net.halted = false) (quiet : net.stages.quiet = true)
    (dark : net.speed.oV = false) : (net.step bus nTxSpd txmem).speed.oV = false := by
  have silent : net.stages.pre.oV = false := by
    simp only [Transmitter.quiet, Bool.and_eq_true, Bool.not_eq_true'] at quiet
    exact quiet.2
  change (net.speed.step (net.speedClock nTxSpd)).oV = false
  rw [TxeSpeed.step_oV _ (awake nTxSpd running), dark]
  change (if _ then net.stages.pre.oV else false) = false
  rw [silent]
  exact ite_self _

/-- A command whose length `txeaddr` refuses leaves the transmitter stuck. -/
theorem refused_sticks (running : net.halted = false) (up : net.nTxCmd = true)
    (last : net.rTxCmd = false) (quiet : net.stages.quiet = true) (dark : net.speed.oV = false)
    (refused : net.nTxLen.toNat < TxeAddr.minPktSz) : (net.step bus nTxSpd txmem).stuck = true := by
  have busy : (net.step bus nTxSpd txmem).nTxBusy = true := by
    simp [step, running, up, dark]
  have low : (net.step bus nTxSpd txmem).nTxCmd = false := last
  rw [stuck, busy, low, quiet_stays running quiet fun _ => refused, dark_stays running quiet dark]
  rfl

/-- Nothing but a command, a cancellation or a reset frees it. -/
theorem stuck_stays (running : net.halted = false) (stuck : net.stuck = true)
    (last : net.rTxCmd = false) : (net.step bus nTxSpd txmem).stuck = true := by
  simp only [TxNet.stuck, Bool.and_eq_true, Bool.not_eq_true'] at stuck
  obtain ⟨⟨⟨busy, low⟩, quiet⟩, dark⟩ := stuck
  have still : (net.step bus nTxSpd txmem).nTxBusy = true := by
    simp [step, running, busy, dark]
  have none : (net.step bus nTxSpd txmem).nTxCmd = false := last
  have refused : net.nTxCmd = true → net.nTxLen.toNat < TxeAddr.minPktSz :=
    fun up => absurd (up.symm.trans low) (by decide)
  rw [TxNet.stuck, still, none, quiet_stays running quiet refused, dark_stays running quiet dark]
  rfl

/-- At 10 or 100 Mb/s: where a byte is handed over the line tells of it. -/
structure Settled (net : TxNet aw) : Prop where
  slowed : net.speed.slowed = true
  entered : net.speed.oCe = true → net.speed.secondHalf = false ∧ net.speed.rCe = false
  told : net.speed.secondHalf = true ∨ net.speed.oCe = true → net.speed.oV = net.stages.pre.oV

/-- Between packets. -/
theorem Settled.idle (slowed : net.speed.slowed = true) (waits : net.speed.oCe = false)
    (dark : net.speed.oV = false) (silent : net.stages.pre.oV = false) : net.Settled :=
  ⟨slowed, fun ready => absurd (ready.symm.trans waits) (by decide), fun _ => dark.trans silent.symm⟩

theorem Settled.busy (settled : net.Settled) (running : net.halted = false)
    (busy : net.nTxBusy = true) : (net.step bus nTxSpd txmem).nTxBusy = true := by
  cases ready : net.speed.oCe with
  | false => simp [step, running, busy, ready]
  | true =>
      have told := settled.told (.inr ready)
      simp only [step, running, busy, told]
      cases net.stages.pre.oV <;> simp

theorem Settled.step (settled : net.Settled) (running : net.halted = false)
    (still : nTxSpd = net.speed.rSpd) :
    (net.step bus nTxSpd txmem).Settled ∧
      (net.step bus nTxSpd txmem).speed.rSpd = net.speed.rSpd := by
  have awake := awake nTxSpd running
  have speed : (net.step bus nTxSpd txmem).speed = net.speed.step (net.speedClock nTxSpd) := rfl
  have same : (net.speed.step (net.speedClock nTxSpd)).rSpd = net.speed.rSpd := by
    simp only [TxeSpeed.step, awake, Bool.false_eq_true, if_false]
    change (if _ then nTxSpd else _) = _
    rw [still]
    exact ite_self _
  have slower : net.speed.rSpd ≠ TxeSpeed.spd1g := by
    intro gigabit
    exact absurd (settled.slowed.symm.trans (TxeSpeed.gigabit_full gigabit)) (by decide)
  have half := TxeSpeed.step_secondHalf net.speed awake
  rw [if_neg slower] at half
  have ticks := TxeSpeed.step_rCe net.speed awake
  have seen := TxeSpeed.step_oV net.speed awake
  have slowed : (net.speed.step (net.speedClock nTxSpd)).slowed = true :=
    (slowed_congr same).trans settled.slowed
  refine ⟨⟨slowed, ?_, ?_⟩, same⟩
  · rw [speed, TxeSpeed.step_oCe, awake, half, ticks]
    intro ready
    obtain ⟨now, second⟩ : net.speed.rCe = true ∧ net.speed.secondHalf = true := by
      simpa using ready
    simp [now, second, settled.slowed]
  · rw [speed, TxeSpeed.step_oCe, awake, half, seen, run_pre _ _ _ running]
    cases ready : net.speed.oCe with
    | true =>
        obtain ⟨first, waits⟩ := settled.entered ready
        simp [first, waits]
    | false =>
        have offered : (net.stages.pre.step false false true net.stages.crc.oV
            net.stages.crc.oD).oV = net.stages.pre.oV := rfl
        have put : (net.speedClock nTxSpd).iV = net.stages.pre.oV := rfl
        rw [offered, put]
        cases second : net.speed.secondHalf with
        | true => simp [slower, settled.told (.inl second)]
        | false => cases net.speed.rCe <;> simp

end TxNet

namespace TxSide

variable {aw : Nat} {side : TxSide aw} {edge : TxEdge aw} {edges : List (TxEdge aw)}

def Sends (side : TxSide aw) (edge : TxEdge aw) : Prop :=
  edge.net.isSome = true → side.net.halted = false → side.net.Sends

instance (side : TxSide aw) (edge : TxEdge aw) : Decidable (side.Sends edge) :=
  inferInstanceAs (Decidable (_ → _ → _))

structure Sound (side : TxSide aw) : Prop where
  flows : side.net.Flows
  live : side.net.nTxBusy = true → side.net.Live

theorem PowerUp.sound (start : side.PowerUp) : side.Sound where
  flows :=
    { reads :=
        { width := by rw [start.rLen]; exact Nat.two_pow_pos _
          starts := fun up => absurd (up.symm.trans start.startSignal) (by decide)
          inside := fun up => absurd (up.symm.trans start.oMemv) (by decide)
          filled := fun up => absurd (up.symm.trans start.oMemv) (by decide) }
      trails :=
        { counts := fun _ up => absurd (up.symm.trans start.pad.1) (by decide)
          lanes := fun _ _ => .inl (by rw [start.crc]; rfl)
          silent := fun _ => .inl (by rw [start.crc]; rfl) }
      paced :=
        { count := by rw [start.rCe, start.ckCounter]; rfl
          full := fun _ => start.rCe
          entry := fun _ _ => start.rCe
          gigabit := fun _ _ => start.secondHalf
          third := fun _ _ => .inr (.inl start.secondHalf) }
      begins := fun up => absurd (up.symm.trans start.pre) (by decide) }
  live busy := absurd (busy.symm.trans start.nTxBusy) (by decide)

theorem Sound.netEdge (sound : side.Sound) (sends : side.Sends edge) :
    (side.netEdge edge).Flows ∧ ((side.netEdge edge).nTxBusy = true → (side.netEdge edge).Live) := by
  unfold TxSide.netEdge
  cases clock : edge.net with
  | none => exact ⟨sound.flows, sound.live⟩
  | some txmem =>
      refine ⟨sound.flows.step, fun busy => ?_⟩
      rcases Bool.eq_false_or_eq_true side.net.halted with halted | running
      · exact absurd (busy.symm.trans (TxNet.halted_idle halted)) (by decide)
      · have allowed := sends (by rw [clock]; rfl) running
        exact .step sound.flows running sound.live allowed busy

theorem Sound.step (sound : side.Sound) (sends : side.Sends edge) : (side.step edge).Sound := by
  obtain ⟨flows, live⟩ := sound.netEdge sends
  unfold TxSide.step
  cases edge.iReset with
  | false => exact ⟨flows, live⟩
  | true =>
      refine ⟨⟨flows.reads, flows.trails, flows.paced, flows.begins⟩, fun busy => ?_⟩
      cases live busy with
      | command up => exact .command up
      | start up => exact .start up
      | reader up => exact .reader up
      | mac up => exact .mac up
      | pad up => exact .pad up
      | crc up => exact .crc up
      | pre up => exact .pre up
      | line ends => exact .line ends

/-- Busy at 10 or 100 Mb/s. -/
structure Clogged (slow : TxeSpeed.Slow) (side : TxSide aw) : Prop where
  settled : side.net.Settled
  rSpd : side.net.speed.rSpd = slow.spd
  busy : side.net.nTxBusy = true

/-- Nothing resets the stages, and the speed stays as it is. -/
def Undisturbed (slow : TxeSpeed.Slow) (side : TxSide aw) (edge : TxEdge aw) : Prop :=
  edge.net.isSome = true → side.net.halted = false ∧ side.spd.rValue = slow.spd

variable {slow : TxeSpeed.Slow}

theorem Clogged.step (clogged : side.Clogged slow) (stable : side.Undisturbed slow edge) :
    (side.step edge).Clogged slow := by
  have net : (side.netEdge edge).Settled ∧ (side.netEdge edge).speed.rSpd = slow.spd ∧
      (side.netEdge edge).nTxBusy = true := by
    unfold TxSide.netEdge
    cases clock : edge.net with
    | none => exact ⟨clogged.settled, clogged.rSpd, clogged.busy⟩
    | some txmem =>
        obtain ⟨running, asked⟩ := stable (by rw [clock]; rfl)
        obtain ⟨next, same⟩ := clogged.settled.step running (asked.trans clogged.rSpd.symm)
        exact ⟨next, same.trans clogged.rSpd, clogged.settled.busy running clogged.busy⟩
  obtain ⟨settled, rSpd, busy⟩ := net
  unfold TxSide.step
  cases edge.iReset with
  | false => exact ⟨settled, rSpd, busy⟩
  | true => exact ⟨⟨settled.slowed, settled.entered, settled.told⟩, rSpd, busy⟩

/-- Once it is set at 10 or 100 Mb/s, `n_tx_busy` is cleared by a cancellation
or a reset only. -/
theorem slow_stays_busy (clogged : side.Clogged slow)
    (stable : Along step (Undisturbed slow) side edges) :
    (clocked step side edges).net.nTxBusy = true := by
  have last : (clocked step side edges).Clogged slow :=
    along_invariant (fun _ _ clogged allowed => clogged.step allowed) clogged stable
  exact last.busy

/-! ### Runs -/

/-- The board's transmitter as it powers up, what has no initial value being zero. -/
def powered : TxSide 9 where
  bus := ⟨false, 0, 0, 0, 0, false, false, false, false, false, false, false, false, false, 0, 0⟩
  spd := .init
  net :=
    { qTxReset := 0
      nTxCmd := false
      rTxCmd := false
      nTxCancel := false
      rTxCancel := false
      nTxBusy := false
      nTxConfigHwMac := false
      nTxConfigHwCrc := false
      nTxLen := 0
      stages :=
        { addr := ⟨false, false, 0, 0, 1, 0⟩
          nTxData := 0
          mac := ⟨0, fun _ => ⟨false, 0⟩, 0, false, 0⟩
          pad := ⟨0, false, 0⟩
          crc := .init
          pre := ⟨fun _ => ⟨false, 0⟩, false, 0⟩ }
      speed := ⟨0, true, 0, 2, 0, true, false, 0, false⟩
      nStillBusy := false }

theorem powered_up : powered.PowerUp := by
  constructor <;> first | rfl | exact ⟨rfl, rfl, rfl, fun _ => rfl⟩ | exact ⟨rfl, rfl⟩

def wbEdge (wires : TxWires 9) : TxEdge 9 := ⟨false, some wires, none⟩

def quietWires : TxWires 9 := ⟨false, false, 0, 0, 0⟩

/-- A write of the control register. -/
def control (iWbData : BitVec 32) : TxEdge 9 := wbEdge ⟨true, true, 1, iWbData, 15⟩

def netTick : TxEdge 9 := ⟨false, none, some fun _ => 0⟩

/-- The network comes out of its reset, a packet of `length` bytes is asked for,
and both sides take note of it. -/
def asksFor (length : BitVec 32) : List (TxEdge 9) :=
  [control 0, control (0x4000 + length)] ++ List.replicate 3 (wbEdge quietWires) ++
    List.replicate 4 netTick ++ List.replicate 3 (wbEdge quietWires) ++ List.replicate 2 netTick

/-- In a run in which every command finds a length that `txeaddr` takes, and no
packet is sent at 10 or 100 Mb/s, the transmitter is never left busy with
nothing to send. -/
theorem never_stuck (start : side.PowerUp) (sends : Along step Sends side edges) :
    (clocked step side edges).net.stuck = false := by
  have sound : (clocked step side edges).Sound :=
    along_invariant (fun _ _ sound allowed => sound.step allowed) start.sound sends
  rcases Bool.eq_false_or_eq_true (clocked step side edges).net.nTxBusy with busy | idle
  · exact (sound.live busy).not_stuck
  · simp [TxNet.stuck, idle]

theorem sixty_four_bytes_sent : (clocked step powered (asksFor 64)).net.stuck = false :=
  never_stuck powered_up (by decide +kernel)

/-- The register takes a length of five, `txeaddr` does not, and no command is
left that could start another packet. -/
theorem five_bytes_stuck :
    powered.PowerUp ∧
      let side := clocked step powered (asksFor 5)
      side.net.stuck = true ∧ side.net.rTxCmd = false ∧ side.bus.txCmd = false ∧
        side.bus.txNzeroCmd = false ∧ side.bus.preCmd = false ∧ side.bus.wrCtrl = false :=
  ⟨powered_up, by decide +kernel⟩

end TxSide

end ZipVersa.Enet
