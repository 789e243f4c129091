import ZipVersa.Enet.Oversized

/-! Who owns the receive buffer. `Line` follows the frames on the line without
looking at the receiver; the invariant relates what the filters hold to the
number of clocks since the first byte of the last frame. It only bounds what
may be in a filter from above, so it stands whatever the checks reset. -/

set_option autoImplicit false

namespace ZipVersa.Enet

open Lib

/-- The last frame on the line: the bytes 0x55 counted before it, its bytes so
far, and the clocks since its last byte. -/
structure Line where
  syncs : Nat
  frame : List Byte
  since : Nat
  deriving DecidableEq, Repr

namespace Line

def start : Line := ⟨0, [], 10⟩

def step (line : Line) (clock : RxClock) : Line :=
  if clock.iNetRxDv then
    if line.since = 0 then { line with frame := line.frame ++ [clock.iNetRxd] }
    else if 7 ≤ line.syncs ∧ clock.iNetRxd = 0xd5#8 then ⟨0, [], 0⟩
    else
      { line with
        syncs := if clock.iNetRxd = 0x55#8 then line.syncs + 1 else 0
        since := line.since + 1 }
  else { line with syncs := 0, since := line.since + 1 }

/-- Clocks since the first byte of the frame. -/
def time (line : Line) : Nat := line.frame.length + line.since

/-- A frame does not end before the checks can have refused it unless they have no
reason to: no packet is held, and the filter, if it is on, takes the frame. The line
is silent for more than one clock after it. -/
def Allows (settings : Settings) (line : Line) (held : Bool) (clock : RxClock) : Prop :=
  (clock.iNetRxDv = false → line.since = 0 →
    line.frame.length ≤ RxeHwMac.stripped settings.hwMacOn ∨
      settings.delay + 3 ≤ line.frame.length ∨
      held = false ∧
        (settings.hwMacOn = true → RxeHwMac.Accepts settings.hwMac line.frame)) ∧
  (clock.iNetRxDv = true → line.since ≠ 1)

instance (settings : Settings) (line : Line) (held : Bool) (clock : RxClock) :
    Decidable (line.Allows settings held clock) := inferInstanceAs (Decidable (_ ∧ _))

/-- What a clock does to the line. -/
theorem step_cases (line : Line) (clock : RxClock) :
    (clock.iNetRxDv = true ∧ line.since ≠ 0 ∧ 7 ≤ line.syncs ∧ clock.iNetRxd = 0xd5#8 ∧
      line.step clock = ⟨0, [], 0⟩) ∨
    (clock.iNetRxDv = true ∧ line.since = 0 ∧
      line.step clock = { line with frame := line.frame ++ [clock.iNetRxd] }) ∨
    (clock.iNetRxDv = true ∧ line.since ≠ 0 ∧ ¬ (7 ≤ line.syncs ∧ clock.iNetRxd = 0xd5#8) ∧
      line.step clock = { line with
        syncs := if clock.iNetRxd = 0x55#8 then line.syncs + 1 else 0
        since := line.since + 1 }) ∨
    (clock.iNetRxDv = false ∧
      line.step clock = { line with syncs := 0, since := line.since + 1 }) := by
  unfold step
  cases clock.iNetRxDv with
  | false => exact .inr (.inr (.inr ⟨rfl, rfl⟩))
  | true =>
      by_cases inFrame : line.since = 0
      · exact .inr (.inl ⟨rfl, inFrame, by simp [inFrame]⟩)
      · by_cases opens : 7 ≤ line.syncs ∧ clock.iNetRxd = 0xd5#8
        · exact .inl ⟨rfl, inFrame, opens.1, opens.2, by simp [inFrame, opens]⟩
        · exact .inr (.inr (.inl ⟨rfl, inFrame, opens, by simp [inFrame, opens]⟩))

end Line

namespace Receiver

variable {aw : Nat} {settings : Settings} {line : Line} {rx : Receiver aw} {clock : RxClock}
  {held : Bool}

/-- Every clock of a run is one the line allows, with the packet that is held then. -/
def Paced (settings : Settings) : Line → Receiver aw → List RxClock → Prop
  | _, _, [] => True
  | line, rx, clock :: rest =>
      line.Allows settings rx.nRxValid clock ∧ Paced settings (line.step clock) (rx.step clock) rest

/-! ### The preamble detector -/

structure Detects (line : Line) (rx : Receiver aw) : Prop where
  opened : line.since = 0 → rx.pre.rInpkt = true ∨ rx.nRxNetErr = true
  closed : rx.pre.rInpkt = true → line.since ≤ 1
  oV : rx.pre.oV = true → line.since = 0 ∧ 1 ≤ line.frame.length
  passes : line.since = 0 → 1 ≤ line.frame.length → rx.pre.rInpkt = true → rx.pre.oV = true
  nsyncs : line.since ≠ 0 → rx.pre.nsyncs.toNat ≤ line.syncs
  counts : line.since ≠ 0 → rx.nRxNetErr = true ∨ rx.pre.nsyncs.toNat = min line.syncs 15
  syncs : line.syncs = 0 ∨ line.syncs + 2 ≤ line.since

theorem netErr_held (raised : rx.nRxNetErr = true) (valid : clock.iNetRxDv = true) :
    (rx.step clock).nRxNetErr = true := by
  simp [Receiver.step, raised, valid]

/-- The detector at a clock without reset. -/
theorem pre_step (under : clock.nRxReset = false) (sound : rx.nRxNetErr = false) :
    (rx.step clock).pre.rInpkt =
        ((clock.iNetRxDv || rx.pre.oV) &&
          (rx.pre.rInpkt || ((6#4).ult rx.pre.nsyncs && clock.iNetRxDv &&
            clock.iNetRxd == 0xd5#8))) ∧
      (rx.step clock).pre.oV = (rx.pre.rInpkt && clock.iNetRxDv) ∧
      (rx.step clock).pre.nsyncs = (if clock.iNetRxDv = true ∧ clock.iNetRxd = 0x55#8 then
        (if rx.pre.nsyncs = 15 then rx.pre.nsyncs else rx.pre.nsyncs + 1) else 0) := by
  simp only [Receiver.step, RxePreambl.step, under, sound, Bool.or_false, Bool.false_eq_true,
    if_false, if_true, Bool.not_true]
  cases clock.iNetRxDv <;> cases rx.pre.oV <;> cases rx.pre.rInpkt <;> simp

theorem pre_reset (raised : rx.nRxNetErr = true) :
    (rx.step clock).pre = ⟨false, 0, false, 0⟩ := by
  simp [Receiver.step, RxePreambl.step, raised]

/-- The error stays while there is data, and holds the detector in reset. -/
theorem Detects.refused (detects : rx.Detects line) (raised : rx.nRxNetErr = true)
    (apart : clock.iNetRxDv = true → line.since ≠ 1) :
    (rx.step clock).Detects (line.step clock) := by
  have spaced := detects.syncs
  have reset : (rx.step clock).pre = ⟨false, 0, false, 0⟩ := pre_reset raised
  rcases line.step_cases clock with ⟨valid, since, -, -, next⟩ | ⟨valid, since, next⟩ |
    ⟨valid, since, -, next⟩ | ⟨silent, next⟩
  all_goals rw [next]
  · constructor <;> simp [reset, netErr_held raised valid]
  · constructor <;> simp [reset, netErr_held raised valid, since]
    omega
  · have gap := apart valid
    constructor <;> simp [reset, netErr_held raised valid]
    split <;> omega
  · constructor <;> simp [reset]

theorem Detects.outside (detects : rx.Detects line) (since : line.since ≠ 0) (gap : line.since ≠ 1) :
    rx.pre.rInpkt = false := Bool.eq_false_iff.mpr fun inside => by
  have near := detects.closed inside
  omega

/-- A start of frame. -/
theorem Detects.opens (detects : rx.Detects line) (under : clock.nRxReset = false)
    (sound : rx.nRxNetErr = false) (since : line.since ≠ 0) (gap : line.since ≠ 1)
    (valid : clock.iNetRxDv = true) (enough : 7 ≤ line.syncs)
    (data : clock.iNetRxd = 0xd5#8) : (rx.step clock).Detects ⟨0, [], 0⟩ := by
  obtain ⟨inPacket, shows, -⟩ := pre_step under sound
  have exact_ := (detects.counts since).resolve_left (by simp [sound])
  have counted : (6#4).ult rx.pre.nsyncs = true := by
    rw [BitVec.ult_iff_toNat_lt, exact_, show (6#4).toNat = 6 from rfl]
    omega
  have open_ : (rx.step clock).pre.rInpkt = true := by simp [inPacket, valid, data, counted]
  have hidden : (rx.step clock).pre.oV = false := by simp [shows, detects.outside since gap]
  constructor <;> simp [open_, hidden]

/-- A byte of the frame. -/
theorem Detects.takes (detects : rx.Detects line) (under : clock.nRxReset = false)
    (sound : rx.nRxNetErr = false) (since : line.since = 0) (valid : clock.iNetRxDv = true) :
    (rx.step clock).Detects { line with frame := line.frame ++ [clock.iNetRxd] } := by
  obtain ⟨inPacket, shows, -⟩ := pre_step under sound
  have spaced := detects.syncs
  have inside : rx.pre.rInpkt = true := (detects.opened since).resolve_right (by simp [sound])
  have stays : (rx.step clock).pre.rInpkt = true := by simp [inPacket, valid, inside]
  have shown : (rx.step clock).pre.oV = true := by simp [shows, valid, inside]
  constructor <;> simp [stays, shown, since]
  omega

/-- Data before a start of frame. -/
theorem Detects.waits (detects : rx.Detects line) (under : clock.nRxReset = false)
    (sound : rx.nRxNetErr = false) (since : line.since ≠ 0) (gap : line.since ≠ 1)
    (valid : clock.iNetRxDv = true)
    (waits : ¬ (7 ≤ line.syncs ∧ clock.iNetRxd = 0xd5#8)) :
    (rx.step clock).Detects { line with
      syncs := if clock.iNetRxd = 0x55#8 then line.syncs + 1 else 0
      since := line.since + 1 } := by
  obtain ⟨inPacket, shows, syncs⟩ := pre_step under sound
  have spaced := detects.syncs
  have outside := detects.outside since gap
  have exact_ := (detects.counts since).resolve_left (by simp [sound])
  have few := detects.nsyncs since
  have still : (rx.step clock).pre.rInpkt = false := by
    rw [inPacket, outside, valid]
    refine Bool.eq_false_iff.mpr fun opens => waits ?_
    simp only [Bool.true_or, Bool.true_and, Bool.false_or, Bool.and_true, Bool.and_eq_true,
      beq_iff_eq, BitVec.ult_iff_toNat_lt, exact_] at opens
    have more : 6 < min line.syncs 15 := opens.1
    exact ⟨by omega, opens.2⟩
  have hidden : (rx.step clock).pre.oV = false := by simp [shows, outside]
  have number : (rx.step clock).pre.nsyncs.toNat =
      min (if clock.iNetRxd = 0x55#8 then line.syncs + 1 else 0) 15 := by
    rw [syncs]
    by_cases sync : clock.iNetRxd = 0x55#8
    · rw [if_pos ⟨valid, sync⟩, if_pos sync]
      exact RxePreambl.nsyncs_count exact_
    · rw [if_neg fun known => sync known.2, if_neg sync]
      rfl
  have room : (if clock.iNetRxd = 0x55#8 then line.syncs + 1 else 0) = 0 ∨
      (if clock.iNetRxd = 0x55#8 then line.syncs + 1 else 0) + 2 ≤ line.since + 1 := by
    split <;> omega
  refine ⟨fun now => absurd now (Nat.succ_ne_zero _), ?_, ?_, ?_, ?_, ?_, room⟩
  · intro open_
    rw [still] at open_
    cases open_
  · intro seen
    rw [hidden] at seen
    cases seen
  · intro now
    exact absurd now (Nat.succ_ne_zero _)
  · intro _
    rw [number]
    exact Nat.min_le_left _ _
  · intro _
    exact .inr number

theorem Detects.rests (detects : rx.Detects line) (under : clock.nRxReset = false)
    (sound : rx.nRxNetErr = false) (silent : clock.iNetRxDv = false) :
    (rx.step clock).Detects { line with syncs := 0, since := line.since + 1 } := by
  obtain ⟨inPacket, shows, syncs⟩ := pre_step under sound
  have none : (rx.step clock).pre.nsyncs = 0 := by simp [syncs, silent]
  have hidden : (rx.step clock).pre.oV = false := by simp [shows, silent]
  constructor <;> simp [hidden, none]
  intro stays
  simp [inPacket, silent] at stays
  have shown := detects.oV stays.1
  omega

theorem Detects.step (detects : rx.Detects line) (under : clock.nRxReset = false)
    (allows : line.Allows settings held clock) : (rx.step clock).Detects (line.step clock) := by
  have apart := allows.2
  cases sound : rx.nRxNetErr with
  | true => exact detects.refused sound apart
  | false =>
      rcases line.step_cases clock with ⟨valid, since, enough, data, next⟩ |
        ⟨valid, since, next⟩ | ⟨valid, since, waits, next⟩ | ⟨silent, next⟩
      all_goals rw [next]
      · exact detects.opens under sound since (apart valid) valid enough data
      · exact detects.takes under sound since valid
      · exact detects.waits under sound since (apart valid) valid waits
      · exact detects.rests under sound silent

/-! ### The filters -/

/-- What the filters may hold `time` clocks after the first byte of a frame of
which `length` bytes have been on the line. A byte that is not the first has the
one before it in the next filter. -/
structure Slots (stripped length time : Nat) (rx : Receiver aw) : Prop where
  buf0 : rx.crc.buf0.v = true → 2 ≤ time ∧ time ≤ length + 1
  buf1 : rx.crc.buf1.v = true → 3 ≤ time ∧ time ≤ length + 2
  buf2 : rx.crc.buf2.v = true → 4 ≤ time ∧ time ≤ length + 3
  crc : rx.crc.oV = true → 5 ≤ time ∧ time ≤ length + 4
  mac : rx.mac.oV = true → 6 + stripped ≤ time ∧ time ≤ length + 5
  wr : rx.wr.oV = true → 7 + stripped ≤ time ∧ time ≤ length + 6
  last : rx.lastRxwr = true → 8 + stripped ≤ time ∧ time ≤ length + 7
  after0 : rx.pre.oV = true → 2 ≤ time → rx.crc.buf0.v = true
  after1 : rx.crc.buf0.v = true → 3 ≤ time → rx.crc.buf1.v = true
  after2 : rx.crc.buf1.v = true → 4 ≤ time → rx.crc.buf2.v = true
  after3 : rx.crc.buf2.v = true → 5 ≤ time → rx.crc.oV = true
  after4 : rx.crc.oV = true → 6 + stripped ≤ time → rx.mac.oV = true
  after5 : rx.mac.oV = true → 7 + stripped ≤ time → rx.wr.oV = true
  after6 : rx.wr.oV = true → 8 + stripped ≤ time → rx.lastRxwr = true
  rP : rx.crc.oV = true → rx.mac.rP = (-1#7) <<< (time - 5)

variable {stripped length time : Nat}

/-- A reset empties the filters. -/
theorem Slots.reset (slots : rx.Slots stripped length time) (raised : rx.nRxNetErr = true) :
    (rx.step clock).Slots stripped length (time + 1) := by
  have writes := slots.wr
  constructor
  case last =>
    intro last
    have when := writes last
    omega
  all_goals
    simp [Receiver.step, RxeCrc.step, RxeHwMac.step, RxeWrite.step, RxeWrite.init,
      RxePreambl.step, raised]

theorem Slots.longer {more : Nat} (slots : rx.Slots stripped length time) (grows : length ≤ more) :
    rx.Slots stripped more time where
  buf0 shown := ⟨(slots.buf0 shown).1, Nat.le_trans (slots.buf0 shown).2 (by omega)⟩
  buf1 shown := ⟨(slots.buf1 shown).1, Nat.le_trans (slots.buf1 shown).2 (by omega)⟩
  buf2 shown := ⟨(slots.buf2 shown).1, Nat.le_trans (slots.buf2 shown).2 (by omega)⟩
  crc shown := ⟨(slots.crc shown).1, Nat.le_trans (slots.crc shown).2 (by omega)⟩
  mac shown := ⟨(slots.mac shown).1, Nat.le_trans (slots.mac shown).2 (by omega)⟩
  wr shown := ⟨(slots.wr shown).1, Nat.le_trans (slots.wr shown).2 (by omega)⟩
  last shown := ⟨(slots.last shown).1, Nat.le_trans (slots.last shown).2 (by omega)⟩
  after0 := slots.after0
  after1 := slots.after1
  after2 := slots.after2
  after3 := slots.after3
  after4 := slots.after4
  after5 := slots.after5
  after6 := slots.after6
  rP := slots.rP

/-- Where the valid bits go at a clock without reset. -/
theorem bits_step (under : clock.nRxReset = false) (sound : rx.nRxNetErr = false)
    (configured : rx.nRxConfigHwMac = settings.hwMacOn) :
    (rx.step clock).crc.buf0.v = rx.pre.oV ∧
      (rx.step clock).crc.buf1.v = (rx.crc.buf0.v &&
        !(rx.crc.trims rx.pre.oV && (rx.crc.rMp3 || rx.crc.rMp2))) ∧
      (rx.step clock).crc.buf2.v = (rx.crc.buf1.v && !(rx.crc.trims rx.pre.oV && rx.crc.rMp3)) ∧
      (rx.step clock).crc.oV = rx.crc.buf2.v ∧
      (rx.step clock).mac.oV =
        (if settings.hwMacOn && rx.mac.rP.getLsbD 5 then false else rx.crc.oV) ∧
      (rx.step clock).wr.oV = rx.mac.oV ∧ (rx.step clock).lastRxwr = rx.wr.oV := by
  refine ⟨?_, ?_, ?_, ?_, ?_, ?_, ?_⟩
  · simp [Receiver.step, RxeCrc.step, under, sound]
  · simp [Receiver.step, RxeCrc.step, under, sound]
  · simp [Receiver.step, RxeCrc.step, under, sound]
  · simp [Receiver.step, RxeCrc.step, under, sound]
  · simp [Receiver.step, RxeHwMac.step, under, sound, configured]
  · simp only [Receiver.step, RxeWrite.step, under, sound, Bool.or_false, Bool.false_eq_true,
      if_false, if_true]
    cases rx.mac.oV <;> cases rx.wr.oV <;> rfl
  · rfl

/-- Behind the destination the filter for the address drops nothing. -/
theorem Slots.undropped (slots : rx.Slots (RxeHwMac.stripped settings.hwMacOn) length time)
    (here : rx.crc.oV = true) :
    (settings.hwMacOn && rx.mac.rP.getLsbD 5) = false ↔
      RxeHwMac.stripped settings.hwMacOn + 5 ≤ time := by
  have when := slots.crc here
  rw [slots.rP here, RxeHwMac.shifted_five]
  unfold RxeHwMac.stripped
  cases settings.hwMacOn
  · simp
    omega
  · simp
    omega

theorem Slots.mac_step (slots : rx.Slots (RxeHwMac.stripped settings.hwMacOn) length time)
    (under : clock.nRxReset = false) (sound : rx.nRxNetErr = false)
    (configured : rx.nRxConfigHwMac = settings.hwMacOn) :
    (rx.step clock).mac.oV = true ↔
      rx.crc.oV = true ∧ RxeHwMac.stripped settings.hwMacOn + 5 ≤ time := by
  have toMac := (bits_step under sound configured).2.2.2.2.1
  rw [toMac]
  cases here : rx.crc.oV with
  | false => simp
  | true =>
      rw [← slots.undropped here]
      cases settings.hwMacOn && rx.mac.rP.getLsbD 5 <;> simp

/-- The pointer into the address counts the bytes offered. -/
theorem Slots.rP_step (slots : rx.Slots stripped length time) (under : clock.nRxReset = false)
    (sound : rx.nRxNetErr = false) (staged : rx.crc.buf2.v = true) :
    (rx.step clock).mac.rP = (-1#7) <<< (time + 1 - 5) := by
  have when := slots.buf2 staged
  by_cases first : time = 4
  · have noCrc : rx.crc.oV = false := Bool.eq_false_iff.mpr fun here => by
      have later := slots.crc here
      omega
    have noMac : rx.mac.oV = false := Bool.eq_false_iff.mpr fun here => by
      have later := slots.mac here
      omega
    subst first
    simp [Receiver.step, RxeHwMac.step, under, sound, noCrc, noMac]
  · have here := slots.after3 staged (by omega)
    simp only [Receiver.step, RxeHwMac.step, under, sound, here, slots.rP here, Bool.or_false,
      Bool.false_eq_true, if_false, if_true, Bool.not_true, Bool.false_and]
    rw [show time + 1 - 5 = time - 5 + 1 by omega, BitVec.shiftLeft_add]

/-- A clock without reset, of which the line may have taken a byte more. -/
theorem Slots.step {longer : Nat}
    (slots : rx.Slots (RxeHwMac.stripped settings.hwMacOn) length time)
    (under : clock.nRxReset = false) (sound : rx.nRxNetErr = false)
    (configured : rx.nRxConfigHwMac = settings.hwMacOn) (grows : length ≤ longer)
    (shows : rx.pre.oV = true → 1 ≤ time ∧ time ≤ length)
    (follows : (rx.step clock).pre.oV = true → 1 ≤ time → rx.pre.oV = true) :
    (rx.step clock).Slots (RxeHwMac.stripped settings.hwMacOn) longer (time + 1) := by
  obtain ⟨toBuf0, toBuf1, toBuf2, toCrc, -, toWr, toLast⟩ :=
    bits_step under sound configured
  have toMac := slots.mac_step under sound configured
  constructor
  case buf0 =>
    intro shown
    have when := shows (toBuf0 ▸ shown)
    omega
  case buf1 =>
    intro shown
    rw [toBuf1, Bool.and_eq_true] at shown
    have when := slots.buf0 shown.1
    omega
  case buf2 =>
    intro shown
    rw [toBuf2, Bool.and_eq_true] at shown
    have when := slots.buf1 shown.1
    omega
  case crc =>
    intro shown
    have when := slots.buf2 (toCrc ▸ shown)
    omega
  case mac =>
    intro shown
    obtain ⟨here, late⟩ := toMac.mp shown
    have when := slots.crc here
    omega
  case wr =>
    intro shown
    have when := slots.mac (toWr ▸ shown)
    omega
  case last =>
    intro shown
    have when := slots.wr (toLast ▸ shown)
    omega
  case after0 =>
    intro shown late
    rw [toBuf0]
    exact follows shown (by omega)
  case after1 =>
    intro shown late
    rw [toBuf0] at shown
    rw [toBuf1, slots.after0 shown (by omega), RxeCrc.trims, shown]
    rfl
  case after2 =>
    intro shown late
    rw [toBuf1, Bool.and_eq_true] at shown
    rw [toBuf2, slots.after1 shown.1 (by omega)]
    have uncut := shown.2
    revert uncut
    cases rx.crc.trims rx.pre.oV <;> cases rx.crc.rMp3 <;> simp
  case after3 =>
    intro shown late
    rw [toBuf2, Bool.and_eq_true] at shown
    rw [toCrc]
    exact slots.after2 shown.1 (by omega)
  case after4 =>
    intro shown late
    exact toMac.mpr ⟨slots.after3 (toCrc ▸ shown) (by omega), by omega⟩
  case after5 =>
    intro shown late
    rw [toWr]
    exact slots.after4 (toMac.mp shown).1 (by omega)
  case after6 =>
    intro shown late
    rw [toLast]
    exact slots.after5 (toWr ▸ shown) (by omega)
  case rP =>
    intro shown
    exact slots.rP_step under sound (toCrc ▸ shown)

/-- The bytes in the filters are those of the frame. -/
structure Bytes (frame : List Byte) (time : Nat) (rx : Receiver aw) : Prop where
  pre : rx.pre.oV = true → rx.pre.oD = frame.getD (time - 1) 0
  buf0 : rx.crc.buf0.v = true → rx.crc.buf0.d = frame.getD (time - 2) 0
  buf1 : rx.crc.buf1.v = true → rx.crc.buf1.d = frame.getD (time - 3) 0
  buf2 : rx.crc.buf2.v = true → rx.crc.buf2.d = frame.getD (time - 4) 0
  crc : rx.crc.oV = true → rx.crc.oD = frame.getD (time - 5) 0

/-- The comparison with the hardware address, while bytes of the frame are
offered to `rxehwmac`. -/
structure Compares (hwMac : BitVec 48) (frame : List Byte) (time : Nat) (rx : Receiver aw) :
    Prop where
  rHwmac : rx.crc.oV = true → time - 5 < 6 → rx.mac.rHwmac = hwMac <<< (8 * (time - 5))
  rHwmatch : rx.crc.oV = true → (rx.mac.rHwmatch = true ↔
    ∀ index < min (time - 5) 6, frame.getD index 0 = octet hwMac (5 - index))
  rBroadcast : rx.crc.oV = true → (rx.mac.rBroadcast = true ↔
    ∀ index < min (time - 5) 6, frame.getD index 0 = 0xff)

/-- A frame for another station gets no further than its seventh byte. -/
structure Screens (hwMac : BitVec 48) (frame : List Byte) (time : Nat) (rx : Receiver aw) :
    Prop where
  oErr : rx.mac.oV = true → time = 12 → ¬ RxeHwMac.Accepts hwMac frame → rx.mac.oErr = true
  wr : rx.wr.oV = true → ¬ RxeHwMac.Accepts hwMac frame → time = 13 ∧ rx.nRxNetErr = true
  last : rx.lastRxwr = true → ¬ RxeHwMac.Accepts hwMac frame → rx.nRxNetErr = true

/-- A packet that finds the buffer taken gets no further than its first byte. -/
structure Guards (stripped time : Nat) (rx : Receiver aw) : Prop where
  wr : rx.nRxValid = true → rx.wr.oV = true →
    time = 7 + stripped ∨ time = 8 + stripped ∧ rx.nRxNetErr = true
  last : rx.nRxValid = true → rx.lastRxwr = true → rx.nRxNetErr = true

/-- No byte is under way to the buffer, nor shown to it. -/
structure Drained (rx : Receiver aw) : Prop where
  pre : rx.pre.oV = false
  buf0 : rx.crc.buf0.v = false
  buf1 : rx.crc.buf1.v = false
  buf2 : rx.crc.buf2.v = false
  crc : rx.crc.oV = false
  mac : rx.mac.oV = false
  wr : rx.wr.oV = false

/-- A frame that has ended and can do no harm: it has nothing to store, or was long
enough to be refused, or nothing speaks against it. -/
def Ended (settings : Settings) (frame : List Byte) (rx : Receiver aw) : Prop :=
  frame.length ≤ RxeHwMac.stripped settings.hwMacOn ∨ settings.delay + 3 ≤ frame.length ∨
    (rx.nRxValid = true → rx.Drained) ∧
      (settings.hwMacOn = true → RxeHwMac.Accepts settings.hwMac frame)

/-- The receiver follows the line. -/
structure Follows (settings : Settings) (line : Line) (rx : Receiver aw) : Prop where
  detects : rx.Detects line
  slots : rx.Slots (RxeHwMac.stripped settings.hwMacOn) line.frame.length line.time
  bytes : rx.Bytes line.frame line.time
  compares : rx.Compares settings.hwMac line.frame line.time
  screens : settings.hwMacOn = true → rx.Screens settings.hwMac line.frame line.time
  guards : rx.Guards (RxeHwMac.stripped settings.hwMacOn) line.time
  ended : line.since ≠ 0 → rx.Ended settings line.frame
  configured : rx.Configured settings

/-- A frame of which a byte is to be stored that should not be is still on the
line. -/
theorem Follows.on_line (follows : rx.Follows settings line)
    (allows : line.Allows settings rx.nRxValid clock)
    (early : line.time ≤ 8 + RxeHwMac.stripped settings.hwMacOn)
    (long : RxeHwMac.stripped settings.hwMacOn < line.frame.length)
    (exposed : rx.nRxValid = true ∧ rx.wr.oV = true ∨
      settings.hwMacOn = true ∧ ¬ RxeHwMac.Accepts settings.hwMac line.frame) :
    clock.iNetRxDv = true := by
  have delay : settings.delay = 6 + RxeHwMac.stripped settings.hwMacOn := rfl
  unfold Line.time at early
  cases silent : clock.iNetRxDv with
  | true => rfl
  | false =>
      by_cases inFrame : line.since = 0
      · rcases allows.1 silent inFrame with few | many | ⟨free, taken⟩
        · omega
        · omega
        · rcases exposed with ⟨valid, -⟩ | ⟨on, refused⟩
          · rw [free] at valid
            cases valid
          · exact absurd (taken on) refused
      · rcases follows.ended inFrame with few | many | ⟨drained, taken⟩
        · omega
        · omega
        · rcases exposed with ⟨valid, written⟩ | ⟨on, refused⟩
          · rw [(drained valid).wr] at written
            cases written
          · exact absurd (taken on) refused

/-- The valid flag rises with the end of a packet only. -/
theorem nRxValid_step (valid : (rx.step clock).nRxValid = true) :
    rx.nRxValid = true ∨ rx.nEop = true := by
  simp only [Receiver.step] at valid
  cases cleared : clock.nRxClear
  · cases ends : rx.nEop
    · simp [cleared, ends] at valid
      exact .inl valid
    · exact .inr rfl
  · simp [cleared] at valid

/-- Where a byte in a filter was a clock ago. -/
structure Came (rx next : Receiver aw) : Prop where
  buf0 : next.crc.buf0.v = true → rx.nRxNetErr = false ∧ rx.pre.oV = true
  buf1 : next.crc.buf1.v = true → rx.nRxNetErr = false ∧ rx.crc.buf0.v = true
  buf2 : next.crc.buf2.v = true → rx.nRxNetErr = false ∧ rx.crc.buf1.v = true
  crc : next.crc.oV = true → rx.nRxNetErr = false ∧ rx.crc.buf2.v = true
  mac : next.mac.oV = true → rx.nRxNetErr = false ∧ rx.crc.oV = true
  wr : next.wr.oV = true → rx.nRxNetErr = false ∧ rx.mac.oV = true

theorem came (under : clock.nRxReset = false) : rx.Came (rx.step clock) := by
  cases raised : rx.nRxNetErr with
  | true =>
      constructor <;>
        simp [Receiver.step, RxeCrc.step, RxeHwMac.step, RxeWrite.step, RxeWrite.init, raised]
  | false =>
      obtain ⟨toBuf0, toBuf1, toBuf2, toCrc, toMac, toWr, -⟩ :=
        bits_step under raised
          (show rx.nRxConfigHwMac = (⟨0, rx.nRxConfigHwMac, false, false⟩ : Settings).hwMacOn
            from rfl)
      constructor
      · exact fun shown => ⟨raised, toBuf0 ▸ shown⟩
      · intro shown
        rw [toBuf1, Bool.and_eq_true] at shown
        exact ⟨raised, shown.1⟩
      · intro shown
        rw [toBuf2, Bool.and_eq_true] at shown
        exact ⟨raised, shown.1⟩
      · exact fun shown => ⟨raised, toCrc ▸ shown⟩
      · intro shown
        rw [toMac] at shown
        refine ⟨raised, ?_⟩
        split at shown
        · cases shown
        · exact shown
      · exact fun shown => ⟨raised, toWr ▸ shown⟩

theorem Follows.guards_step (follows : rx.Follows settings line)
    (under : clock.nRxReset = false) (allows : line.Allows settings rx.nRxValid clock) :
    (rx.step clock).Guards (RxeHwMac.stripped settings.hwMacOn) (line.time + 1) := by
  have slots := follows.slots
  have taken : rx.nRxValid = true → rx.wr.oV = true → (rx.step clock).nRxNetErr = true := by
    intro valid written
    have inside := slots.wr written
    have data : clock.iNetRxDv = true := by
      rcases follows.guards.wr valid written with now | ⟨now, -⟩
      · exact follows.on_line allows (by omega) (by omega) (.inl ⟨valid, written⟩)
      · exact follows.on_line allows (by omega) (by omega) (.inl ⟨valid, written⟩)
    simp [Receiver.step, data, valid, written]
  constructor
  case wr =>
    intro valid shown
    obtain ⟨sound, handed⟩ := (came under).wr shown
    have inside := slots.mac handed
    by_cases first : line.time + 1 = 7 + RxeHwMac.stripped settings.hwMacOn
    · exact .inl first
    · have written := slots.after5 handed (by omega)
      rcases nRxValid_step valid with before | ends
      · rcases follows.guards.wr before written with now | ⟨-, raised⟩
        · exact .inr ⟨by omega, taken before written⟩
        · rw [sound] at raised
          cases raised
      · simp [nEop, written] at ends
  case last =>
    intro valid shown
    have written : rx.wr.oV = true := shown
    rcases nRxValid_step valid with before | ends
    · exact taken before written
    · simp [nEop, written] at ends

/-- The frame after a clock begins with the bytes it had. -/
def Extends (frame longer : List Byte) : Prop :=
  ∀ index < frame.length, longer.getD index 0 = frame.getD index 0

theorem Follows.bytes_step {longer : List Byte} (follows : rx.Follows settings line)
    (under : clock.nRxReset = false) (grows : Extends line.frame longer)
    (new : (rx.step clock).pre.oV = true →
      (rx.step clock).pre.oD = longer.getD line.time 0) :
    (rx.step clock).Bytes longer (line.time + 1) := by
  have slots := follows.slots
  have bytes := follows.bytes
  have back : rx.Came (rx.step clock) := came under
  constructor
  case pre =>
    intro shown
    rw [new shown, Nat.add_sub_cancel]
  case buf0 =>
    intro shown
    have here := (back.buf0 shown).2
    obtain ⟨now, some⟩ := follows.detects.oV here
    have time : line.time = line.frame.length := by rw [Line.time, now, Nat.add_zero]
    rw [show line.time + 1 - 2 = line.time - 1 by omega, grows _ (by omega), ← bytes.pre here]
    rfl
  case buf1 =>
    intro shown
    have here := (back.buf1 shown).2
    have when := slots.buf0 here
    rw [show line.time + 1 - 3 = line.time - 2 by omega, grows _ (by omega), ← bytes.buf0 here]
    rfl
  case buf2 =>
    intro shown
    have here := (back.buf2 shown).2
    have when := slots.buf1 here
    rw [show line.time + 1 - 4 = line.time - 3 by omega, grows _ (by omega), ← bytes.buf1 here]
    rfl
  case crc =>
    intro shown
    have here := (back.crc shown).2
    have when := slots.buf2 here
    rw [show line.time + 1 - 5 = line.time - 4 by omega, grows _ (by omega), ← bytes.buf2 here]
    rfl

theorem Extends.all {frame longer : List Byte} (grows : Extends frame longer) {count : Nat}
    (inside : count ≤ frame.length) (expected : Nat → Byte) :
    (∀ index < count, longer.getD index 0 = expected index) ↔
      ∀ index < count, frame.getD index 0 = expected index :=
  forall_congr' fun index => imp_congr_right fun below => by rw [grows index (by omega)]

theorem Extends.accepts {frame longer : List Byte} (grows : Extends frame longer)
    (inside : 6 ≤ frame.length) (hwMac : BitVec 48) :
    RxeHwMac.Accepts hwMac longer ↔ RxeHwMac.Accepts hwMac frame :=
  or_congr (grows.all inside _) (grows.all inside _)

theorem Follows.compares_step {longer : List Byte} (follows : rx.Follows settings line)
    (under : clock.Under settings) (grows : Extends line.frame longer) :
    (rx.step clock).Compares settings.hwMac longer (line.time + 1) := by
  have slots := follows.slots
  have compares := follows.compares
  have back : rx.Came (rx.step clock) := came under.nRxReset
  by_cases first : line.time = 4
  · -- the address is loaded in the clock before the first byte
    have noCrc : rx.crc.oV = false := Bool.eq_false_iff.mpr fun here => by
      have later := slots.crc here
      omega
    have noMac : rx.mac.oV = false := Bool.eq_false_iff.mpr fun here => by
      have later := slots.mac here
      omega
    rw [first]
    constructor
    all_goals
      intro shown
      have sound := (back.crc shown).1
      simp [Receiver.step, RxeHwMac.step, under.nRxReset, under.hwMac, sound, noCrc, noMac]
  · have moving : (rx.step clock).crc.oV = true → rx.nRxNetErr = false ∧ rx.crc.oV = true ∧
        5 ≤ line.time ∧ line.time ≤ line.frame.length + 4 := by
      intro shown
      obtain ⟨sound, staged⟩ := back.crc shown
      have when := slots.buf2 staged
      have here := slots.after3 staged (by omega)
      have now := slots.crc here
      exact ⟨sound, here, now.1, now.2⟩
    constructor
    case rHwmac =>
      intro shown early
      obtain ⟨sound, here, late, -⟩ := moving shown
      have now : line.time - 5 < 6 := by omega
      simp only [Receiver.step, RxeHwMac.step, under.nRxReset, sound, here, slots.rP here,
        RxeHwMac.shifted_five, now, decide_true, Bool.or_false, Bool.false_eq_true, if_false,
        if_true, Bool.not_true, Bool.false_and, Bool.and_true, compares.rHwmac here now]
      rw [← BitVec.shiftLeft_add, show 8 * (line.time + 1 - 5) = 8 * (line.time - 5) + 8 by omega]
    case rHwmatch =>
      intro shown
      obtain ⟨sound, here, late, inside⟩ := moving shown
      rw [grows.all (by omega), show line.time + 1 - 5 = line.time - 5 + 1 by omega,
        RxeHwMac.all_step, ← compares.rHwmatch here]
      simp only [Receiver.step, RxeHwMac.step, under.nRxReset, sound, here, slots.rP here,
        RxeHwMac.shifted_five, Bool.or_false, Bool.false_eq_true, if_false, if_true,
        Bool.not_true, Bool.false_and, follows.bytes.crc here]
      refine RxeHwMac.falls_iff fun now => ?_
      rw [compares.rHwmac here now, RxeHwMac.shifted_byte _ now]
    case rBroadcast =>
      intro shown
      obtain ⟨sound, here, late, inside⟩ := moving shown
      rw [grows.all (by omega) fun _ => 0xff, show line.time + 1 - 5 = line.time - 5 + 1 by omega,
        RxeHwMac.all_step, ← compares.rBroadcast here]
      simp only [Receiver.step, RxeHwMac.step, under.nRxReset, sound, here, slots.rP here,
        RxeHwMac.shifted_five, Bool.or_false, Bool.false_eq_true, if_false, if_true,
        Bool.not_true, Bool.false_and, follows.bytes.crc here]
      exact RxeHwMac.falls_iff fun _ => rfl

theorem Follows.screens_step {longer : List Byte} (follows : rx.Follows settings line)
    (under : clock.nRxReset = false) (allows : line.Allows settings rx.nRxValid clock)
    (grows : Extends line.frame longer) (on : settings.hwMacOn = true) :
    (rx.step clock).Screens settings.hwMac longer (line.time + 1) := by
  have slots := follows.slots
  have screens := follows.screens on
  have back : rx.Came (rx.step clock) := came under
  have six : RxeHwMac.stripped settings.hwMacOn = 6 := by rw [on]; rfl
  rw [six] at slots
  have onLine : line.time ≤ 14 → 6 < line.frame.length →
      ¬ RxeHwMac.Accepts settings.hwMac line.frame → clock.iNetRxDv = true :=
    fun early long refused => follows.on_line allows (by omega) (by omega) (.inr ⟨on, refused⟩)
  constructor
  case oErr =>
    intro shown now refused
    obtain ⟨sound, here⟩ := back.mac shown
    have when := slots.crc here
    rw [grows.accepts (by omega)] at refused
    have compares := follows.compares
    have match_ := compares.rHwmatch here
    have broadcast := compares.rBroadcast here
    have verdict := (RxeHwMac.accepts_iff _ _ (show 6 ≤ line.time - 5 by omega) match_
      broadcast).mpr refused
    simp only [Receiver.step, RxeHwMac.step, under, sound, here, slots.rP here,
      follows.configured.nRxConfigHwMac, on, show line.time - 5 = 6 by omega,
      RxeHwMac.shifted_six, Bool.or_false, Bool.false_eq_true, if_false, if_true, Bool.not_true,
      Bool.and_true, decide_true]
    exact verdict
  case wr =>
    intro shown refused
    obtain ⟨sound, handed⟩ := back.wr shown
    have when := slots.mac handed
    rw [grows.accepts (by omega)] at refused
    by_cases first : line.time = 12
    · refine ⟨by omega, ?_⟩
      have error := screens.oErr handed first refused
      simp [Receiver.step, onLine (by omega) (by omega) refused, error]
    · have raised := (screens.wr (slots.after5 handed (by omega)) refused).2
      rw [sound] at raised
      cases raised
  case last =>
    intro shown refused
    have written : rx.wr.oV = true := shown
    have when := slots.wr written
    rw [grows.accepts (by omega)] at refused
    obtain ⟨now, raised⟩ := screens.wr written refused
    exact netErr_held raised (onLine (by omega) (by omega) refused)

theorem Extends.refl (frame : List Byte) : Extends frame frame := fun _ _ => rfl

theorem Extends.push (frame : List Byte) (byte : Byte) : Extends frame (frame ++ [byte]) := by
  intro index below
  rw [List.getD, List.getD, List.getElem?_append_left below]

/-- The filters are empty when a start of frame comes. -/
theorem Follows.opens (follows : rx.Follows settings line) (under : clock.Under settings)
    (allows : line.Allows settings rx.nRxValid clock) (enough : 7 ≤ line.syncs)
    (next : line.step clock = ⟨0, [], 0⟩) :
    (rx.step clock).Follows settings (line.step clock) := by
  have detects := follows.detects.step under.nRxReset allows
  have slots := follows.slots
  have back : rx.Came (rx.step clock) := came under.nRxReset
  have late : line.frame.length + 9 ≤ line.time := by
    have spaced := follows.detects.syncs
    unfold Line.time
    omega
  have noPre : (rx.step clock).pre.oV ≠ true := fun shown => by
    have when := detects.oV shown
    rw [next] at when
    exact absurd when.2 (by decide)
  have noBuf0 : (rx.step clock).crc.buf0.v ≠ true := fun shown => by
    have when := follows.detects.oV (back.buf0 shown).2
    unfold Line.time at late
    omega
  have noBuf1 : (rx.step clock).crc.buf1.v ≠ true := fun shown => by
    have when := slots.buf0 (back.buf1 shown).2
    omega
  have noBuf2 : (rx.step clock).crc.buf2.v ≠ true := fun shown => by
    have when := slots.buf1 (back.buf2 shown).2
    omega
  have noCrc : (rx.step clock).crc.oV ≠ true := fun shown => by
    have when := slots.buf2 (back.crc shown).2
    omega
  have noMac : (rx.step clock).mac.oV ≠ true := fun shown => by
    have when := slots.crc (back.mac shown).2
    omega
  have noWr : (rx.step clock).wr.oV ≠ true := fun shown => by
    have when := slots.mac (back.wr shown).2
    omega
  have noLast : (rx.step clock).lastRxwr ≠ true := fun shown => by
    have when := slots.wr shown
    omega
  refine ⟨detects, ?_, ?_, ?_, fun _ => ?_, ?_, ?_, follows.configured.step under⟩
  · constructor <;> intro shown <;> contradiction
  · constructor <;> intro shown <;> contradiction
  · constructor <;> intro shown <;> contradiction
  · constructor <;> intro shown <;> contradiction
  · constructor <;> intro _ shown <;> contradiction
  · rw [next]
    intro apart
    exact absurd rfl apart

/-- The byte the detector shows is the one the line has taken. -/
theorem Follows.new_byte (follows : rx.Follows settings line) (under : clock.nRxReset = false)
    (allows : line.Allows settings rx.nRxValid clock)
    (shown : (rx.step clock).pre.oV = true) :
    (rx.step clock).pre.oD = (line.step clock).frame.getD line.time 0 := by
  have detects := follows.detects.step under allows
  obtain ⟨now, some⟩ := detects.oV shown
  rcases line.step_cases clock with ⟨-, -, -, -, next⟩ | ⟨valid, since, next⟩ |
    ⟨-, -, -, next⟩ | ⟨-, next⟩
  · rw [next] at some
    exact absurd some (by decide)
  · have time : line.time = line.frame.length := by rw [Line.time, since, Nat.add_zero]
    cases sound : rx.nRxNetErr with
    | true =>
        rw [pre_reset sound] at shown
        cases shown
    | false =>
        rw [next, time, List.getD, List.getElem?_concat_length]
        have inside := (follows.detects.opened since).resolve_right (by simp [sound])
        simp [Receiver.step, RxePreambl.step, under, sound, inside, valid]
  · rw [next] at now
    exact absurd now (Nat.succ_ne_zero _)
  · rw [next] at now
    exact absurd now (Nat.succ_ne_zero _)

theorem Follows.slots_step (follows : rx.Follows settings line) (under : clock.nRxReset = false)
    (allows : line.Allows settings rx.nRxValid clock) {longer : Nat}
    (grows : line.frame.length ≤ longer) :
    (rx.step clock).Slots (RxeHwMac.stripped settings.hwMacOn) longer (line.time + 1) := by
  cases sound : rx.nRxNetErr with
  | true => exact (follows.slots.reset sound).longer grows
  | false =>
      refine follows.slots.step under sound follows.configured.nRxConfigHwMac grows
        (fun shown => ?_) (fun shown some => ?_)
      · obtain ⟨now, some⟩ := follows.detects.oV shown
        unfold Line.time
        omega
      · rw [(pre_step under sound).2.1, Bool.and_eq_true] at shown
        have near := follows.detects.closed shown.1
        have apart := allows.2 shown.2
        unfold Line.time at some
        exact follows.detects.passes (by omega) (by omega) shown.1

theorem Drained.step (drained : rx.Drained) (under : clock.nRxReset = false)
    (hidden : (rx.step clock).pre.oV = false) : (rx.step clock).Drained := by
  have back : rx.Came (rx.step clock) := came under
  have empty {was now : Bool} (came : now = true → rx.nRxNetErr = false ∧ was = true)
      (off : was = false) : now = false := Bool.eq_false_iff.mpr fun shown => by
    rw [(came shown).2] at off
    cases off
  exact ⟨hidden, empty back.buf0 drained.pre, empty back.buf1 drained.buf0,
    empty back.buf2 drained.buf1, empty back.crc drained.buf2, empty back.mac drained.crc,
    empty back.wr drained.mac⟩

/-- At the end of a packet nothing of its frame is left in the filters. -/
theorem Slots.drained (slots : rx.Slots stripped length time) (ends : rx.nEop = true) :
    rx.Drained := by
  simp only [nEop, Bool.and_eq_true, Bool.not_eq_true'] at ends
  obtain ⟨⟨wr, last⟩, -⟩ := ends
  have late := slots.last last
  have mac : rx.mac.oV = false := Bool.eq_false_iff.mpr fun shown => by
    rw [slots.after5 shown (by omega)] at wr
    cases wr
  have crc : rx.crc.oV = false := Bool.eq_false_iff.mpr fun shown => by
    rw [slots.after4 shown (by omega)] at mac
    cases mac
  have buf2 : rx.crc.buf2.v = false := Bool.eq_false_iff.mpr fun shown => by
    rw [slots.after3 shown (by omega)] at crc
    cases crc
  have buf1 : rx.crc.buf1.v = false := Bool.eq_false_iff.mpr fun shown => by
    rw [slots.after2 shown (by omega)] at buf2
    cases buf2
  have buf0 : rx.crc.buf0.v = false := Bool.eq_false_iff.mpr fun shown => by
    rw [slots.after1 shown (by omega)] at buf1
    cases buf1
  refine ⟨Bool.eq_false_iff.mpr fun shown => ?_, buf0, buf1, buf2, crc, mac, wr⟩
  rw [slots.after0 shown (by omega)] at buf0
  cases buf0

/-- A frame that is over stays so. -/
theorem Follows.ended_step (follows : rx.Follows settings line) (under : clock.nRxReset = false)
    (allows : line.Allows settings rx.nRxValid clock)
    (since : (line.step clock).since ≠ 0)
    (silent : line.since = 0 → clock.iNetRxDv = false) :
    (rx.step clock).Ended settings line.frame := by
  have hidden : (rx.step clock).pre.oV = false := Bool.eq_false_iff.mpr fun shown =>
    since ((follows.detects.step under allows).oV shown).1
  have stays (drained : rx.nRxValid = true → rx.Drained)
      (valid : (rx.step clock).nRxValid = true) : (rx.step clock).Drained := by
    rcases nRxValid_step valid with before | ends
    · exact (drained before).step under hidden
    · exact (follows.slots.drained ends).step under hidden
  by_cases inFrame : line.since = 0
  · refine (allows.1 (silent inFrame) inFrame).imp_right (Or.imp_right fun harmless => ?_)
    refine ⟨stays fun valid => ?_, harmless.2⟩
    rw [harmless.1] at valid
    cases valid
  · exact (follows.ended inFrame).imp_right (Or.imp_right fun harmless =>
      ⟨stays harmless.1, harmless.2⟩)

/-- Outside a start of frame the line moves on by one clock. -/
theorem line_moves (line : Line) (clock : RxClock) :
    (7 ≤ line.syncs ∧ line.step clock = ⟨0, [], 0⟩) ∨
      Extends line.frame (line.step clock).frame ∧
      line.frame.length ≤ (line.step clock).frame.length ∧
      (line.step clock).time = line.time + 1 ∧
      ((line.step clock).since ≠ 0 → (line.step clock).frame = line.frame ∧
        (line.since = 0 → clock.iNetRxDv = false)) := by
  rcases line.step_cases clock with ⟨-, -, enough, -, next⟩ | ⟨valid, since, next⟩ |
    ⟨valid, since, -, next⟩ | ⟨silent, next⟩
  · exact .inl ⟨enough, next⟩
  all_goals rw [next]
  · refine .inr ⟨.push _ _, ?_, ?_, fun apart => absurd since apart⟩
    · simp
    · simp only [Line.time, List.length_append, List.length_singleton]
      omega
  · exact .inr ⟨.refl _, Nat.le_refl _, by simp only [Line.time]; omega,
      fun _ => ⟨rfl, fun inFrame => absurd inFrame since⟩⟩
  · exact .inr ⟨.refl _, Nat.le_refl _, by simp only [Line.time]; omega,
      fun _ => ⟨rfl, fun _ => silent⟩⟩

theorem Follows.step (follows : rx.Follows settings line) (under : clock.Under settings)
    (allows : line.Allows settings rx.nRxValid clock) :
    (rx.step clock).Follows settings (line.step clock) := by
  have clear := under.nRxReset
  rcases line_moves line clock with ⟨enough, next⟩ | ⟨grows, size, time, ends⟩
  · exact follows.opens under allows enough next
  constructor
  case detects => exact follows.detects.step clear allows
  case slots =>
    rw [time]
    exact follows.slots_step clear allows size
  case bytes =>
    rw [time]
    exact follows.bytes_step clear grows (follows.new_byte clear allows)
  case compares =>
    rw [time]
    exact follows.compares_step under grows
  case screens =>
    intro on
    rw [time]
    exact follows.screens_step clear allows grows on
  case guards =>
    rw [time]
    exact follows.guards_step clear allows
  case ended =>
    intro since
    obtain ⟨same, silent⟩ := ends since
    rw [same]
    exact follows.ended_step clear allows since silent
  case configured => exact follows.configured.step under

/-! ### Runs -/

theorem Idle.follows (idle : rx.Idle settings) :
    rx.Follows settings Line.start := by
  have quiet := idle.quiet
  have noWr : rx.wr.oV = false := by rw [quiet.wr]; rfl
  refine ⟨?_, ?_, ?_, ?_, fun _ => ?_, ?_, fun _ => .inl (Nat.zero_le _), quiet.configured⟩
  · constructor <;> simp [Line.start, idle.pre.rInpkt, idle.pre.oV, idle.pre.nsyncs]
  · constructor <;> simp [idle.pre.oV, quiet.crc.buf0, quiet.crc.buf1, quiet.crc.buf2,
      quiet.crc.oV, quiet.mac.oV, noWr, quiet.lastRxwr]
  · constructor <;> simp [idle.pre.oV, quiet.crc.buf0, quiet.crc.buf1, quiet.crc.buf2, quiet.crc.oV]
  · constructor <;> simp [quiet.crc.oV]
  · constructor <;> simp [quiet.mac.oV, noWr, quiet.lastRxwr]
  · constructor <;> simp [noWr, quiet.lastRxwr]

theorem paced_split {first second : List RxClock}
    (paced : Paced settings line rx (first ++ second)) :
    Paced settings line rx first ∧
      Paced settings (clocked Line.step line first) (clocked Receiver.step rx first) second := by
  induction first generalizing line rx with
  | nil => exact ⟨trivial, paced⟩
  | cons clock rest ih =>
      obtain ⟨allows, later⟩ := paced
      obtain ⟨front, back⟩ := ih later
      exact ⟨⟨allows, front⟩, back⟩

theorem Follows.run {clocks : List RxClock} (follows : rx.Follows settings line)
    (under : ∀ clock ∈ clocks, clock.Under settings) (paced : Paced settings line rx clocks) :
    (clocked Receiver.step rx clocks).Follows settings (clocked Line.step line clocks) := by
  induction clocks generalizing rx line with
  | nil => exact follows
  | cons clock rest ih =>
      exact ih (follows.step (under clock (.head _)) paced.1)
        (fun later member => under later (.tail _ member)) paced.2

/-- A packet does not end while the buffer is taken. -/
theorem Follows.no_end (follows : rx.Follows settings line) (valid : rx.nRxValid = true) :
    rx.nEop = false := Bool.eq_false_iff.mpr fun ends => by
  simp only [nEop, Bool.and_eq_true, Bool.not_eq_true'] at ends
  have raised := follows.guards.last valid ends.1.2
  rw [ends.2] at raised
  cases raised

/-- The buffer, its length and the valid flag stand. -/
theorem Follows.holds (follows : rx.Follows settings line) (valid : rx.nRxValid = true)
    (kept : clock.nRxClear = false) :
    (rx.step clock).rxmem = rx.rxmem ∧ (rx.step clock).nRxLen = rx.nRxLen ∧
      (rx.step clock).nRxValid = true := by
  have open_ := follows.no_end valid
  refine ⟨?_, ?_, ?_⟩
  · simp [Receiver.step, valid]
  · simp [Receiver.step, kept, open_]
  · simp [Receiver.step, kept, open_, valid]

theorem Follows.holds_run {clocks : List RxClock} (follows : rx.Follows settings line)
    (under : ∀ clock ∈ clocks, clock.Under settings) (paced : Paced settings line rx clocks)
    (valid : rx.nRxValid = true) (kept : ∀ clock ∈ clocks, clock.nRxClear = false) :
    (clocked Receiver.step rx clocks).rxmem = rx.rxmem ∧
      (clocked Receiver.step rx clocks).nRxLen = rx.nRxLen := by
  induction clocks generalizing rx line with
  | nil => exact ⟨rfl, rfl⟩
  | cons clock rest ih =>
      obtain ⟨memory, length, still⟩ := follows.holds valid (kept clock (.head _))
      obtain ⟨memoryLater, lengthLater⟩ := ih (follows.step (under clock (.head _)) paced.1)
        (fun later member => under later (.tail _ member)) paced.2 still
        (fun later member => kept later (.tail _ member))
      exact ⟨memoryLater.trans memory, lengthLater.trans length⟩

/-- The software owns a packet from the clock it is valid to the clock it clears
it, and with the filter on no packet for another station becomes valid. -/
def Owned (settings : Settings) (rx : Receiver aw) (clocks : List RxClock) : Prop :=
  (∀ before during after, clocks = before ++ (during ++ after) →
    (clocked Receiver.step rx before).nRxValid = true →
    (∀ clock ∈ during, clock.nRxClear = false) →
    (clocked Receiver.step rx (before ++ during)).rxmem = (clocked Receiver.step rx before).rxmem ∧
      (clocked Receiver.step rx (before ++ during)).nRxLen =
        (clocked Receiver.step rx before).nRxLen) ∧
  (settings.hwMacOn = true → ∀ before clock after, clocks = before ++ clock :: after →
    (clocked Receiver.step rx before).nRxValid = false →
    ((clocked Receiver.step rx before).step clock).nRxValid = true →
    RxeHwMac.Accepts settings.hwMac (clocked Line.step Line.start before).frame)

end Receiver

open Receiver

/-- Where no frame that is to be refused ends before the checks can do so, and none
follows after a single clock, the software owns the packets it is handed. -/
theorem receive_buffer_owned {aw : Nat} {settings : Settings} {rx : Receiver aw}
    (idle : rx.Idle settings) {clocks : List RxClock}
    (under : ∀ clock ∈ clocks, clock.Under settings)
    (paced : Paced settings Line.start rx clocks) : rx.Owned settings clocks := by
  constructor
  · rintro before during after rfl valid kept
    obtain ⟨pacedBefore, pacedLater⟩ := paced_split paced
    have follows := idle.follows.run
      (fun clock member => under clock (by simp [member])) pacedBefore
    rw [clocked_append]
    exact follows.holds_run (fun clock member => under clock (by simp [member]))
      (paced_split pacedLater).1 valid kept
  · rintro on before clock after rfl free valid
    have follows := idle.follows.run
      (fun clock member => under clock (by simp [member])) (paced_split paced).1
    rcases nRxValid_step valid with taken | ends
    · rw [free] at taken
      cases taken
    · by_contra refused
      simp only [nEop, Bool.and_eq_true, Bool.not_eq_true'] at ends
      have raised := (follows.screens on).last ends.1.2 refused
      rw [ends.2] at raised
      cases raised

/-- A packet of twenty bytes and, while it is held, one of the given length. -/
def twoPackets (second : Nat) : List RxClock :=
  (wirePreamble ++ wire (List.replicate 20 0x11)) ++
    ((wirePreamble ++ wire (List.replicate second 0x22)) ++ [])

theorem twoPackets_under (second : Nat) :
    ∀ clock ∈ twoPackets second, clock.Under promiscuous := by
  intro clock member
  simp only [twoPackets, List.append_nil] at member
  rcases List.mem_append.mp member with first | later
  · exact wire_under _ clock first
  · exact wire_under _ clock later

instance decidablePaced {aw : Nat} (settings : Settings) :
    (line : Line) → (rx : Receiver aw) → (clocks : List RxClock) →
      Decidable (Paced settings line rx clocks)
  | _, _, [] => isTrue trivial
  | line, rx, clock :: rest =>
      @instDecidableAnd _ _ _ (decidablePaced settings (line.step clock) (rx.step clock) rest)

/-- A runt of four bytes that comes first does no harm. -/
def runtFirst : List RxClock := (wirePreamble ++ wire (List.replicate 4 0x33)) ++ twoPackets 9

theorem runtFirst_under : ∀ clock ∈ runtFirst, clock.Under promiscuous := by
  intro clock member
  rcases List.mem_append.mp member with first | later
  · exact wire_under _ clock first
  · exact twoPackets_under 9 clock later

theorem packets_owned : (freshReceiver 9).Owned promiscuous runtFirst :=
  receive_buffer_owned (freshReceiver_idle 9) runtFirst_under (by decide)

/-- A runt of four bytes that comes while a packet is held takes its length
away. -/
theorem runt_takes_length : ¬ ∀ (aw : Nat) (settings : Settings) (rx : Receiver aw)
    (clocks : List RxClock), rx.Idle settings →
    (∀ clock ∈ clocks, clock.Under settings) → rx.Owned settings clocks := by
  intro always
  have owned := (always 9 promiscuous (freshReceiver 9) (twoPackets 4) (freshReceiver_idle 9)
    (twoPackets_under 4)).1 _ _ _ rfl (by decide +kernel) (by decide)
  exact absurd owned.2 (by decide +kernel)

end ZipVersa.Enet
