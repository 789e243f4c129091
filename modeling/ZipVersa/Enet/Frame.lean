import ZipVersa.Enet.Stages

/-! A frame through the whole receiver. Each filter is a few clocks behind the
one before it, so the state of all of them is known from the frame and from the
number of clocks since its first byte, until one of the checks notices an error
and everything is reset for as long as the line carries data. -/

set_option autoImplicit false

namespace ZipVersa.Enet

open Lib

/-- A stage `delay` clocks down the line. -/
structure Delayed (Rests : Prop) (Through : Nat → Prop) (delay taken : Nat) : Prop where
  before : taken ≤ delay → Rests
  after : delay ≤ taken → Through (taken - delay)

theorem Delayed.step {Rests RestsNext : Prop} {Through ThroughNext : Nat → Prop}
    {delay taken : Nat} (delayed : Delayed Rests Through delay taken)
    (idle : taken < delay → Rests → RestsNext) (start : RestsNext → ThroughNext 0)
    (on : delay ≤ taken → Through (taken - delay) → ThroughNext (taken - delay + 1)) :
    Delayed RestsNext ThroughNext delay (taken + 1) where
  before early := idle (by omega) (delayed.before (by omega))
  after late := by
    by_cases begun : delay ≤ taken
    · rw [show taken + 1 - delay = taken - delay + 1 by omega]
      exact on begun (delayed.after begun)
    · rw [show taken + 1 - delay = 0 by omega]
      exact start (idle (by omega) (delayed.before (by omega)))

theorem Delayed.start {Rests : Prop} {Through : Nat → Prop} {delay : Nat} (rests : Rests)
    (start : Through 0) : Delayed Rests Through delay 0 where
  before _ := rests
  after late := by
    rw [Nat.zero_sub]
    exact start

/-- What the receiver is set up for. -/
structure Settings where
  hwMac : BitVec 48
  hwMacOn : Bool
  hwCrcOn : Bool
  ipCheckOn : Bool
  deriving DecidableEq, Repr

/-- A clock without reset and with these settings. -/
structure RxClock.Under (settings : Settings) (clock : RxClock) : Prop where
  nRxReset : clock.nRxReset = false
  hwMac : clock.hwMac = settings.hwMac
  configHwMac : clock.configHwMac = settings.hwMacOn
  configHwCrc : clock.configHwCrc = settings.hwCrcOn
  configHwIpCheck : clock.configHwIpCheck = settings.ipCheckOn

namespace Settings

/-- The bytes of a frame that reach the receive memory. -/
def stored (settings : Settings) (frame : List Byte) : List Byte :=
  RxeHwMac.strip settings.hwMacOn (RxeCrc.keeps frame)

theorem stored_length (settings : Settings) (frame : List Byte) :
    (settings.stored frame).length = RxeCrc.kept frame - RxeHwMac.stripped settings.hwMacOn := by
  rw [stored, RxeHwMac.strip_length, RxeCrc.keeps_length]

/-- The clocks from a byte on the line to its place in `rxewrite`. -/
def delay (settings : Settings) : Nat := 6 + RxeHwMac.stripped settings.hwMacOn

/-- An error wire of one of the checks is high: of the MAC filter and the IP
check while bytes of the frame pass them, of the CRC check from its verdict
until the last byte has left it. -/
def Shows (settings : Settings) (frame : List Byte) (taken : Nat) : Prop :=
  (settings.hwMacOn = true ∧ 12 ≤ taken ∧ taken ≤ RxeCrc.kept frame + 5 ∧
      ¬ RxeHwMac.Accepts settings.hwMac (RxeCrc.keeps frame)) ∨
    (settings.ipCheckOn = true ∧ 5 ≤ taken ∧ taken ≤ RxeCrc.kept frame + 5 ∧
      RxeIpChk.ErrorBy (RxeCrc.keeps frame) (taken - 5)) ∨
    (settings.hwCrcOn = true ∧ frame.length + 2 ≤ taken ∧ taken ≤ RxeCrc.kept frame + 5 ∧
      RxeCrc.Unmatched frame)

/-- The checks show an error at a clock of the frame. -/
def Notices (settings : Settings) (frame : List Byte) (taken : Nat) : Prop :=
  settings.hwMacOn = true ∧ 12 ≤ taken ∧
      ¬ RxeHwMac.Accepts settings.hwMac (RxeCrc.keeps frame) ∨
    settings.ipCheckOn = true ∧ 5 ≤ taken ∧ RxeIpChk.ErrorBy (RxeCrc.keeps frame) (taken - 5)

end Settings

namespace Receiver

variable {aw : Nat}

structure Configured (settings : Settings) (rx : Receiver aw) : Prop where
  nRxConfigHwMac : rx.nRxConfigHwMac = settings.hwMacOn
  nRxConfigHwCrc : rx.nRxConfigHwCrc = settings.hwCrcOn
  nRxConfigIpCheck : rx.nRxConfigIpCheck = settings.ipCheckOn

/-- Nothing is under way behind the preamble detector. -/
structure Quiet (settings : Settings) (rx : Receiver aw) : Prop where
  crc : rx.crc.Resting
  mac : rx.mac.Resting settings.hwMac
  ip : rx.ip.Resting
  wr : rx.wr = RxeWrite.init
  lastRxwr : rx.lastRxwr = false
  configured : rx.Configured settings

/-- The filters when the first byte of the frame was on the line `taken` clocks
ago. -/
structure Carrying (settings : Settings) (frame : List Byte) (taken : Nat) (rx : Receiver aw) :
    Prop where
  pre : rx.pre.Through frame taken
  crc : Delayed rx.crc.Resting (rx.crc.Through settings.hwCrcOn frame) 1 taken
  mac : Delayed (rx.mac.Resting settings.hwMac)
    (rx.mac.Through settings.hwMacOn settings.hwMac (RxeCrc.keeps frame)) 5 taken
  ip : Delayed rx.ip.Resting (rx.ip.Through settings.ipCheckOn (RxeCrc.keeps frame)) 5 taken
  wr : Delayed (rx.wr = RxeWrite.init) (rx.wr.Through (settings.stored frame)) settings.delay taken
  lastRxwr : rx.lastRxwr = true ↔
    settings.delay + 2 ≤ taken ∧ taken ≤ settings.delay + 1 + (settings.stored frame).length
  configured : rx.Configured settings

variable {settings : Settings} {frame : List Byte} {taken : Nat} {rx : Receiver aw}
  {clock : RxClock}

theorem Quiet.carrying (quiet : rx.Quiet settings) (inPacket : rx.pre.rInpkt = true)
    (silent : rx.pre.oV = false) (frame : List Byte) : rx.Carrying settings frame 0 where
  pre := ⟨fun _ => ⟨inPacket, by simp [silent], fun begun => absurd begun (by decide)⟩,
    fun late => absurd late (by omega)⟩
  crc := .start quiet.crc (quiet.crc.through _ _)
  mac := .start quiet.mac (quiet.mac.through _ _)
  ip := .start quiet.ip (quiet.ip.through _ _)
  wr := .start quiet.wr (by rw [quiet.wr]; exact .start _)
  lastRxwr := by
    rw [quiet.lastRxwr]
    simp
  configured := quiet.configured

theorem Configured.step (configured : rx.Configured settings) (under : clock.Under settings) :
    (rx.step clock).Configured settings := by
  constructor
  · simp [Receiver.step, under.configHwMac, configured.nRxConfigHwMac]
  · simp [Receiver.step, under.configHwCrc, configured.nRxConfigHwCrc]
  · simp [Receiver.step, under.configHwIpCheck, configured.nRxConfigIpCheck]

/-- Nothing comes out of a filter before its time. -/
theorem Carrying.pre_before (carrying : rx.Carrying settings frame taken) (early : taken < 1) :
    rx.pre.oV = false := Bool.eq_false_iff.mpr fun shown => by
  have when := (carrying.pre.during (by omega)).oV.mp shown
  omega

theorem Carrying.crc_before (carrying : rx.Carrying settings frame taken) (early : taken < 5) :
    rx.crc.oV = false := by
  by_cases begun : 1 ≤ taken
  · exact Bool.eq_false_iff.mpr fun shown => by
      have when := ((carrying.crc.after begun).during (by omega)).oV.mp shown
      omega
  · exact (carrying.crc.before (by omega)).oV

theorem Carrying.mac_before (carrying : rx.Carrying settings frame taken)
    (early : taken < settings.delay) : rx.mac.oV = false := by
  unfold Settings.delay at early
  by_cases begun : 5 ≤ taken
  · exact Bool.eq_false_iff.mpr fun shown => by
      have when := (carrying.mac.after begun).oV.mp shown
      omega
  · exact (carrying.mac.before (by omega)).oV

theorem Carrying.wr_oV (carrying : rx.Carrying settings frame taken) :
    rx.wr.oV = true ↔
      settings.delay < taken ∧ taken ≤ settings.delay + (settings.stored frame).length := by
  by_cases begun : settings.delay ≤ taken
  · rw [(carrying.wr.after begun).oV]
    omega
  · rw [carrying.wr.before (by omega)]
    simp [RxeWrite.init]
    omega

/-- A clock of the frame without reset. -/
theorem Carrying.step (carrying : rx.Carrying settings frame taken)
    (under : clock.Under settings) (some : 0 < frame.length)
    (brings : Brings frame taken clock.iNetRxDv clock.iNetRxd) (sound : rx.nRxNetErr = false) :
    (rx.step clock).Carrying settings frame (taken + 1) := by
  have configured := carrying.configured
  constructor
  case pre =>
    simp only [Receiver.step, under.nRxReset, sound, Bool.or_false]
    exact carrying.pre.step brings some
  case crc =>
    simp only [Receiver.step, under.nRxReset, sound, Bool.or_false, configured.nRxConfigHwCrc]
    refine carrying.crc.step (fun early resting => ?_) (fun resting => resting.through _ _)
      (fun begun through => ?_)
    · rw [carrying.pre_before early]
      exact resting.idle ..
    · exact through.step (carrying.pre.offers begun)
  case mac =>
    simp only [Receiver.step, under.nRxReset, sound, Bool.or_false, configured.nRxConfigHwMac,
      under.hwMac]
    refine carrying.mac.step (fun early resting => ?_) (fun resting => resting.through _ _)
      (fun begun through => ?_)
    · rw [carrying.crc_before early]
      exact resting.idle ..
    · have offered := (carrying.crc.after (by omega)).offers (by omega)
      rw [show taken - 1 - 4 = taken - 5 by omega] at offered
      exact through.step offered
  case ip =>
    simp only [Receiver.step, under.nRxReset, sound, Bool.or_false, configured.nRxConfigIpCheck]
    refine carrying.ip.step (fun early resting => ?_) (fun resting => resting.through _ _)
      (fun begun through => ?_)
    · exact .gap (.inr ⟨rfl, carrying.crc_before early⟩)
    · have offered := (carrying.crc.after (by omega)).offers (by omega)
      rw [show taken - 1 - 4 = taken - 5 by omega] at offered
      exact through.step offered
  case wr =>
    simp only [Receiver.step, under.nRxReset, sound, Bool.or_false]
    refine carrying.wr.step (fun early resting => ?_) (fun resting => ?_)
      (fun begun through => ?_)
    · rw [carrying.mac_before early, resting]
      rfl
    · rw [resting]
      exact .start _
    · have late : 6 + RxeHwMac.stripped settings.hwMacOn ≤ taken := begun
      have offered := (carrying.mac.after (by omega)).offers (by omega)
      rw [show taken - 5 - 1 - RxeHwMac.stripped settings.hwMacOn = taken - settings.delay by
        unfold Settings.delay; omega] at offered
      exact through.step offered
  case lastRxwr =>
    have shown := carrying.wr_oV
    simp only [Receiver.step, shown]
    omega
  case configured => exact configured.step under

/-- What the error register takes up when the buffer is free. -/
theorem Carrying.nRxNetErr_iff (carrying : rx.Carrying settings frame taken)
    (sound : rx.nRxNetErr = false) (free : rx.nRxValid = false) :
    (rx.step clock).nRxNetErr = true ↔
      clock.iNetRxDv = true ∧ settings.Shows frame taken := by
  have keeps := RxeCrc.keeps_length frame
  simp only [Receiver.step, sound, free, wMinerr, Bool.and_false, Bool.or_false, Bool.false_or,
    Bool.and_eq_true, Bool.or_eq_true]
  refine and_congr_right fun _ => ?_
  have macError : rx.mac.oErr = true ↔ settings.hwMacOn = true ∧ 12 ≤ taken ∧
      taken ≤ RxeCrc.kept frame + 5 ∧
      ¬ RxeHwMac.Accepts settings.hwMac (RxeCrc.keeps frame) := by
    by_cases begun : 5 ≤ taken
    · rw [(carrying.mac.after begun).oErr, keeps]
      refine and_congr_right fun _ => ?_
      constructor
      · rintro ⟨late, inside, refused⟩
        exact ⟨by omega, by omega, refused⟩
      · rintro ⟨late, inside, refused⟩
        exact ⟨by omega, by omega, refused⟩
    · rw [(carrying.mac.before (by omega)).oErr]
      simp
      omega
  have ipError : rx.ip.oErr = true ↔ settings.ipCheckOn = true ∧ 5 ≤ taken ∧
      taken ≤ RxeCrc.kept frame + 5 ∧
      RxeIpChk.ErrorBy (RxeCrc.keeps frame) (taken - 5) := by
    by_cases begun : 5 ≤ taken
    · rw [(carrying.ip.after begun).oErr, keeps]
      refine and_congr_right fun _ => ?_
      exact ⟨fun known => ⟨begun, by omega, known.2⟩, fun known => ⟨by omega, known.2.2⟩⟩
    · rw [(carrying.ip.before (by omega)).oErr]
      simp
      omega
  have crcError : rx.crc.rErr = true ↔ settings.hwCrcOn = true ∧ frame.length + 2 ≤ taken ∧
      taken ≤ RxeCrc.kept frame + 5 ∧ RxeCrc.Unmatched frame := by
    by_cases begun : 1 ≤ taken
    · rw [(carrying.crc.after begun).rErr]
      constructor
      · rintro ⟨late, inside, enabled, unmatched⟩
        exact ⟨enabled, by omega, by omega, unmatched⟩
      · rintro ⟨enabled, late, inside, unmatched⟩
        exact ⟨by omega, by omega, enabled, unmatched⟩
    · rw [(carrying.crc.before (by omega)).rErr]
      simp
      omega
  rw [macError, ipError, crcError, Settings.Shows, or_assoc,
    or_comm (b := settings.ipCheckOn = true ∧ _)]

/-- While the frame is on the line its CRC has not been judged. -/
theorem shows_iff (inside : taken < frame.length) :
    settings.Shows frame taken ↔ settings.Notices frame taken := by
  have length := RxeCrc.le_kept frame
  have early : ¬ frame.length + 2 ≤ taken := by omega
  have within : taken ≤ RxeCrc.kept frame + 5 := by omega
  simp only [Settings.Shows, Settings.Notices, early, within, true_and, false_and, and_false,
    or_false]

theorem Carrying.nRxNetErr_step (carrying : rx.Carrying settings frame taken)
    (offers : Offers frame taken clock.iNetRxDv clock.iNetRxd) (sound : rx.nRxNetErr = false)
    (free : rx.nRxValid = false) :
    (rx.step clock).nRxNetErr = true ↔ taken < frame.length ∧ settings.Notices frame taken := by
  rw [carrying.nRxNetErr_iff sound free, offers.valid]
  exact and_congr_right shows_iff

/-- The end of the packet comes one clock after its last byte is written. -/
theorem Carrying.nEop_iff (carrying : rx.Carrying settings frame taken)
    (sound : rx.nRxNetErr = false) :
    rx.nEop = true ↔ 0 < (settings.stored frame).length ∧
      taken = settings.delay + 1 + (settings.stored frame).length := by
  have last := carrying.lastRxwr
  have shown := carrying.wr_oV
  simp only [nEop, sound, Bool.not_false, Bool.and_true, Bool.and_eq_true, Bool.not_eq_true',
    ← Bool.not_eq_true, last, shown]
  omega

/-- The places in the receive buffer that are given a new byte at a clock. -/
def stores (rx : Receiver aw) (_ : RxClock) : List (BitVec (aw + 2)) :=
  if rx.wr.oV && !rx.nRxValid then [(rx.wr.lclAddr - 1).setWidth (aw + 2)] else []

/-- Places in the buffer in the order of the bytes. -/
def places (aw count : Nat) : List (BitVec (aw + 2)) :=
  (List.range count).map (BitVec.ofNat (aw + 2))

/-- The bytes a frame has stored `taken` clocks after its first byte. -/
def written (settings : Settings) (frame : List Byte) (taken : Nat) : Nat :=
  min (taken - (settings.delay + 1)) (settings.stored frame).length

/-- The write circuit while it writes. -/
theorem Carrying.writing (carrying : rx.Carrying settings frame taken)
    (writes : rx.wr.oV = true) :
    RxeWrite.After (settings.stored frame) (taken - settings.delay) rx.wr := by
  have when := carrying.wr_oV.mp writes
  have some : settings.stored frame ≠ [] := fun none => by
    rw [none] at when
    simp only [List.length_nil] at when
    omega
  exact (carrying.wr.after (by omega)).during (by omega) some

theorem Carrying.place_eq (carrying : rx.Carrying settings frame taken)
    (writes : rx.wr.oV = true) :
    (rx.wr.lclAddr - 1).setWidth (aw + 2) =
      BitVec.ofNat (aw + 2) (taken - (settings.delay + 1)) := by
  have when := carrying.wr_oV.mp writes
  have back : BitVec.ofNat (aw + 3) (taken - settings.delay) - 1 =
      BitVec.ofNat (aw + 3) (taken - (settings.delay + 1)) := by
    rw [show taken - settings.delay = taken - (settings.delay + 1) + 1 by omega,
      BitVec.ofNat_add]
    exact BitVec.add_sub_cancel _ _
  rw [(carrying.writing writes).lclAddr, back]
  exact BitVec.setWidth_ofNat_of_le (by omega) _

/-- A place that is given a byte lies in the word of `rxmem` that is written, and
the byte is the next of the frame. -/
theorem Carrying.store_writes (carrying : rx.Carrying settings frame taken)
    {place : BitVec (aw + 2)} (given : place ∈ rx.stores clock) :
    (rx.step clock).rxmem = Function.update rx.rxmem (place.extractLsb' 2 aw) rx.wr.oData ∧
      RxeWrite.byteOf rx.wr.oData (place.setWidth 2).toNat =
        (settings.stored frame).getD (taken - (settings.delay + 1)) 0 := by
  unfold stores at given
  split at given
  next writes =>
    have shown : rx.wr.oV = true := (Bool.and_eq_true_iff.mp writes).1
    have when := carrying.wr_oV.mp shown
    have circuit := carrying.writing shown
    have address := circuit.oAddr (by omega) (by omega)
    have fills := circuit.oData (by omega) (by omega)
    rw [show taken - settings.delay - 1 = taken - (settings.delay + 1) by omega] at address
    rw [List.mem_singleton.mp given, carrying.place_eq shown]
    constructor
    · rw [RxeWrite.extract_ofNat (by omega), ← address]
      simp only [Receiver.step, writes, if_true]
    · have low : ((BitVec.ofNat (aw + 2) (taken - (settings.delay + 1))).setWidth 2).toNat =
          (taken - (settings.delay + 1)) % 4 := by
        rw [BitVec.setWidth_ofNat_of_le (by omega), BitVec.toNat_ofNat]
      rw [low, fills _ (Nat.mod_lt _ (by decide)), if_pos (by omega)]
      congr 1
      omega
  next => cases given

theorem Carrying.stores_eq (carrying : rx.Carrying settings frame taken)
    (free : rx.nRxValid = false) :
    places aw (written settings frame taken) ++ rx.stores clock =
      places aw (written settings frame (taken + 1)) := by
  have shown := carrying.wr_oV
  unfold stores
  rw [free, Bool.not_false, Bool.and_true]
  by_cases writes : rx.wr.oV = true
  · have when := shown.mp writes
    rw [if_pos writes, carrying.place_eq writes,
      show written settings frame taken = taken - (settings.delay + 1) by
        unfold written; omega,
      show written settings frame (taken + 1) = taken - (settings.delay + 1) + 1 by
        unfold written; omega,
      places, places, List.range_succ, List.map_append, List.map_singleton]
  · have when := mt shown.mpr writes
    rw [if_neg writes, List.append_nil, show written settings frame (taken + 1) =
      written settings frame taken by unfold written; omega]

/-- The clocks bring a frame, from its byte number `taken` on, and then nothing. -/
def OnLine (frame : List Byte) : Nat → List RxClock → Prop
  | _, [] => True
  | taken, clock :: rest =>
      Offers frame taken clock.iNetRxDv clock.iNetRxd ∧ OnLine frame (taken + 1) rest

/-- A frame comes in, no error has been noticed, and the buffer is free. -/
structure Running (settings : Settings) (frame : List Byte) (taken : Nat) (rx : Receiver aw) :
    Prop where
  carrying : rx.Carrying settings frame taken
  sound : rx.nRxNetErr = false
  free : rx.nRxValid = false

theorem Running.step (running : rx.Running settings frame taken) (under : clock.Under settings)
    (some : 0 < frame.length) (offers : Offers frame taken clock.iNetRxDv clock.iNetRxd)
    (unnoticed : taken < frame.length → ¬ settings.Notices frame taken)
    (notYet : clock.nRxClear = true ∨ settings.stored frame = [] ∨
      taken ≠ settings.delay + 1 + (settings.stored frame).length) :
    (rx.step clock).Running settings frame (taken + 1) := by
  refine ⟨running.carrying.step under some offers.brings running.sound, ?_, ?_⟩
  · refine Bool.eq_false_iff.mpr fun raised => ?_
    have noticed := (running.carrying.nRxNetErr_step offers running.sound running.free).mp raised
    exact unnoticed noticed.1 noticed.2
  · rcases notYet with cleared | other
    · simp [Receiver.step, cleared]
    · have on : rx.nEop = false := Bool.eq_false_iff.mpr fun ends => by
        obtain ⟨stored, when⟩ := (running.carrying.nEop_iff running.sound).mp ends
        rcases other with none | apart
        · rw [none] at stored
          exact absurd stored (by decide)
        · exact apart when
      simp [Receiver.step, on, running.free]

/-- The run of a frame for as long as no error is noticed, up to the end of the
packet or from there on. -/
theorem Running.run {clocks : List RxClock} (running : rx.Running settings frame taken)
    (under : ∀ clock ∈ clocks, clock.Under settings) (some : 0 < frame.length)
    (line : OnLine frame taken clocks)
    (unnoticed : ∀ later < taken + clocks.length, later < frame.length →
      ¬ settings.Notices frame later)
    (within : settings.stored frame = [] ∨
      taken + clocks.length ≤ settings.delay + 1 + (settings.stored frame).length ∨
      settings.delay + 1 + (settings.stored frame).length < taken) :
    (clocked Receiver.step rx clocks).Running settings frame (taken + clocks.length) ∧
      places aw (written settings frame taken) ++ observed Receiver.step stores rx clocks =
        places aw (written settings frame (taken + clocks.length)) ∧
      ∀ shown ∈ observed Receiver.step (fun rx _ => [rx.nRxValid]) rx clocks, shown = false := by
  induction clocks generalizing rx taken with
  | nil =>
      refine ⟨running, List.append_nil _, ?_⟩
      intro shown member
      cases member
  | cons clock rest ih =>
      obtain ⟨offers, online⟩ := line
      simp only [List.length_cons] at unnoticed within
      have next := running.step (under clock (.head _)) some offers
        (unnoticed taken (by omega)) (.inr (within.imp_right fun bound => by omega))
      obtain ⟨later, stored, valid⟩ := ih next (fun other member => under other (.tail _ member))
        online (fun other below => unnoticed other (by omega))
        (within.imp_right fun bound => by omega)
      simp only [clocked_cons, observed, List.length_cons]
      rw [show taken + (rest.length + 1) = taken + 1 + rest.length by omega]
      refine ⟨later, ?_, ?_⟩
      · rw [← List.append_assoc, running.carrying.stores_eq running.free, stored]
      · intro shown member
        rcases List.mem_append.mp member with here | there
        · rw [List.mem_singleton.mp here, running.free]
        · exact valid shown there

/-- Nothing is under way at all. -/
structure Idle (settings : Settings) (rx : Receiver aw) : Prop where
  pre : rx.pre.Resting
  quiet : rx.Quiet settings

/-- Nothing reaches the filters while the preamble detector hands nothing on. -/
theorem Quiet.step (quiet : rx.Quiet settings) (silent : rx.pre.oV = false)
    (under : clock.Under settings) (sound : rx.nRxNetErr = false) :
    (rx.step clock).Quiet settings ∧ (rx.step clock).nRxNetErr = false := by
  refine ⟨⟨?_, ?_, ?_, ?_, ?_, quiet.configured.step under⟩, ?_⟩
  · simp only [Receiver.step, under.nRxReset, sound, silent, Bool.or_false]
    exact quiet.crc.idle ..
  · simp only [Receiver.step, under.nRxReset, sound, quiet.crc.oV, Bool.or_false, under.hwMac]
    exact quiet.mac.idle ..
  · exact .gap (.inr ⟨rfl, quiet.crc.oV⟩)
  · simp only [Receiver.step, under.nRxReset, sound, quiet.mac.oV, quiet.wr, Bool.or_false]
    rfl
  · simp only [Receiver.step, quiet.wr]
    rfl
  · simp [Receiver.step, quiet.mac.oErr, quiet.crc.rErr, quiet.ip.oErr, quiet.wr, sound, wMinerr,
      RxeWrite.init]

theorem Quiet.nEop (quiet : rx.Quiet settings) : rx.nEop = false := by
  simp [Receiver.nEop, quiet.lastRxwr]

theorem Quiet.stores (quiet : rx.Quiet settings) : rx.stores clock = [] := by
  simp [Receiver.stores, quiet.wr, RxeWrite.init]

theorem Idle.silent (idle : rx.Idle settings) (under : clock.Under settings)
    (sound : rx.nRxNetErr = false) (silent : clock.iNetRxDv = false) :
    (rx.step clock).Idle settings := by
  refine ⟨?_, (idle.quiet.step idle.pre.oV under sound).1⟩
  simp only [Receiver.step, under.nRxReset, sound, silent, Bool.or_false]
  exact idle.pre.idle _

/-- While the error register is set every filter is held in reset. -/
theorem reset_step (refused : rx.nRxNetErr = true) (configured : rx.Configured settings)
    (under : clock.Under settings) (written : rx.wr.oV = false) : (rx.step clock).Idle settings := by
  refine ⟨?_, ?_, ?_, ?_, ?_, ?_, configured.step under⟩
  · simp only [Receiver.step, refused, Bool.or_true]
    exact .reset ..
  · simp only [Receiver.step, refused, Bool.or_true]
    exact .reset ..
  · simp only [Receiver.step, refused, Bool.or_true, under.hwMac]
    exact .reset ..
  · exact .gap (.inl (by simp [refused]))
  · simp [Receiver.step, refused, RxeWrite.step]
  · simp only [Receiver.step, written]

theorem OnLine.split {first second : List RxClock}
    (line : OnLine frame taken (first ++ second)) :
    OnLine frame taken first ∧ OnLine frame (taken + first.length) second := by
  induction first generalizing taken with
  | nil => exact ⟨trivial, line⟩
  | cons clock rest ih =>
      obtain ⟨offers, online⟩ := line
      obtain ⟨front, back⟩ := ih online
      rw [List.length_cons, show taken + (rest.length + 1) = taken + 1 + rest.length by omega]
      exact ⟨⟨offers, front⟩, back⟩

theorem reset_wr (refused : rx.nRxNetErr = true) : (rx.step clock).wr.oV = false := by
  simp [Receiver.step, refused, RxeWrite.step, RxeWrite.init]

theorem refused_valid (refused : rx.nRxNetErr = true) (free : rx.nRxValid = false) :
    (rx.step clock).nRxValid = false := by
  simp [Receiver.step, nEop, refused, free]

theorem refused_held (refused : rx.nRxNetErr = true) :
    (rx.step clock).nRxNetErr = clock.iNetRxDv := by
  simp [Receiver.step, refused]

/-- A frame that is dropped: the error register is set for as long as it is on
the line. -/
structure Dropped (settings : Settings) (frame : List Byte) (taken : Nat) (rx : Receiver aw) :
    Prop where
  idle : rx.Idle settings
  refused : rx.nRxNetErr = true ∨ rx.nRxNetErr = false ∧ frame.length ≤ taken
  free : rx.nRxValid = false

theorem Dropped.step (dropped : rx.Dropped settings frame taken) (under : clock.Under settings)
    (offers : Offers frame taken clock.iNetRxDv clock.iNetRxd) :
    (rx.step clock).Dropped settings frame (taken + 1) := by
  have idle := dropped.idle
  have free : (rx.step clock).nRxValid = false := by
    simp [Receiver.step, idle.quiet.nEop, dropped.free]
  rcases dropped.refused with refused | ⟨sound, past⟩
  · have written : rx.wr.oV = false := by rw [idle.quiet.wr]; rfl
    refine ⟨reset_step refused idle.quiet.configured under written, ?_, free⟩
    rw [refused_held refused]
    rcases offers.cases with ⟨-, valid, -⟩ | ⟨past, silent⟩
    · exact .inl valid
    · exact .inr ⟨silent, by omega⟩
  · have silent := offers.idle past
    refine ⟨idle.silent under sound silent, .inr ⟨?_, by omega⟩, free⟩
    simp [Receiver.step, silent]

theorem Dropped.run {clocks : List RxClock} (dropped : rx.Dropped settings frame taken)
    (under : ∀ clock ∈ clocks, clock.Under settings) (line : OnLine frame taken clocks) :
    observed Receiver.step stores rx clocks = [] ∧
      ∀ shown ∈ observed Receiver.step (fun rx _ => [rx.nRxValid]) rx clocks, shown = false := by
  induction clocks generalizing rx taken with
  | nil =>
      refine ⟨rfl, ?_⟩
      intro shown member
      cases member
  | cons clock rest ih =>
      obtain ⟨offers, online⟩ := line
      have next := dropped.step (under clock (.head _)) offers
      obtain ⟨stored, valid⟩ := ih next (fun other member => under other (.tail _ member)) online
      simp only [observed, dropped.idle.quiet.stores, List.nil_append]
      refine ⟨stored, ?_⟩
      intro shown member
      rcases List.mem_cons.mp member with here | there
      · rw [here, dropped.free]
      · exact valid shown there

/-- An error that is noticed while two more bytes of the frame are to come. -/
theorem Running.refused {first second : RxClock} (running : rx.Running settings frame taken)
    (some : 0 < frame.length) (notices : settings.Notices frame taken)
    (underFirst : first.Under settings) (underSecond : second.Under settings)
    (offersFirst : Offers frame taken first.iNetRxDv first.iNetRxd)
    (offersSecond : Offers frame (taken + 1) second.iNetRxDv second.iNetRxd)
    (inTime : taken + 1 < frame.length) :
    (rx.step first).Carrying settings frame (taken + 1) ∧ (rx.step first).nRxValid = false ∧
      ((rx.step first).step second).nRxNetErr = true ∧
      ((rx.step first).step second).wr.oV = false ∧
      ((rx.step first).step second).nRxValid = false ∧
      ((rx.step first).step second).Configured settings := by
  have carrying := running.carrying
  have raised : (rx.step first).nRxNetErr = true :=
    (carrying.nRxNetErr_step offersFirst running.sound running.free).mpr ⟨by omega, notices⟩
  have next := carrying.step underFirst some offersFirst.brings running.sound
  have open_ : rx.nEop = false := Bool.eq_false_iff.mpr fun ends => by
    obtain ⟨stored, when⟩ := (carrying.nEop_iff running.sound).mp ends
    have length := RxeCrc.le_kept frame
    have bytes := settings.stored_length frame
    unfold Settings.delay at when
    omega
  have free : (rx.step first).nRxValid = false := by
    simp [Receiver.step, open_, running.free]
  refine ⟨next, free, ?_, reset_wr raised, refused_valid raised free,
    next.configured.step underSecond⟩
  rw [refused_held raised]
  exact offersSecond.valid.mpr inTime

/-! ### The preamble -/

/-- At least seven bytes 0x55 and a start of frame 0xd5. -/
def Preamble (clocks : List RxClock) : Prop :=
  ∃ syncs, 7 ≤ syncs ∧ clocks.map (fun clock => (clock.iNetRxDv, clock.iNetRxd)) =
    List.replicate syncs (true, 0x55#8) ++ [(true, 0xd5#8)]

/-- The detector after some bytes 0x55. -/
structure Syncing (settings : Settings) (syncs : Nat) (rx : Receiver aw) : Prop where
  quiet : rx.Quiet settings
  sound : rx.nRxNetErr = false
  free : rx.nRxValid = false
  rInpkt : rx.pre.rInpkt = false
  oV : rx.pre.oV = false
  nsyncs : rx.pre.nsyncs.toNat = min syncs 15

variable {syncs : Nat}

theorem Syncing.sync (syncing : rx.Syncing settings syncs) (under : clock.Under settings)
    (valid : clock.iNetRxDv = true) (data : clock.iNetRxd = 0x55#8) :
    (rx.step clock).Syncing settings (syncs + 1) := by
  obtain ⟨quiet, sound⟩ := syncing.quiet.step syncing.oV under syncing.sound
  refine ⟨quiet, sound, ?_, ?_, ?_, ?_⟩
  · simp [Receiver.step, syncing.quiet.nEop, syncing.free]
  · simp [Receiver.step, RxePreambl.step, under.nRxReset, syncing.sound, syncing.rInpkt,
      syncing.oV, valid, data]
  · simp [Receiver.step, RxePreambl.step, under.nRxReset, syncing.sound, syncing.rInpkt,
      syncing.oV, valid]
  · simp only [Receiver.step, RxePreambl.step, under.nRxReset, syncing.sound, syncing.rInpkt,
      syncing.oV, valid, data, Bool.or_false, Bool.false_eq_true, if_false, if_true,
      Bool.not_true, Bool.not_false, Bool.and_true, beq_self_eq_true]
    exact RxePreambl.nsyncs_count syncing.nsyncs

theorem Syncing.opens (syncing : rx.Syncing settings syncs) (enough : 7 ≤ syncs)
    (under : clock.Under settings) (valid : clock.iNetRxDv = true)
    (data : clock.iNetRxd = 0xd5#8) (frame : List Byte) :
    (rx.step clock).Running settings frame 0 := by
  obtain ⟨quiet, sound⟩ := syncing.quiet.step syncing.oV under syncing.sound
  have counted : (6#4).ult rx.pre.nsyncs = true := by
    rw [BitVec.ult_iff_toNat_lt, syncing.nsyncs, show (6#4).toNat = 6 from rfl]
    omega
  refine ⟨quiet.carrying ?_ ?_ frame, sound, ?_⟩
  · simp [Receiver.step, RxePreambl.step, under.nRxReset, syncing.sound, syncing.rInpkt,
      syncing.oV, valid, data, counted]
  · simp [Receiver.step, RxePreambl.step, under.nRxReset, syncing.sound, syncing.rInpkt,
      syncing.oV, valid]
  · simp [Receiver.step, syncing.quiet.nEop, syncing.free]

theorem Syncing.run {clocks : List RxClock} (syncing : rx.Syncing settings syncs)
    (under : ∀ clock ∈ clocks, clock.Under settings) {more : Nat} (enough : 7 ≤ syncs + more)
    (samples : clocks.map (fun clock => (clock.iNetRxDv, clock.iNetRxd)) =
      List.replicate more (true, 0x55#8) ++ [(true, 0xd5#8)]) (frame : List Byte) :
    (clocked Receiver.step rx clocks).Running settings frame 0 ∧
      observed Receiver.step stores rx clocks = [] ∧
      ∀ shown ∈ observed Receiver.step (fun rx _ => [rx.nRxValid]) rx clocks, shown = false := by
  induction more generalizing clocks rx syncs with
  | zero =>
      obtain ⟨clock, rfl⟩ : ∃ clock, clocks = [clock] :=
        List.length_eq_one_iff.mp (by simpa using congrArg List.length samples)
      simp only [List.map_cons, List.map_nil, List.replicate_zero, List.nil_append,
        List.cons.injEq, Prod.mk.injEq, and_true] at samples
      refine ⟨syncing.opens enough (under clock (.head _)) samples.1 samples.2 frame, ?_, ?_⟩
      · simp [observed, syncing.quiet.stores]
      · simp [observed, syncing.free]
  | succ more ih =>
      cases clocks with
      | nil => simp [List.replicate_succ] at samples
      | cons clock rest =>
          simp only [List.map_cons, List.replicate_succ, List.cons_append, List.cons.injEq,
            Prod.mk.injEq] at samples
          obtain ⟨⟨valid, data⟩, later⟩ := samples
          obtain ⟨running, stored, shown⟩ := ih
            (syncing.sync (under clock (.head _)) valid data)
            (fun other member => under other (.tail _ member)) (by omega) later
          refine ⟨running, ?_, ?_⟩
          · simp only [observed, syncing.quiet.stores, List.nil_append]
            exact stored
          · intro value member
            rcases List.mem_append.mp member with here | there
            · rw [List.mem_singleton.mp here, syncing.free]
            · exact shown value there

end Receiver

end ZipVersa.Enet
