import Mathlib.Logic.Function.Iterate
import ZipVersa.Enet.Transmitter
import ZipVersa.Enet.Stages
import ZipVersa.Lib.Crc

/-! What each stage of the transmit path holds when it has taken the first
`time` enabled clocks of a packet: its bytes, one an enabled clock, and then
silence. Every stage hands on a packet of its own, one enabled clock later and
without a hole. -/

set_option autoImplicit false

namespace ZipVersa.Enet

open Lib

/-- A packet as it shows behind a register. -/
def shown (packet : List Byte) : Nat → Option Byte
  | 0 => none
  | time + 1 => packet[time]?

variable {packet : List Byte} {time : Nat} {iV : Bool} {iD : Byte}

theorem carried_eq_some {byte : Byte} (some : carried iV iD = some byte) :
    iV = true ∧ iD = byte := by
  cases iV with
  | false => cases some
  | true => exact ⟨rfl, Option.some.inj some⟩

theorem carried_eq_none (none : carried iV iD = none) : iV = false := by
  cases iV with
  | false => rfl
  | true => cases none

theorem carried_cases (input : carried iV iD = packet[time]?) :
    (∃ inside : time < packet.length, iV = true ∧ iD = packet[time]) ∨
      (packet.length ≤ time ∧ iV = false) := by
  by_cases inside : time < packet.length
  · rw [List.getElem?_eq_getElem inside] at input
    exact .inl ⟨inside, carried_eq_some input⟩
  · rw [List.getElem?_eq_none (by omega)] at input
    exact .inr ⟨by omega, carried_eq_none input⟩

theorem shown_some (first : 0 < time) (inside : time ≤ packet.length) :
    ∃ byte, shown packet time = some byte := by
  obtain ⟨before, rfl⟩ := Nat.exists_eq_succ_of_ne_zero (by omega : time ≠ 0)
  exact ⟨packet[before], List.getElem?_eq_getElem (by omega)⟩

theorem shown_none (past : packet.length < time) : shown packet time = none := by
  obtain ⟨before, rfl⟩ := Nat.exists_eq_succ_of_ne_zero (by omega : time ≠ 0)
  exact List.getElem?_eq_none (by omega)

/-- The output is up from the first byte to the last. -/
theorem output_up (output : carried iV iD = shown packet time) (first : 0 < time)
    (inside : time ≤ packet.length) : iV = true := by
  obtain ⟨byte, some⟩ := shown_some first inside
  exact (carried_eq_some (output.trans some)).1

/-- A packet offered to a stage, and silence for `gap` enabled clocks. -/
theorem offered_eq (packet : List Byte) (gap : Nat) :
    packet.map some ++ List.replicate gap none =
      (List.range' 0 (packet.length + gap)).map fun time => packet[time]? := by
  apply List.ext_getElem?
  intro index
  rw [List.getElem?_map]
  by_cases inside : index < packet.length
  · rw [List.getElem?_append_left (by simpa using inside), List.getElem?_map,
      List.getElem?_range' (by omega)]
    simp [inside]
  · rw [List.getElem?_append_right (by simpa using inside), List.length_map,
      List.getElem?_replicate]
    by_cases within : index < packet.length + gap
    · have left : index - packet.length < gap := by omega
      have silent : packet[index]? = none := List.getElem?_eq_none (by omega)
      rw [List.getElem?_range' within, if_pos left]
      simp [silent]
    · have beyond : ¬ index - packet.length < gap := by omega
      rw [List.getElem?_eq_none (by simp; omega), if_neg beyond]
      rfl

/-- A stage shows one silent clock, its packet, and silence. -/
theorem shown_eq {count : Nat} (enough : packet.length < count) :
    (List.range' 0 count).map (shown packet) =
      none :: packet.map some ++ List.replicate (count - packet.length - 1) none := by
  obtain ⟨rest, rfl⟩ := Nat.exists_eq_add_of_lt enough
  rw [List.range'_succ, List.map_cons, List.range'_succ_left, List.map_map, List.cons_append]
  have back : packet.length + rest + 1 - packet.length - 1 = rest := by omega
  rw [back, offered_eq]
  rfl

namespace AddEMac

/-! ### `addemac` -/

/-- The octets of the hardware address in the order they are sent. -/
def macByte (hw : BitVec 48) (index : Nat) : Byte := octet hw (5 - index)

/-- What is put in behind the sixth byte: the address is loaded afresh as soon as
the packet has ended, and from then on its first octet is all that comes. -/
def inserted (hw : BitVec 48) (length : Nat) : List Byte :=
  (List.range 6).map fun index => macByte hw (if 6 + index ≤ length then index else 0)

def sends (en : Bool) (hw : BitVec 48) (packet : List Byte) : List Byte :=
  if en then packet.take 6 ++ inserted hw packet.length ++ packet.drop 6 else packet

theorem sends_length (en : Bool) (hw : BitVec 48) (packet : List Byte) :
    (sends en hw packet).length = packet.length + if en then 6 else 0 := by
  cases en with
  | false => simp [sends]
  | true =>
      simp [sends, inserted]
      omega

theorem rotate_getLsbD (hw : BitVec 48) {place : Nat} (inside : place < 48) :
    (rotate hw).getLsbD place = hw.getLsbD ((place + 40) % 48) := by
  rw [rotate, BitVec.getLsbD_append]
  by_cases low : place < 8
  · have around : (place + 40) % 48 = 40 + place := by omega
    simp [low, around]
  · have around : (place + 40) % 48 = place - 8 := by omega
    have within : place - 8 < 40 := by omega
    simp [low, around, within]

theorem rotate_iterate_getLsbD (hw : BitVec 48) (time : Nat) {place : Nat} (inside : place < 48) :
    (rotate^[time] hw).getLsbD place = hw.getLsbD ((place + 40 * time) % 48) := by
  induction time generalizing place with
  | zero => rw [Nat.mul_zero, Nat.add_zero, Nat.mod_eq_of_lt inside, Function.iterate_zero, id]
  | succ time ih =>
      rw [Function.iterate_succ_apply', rotate_getLsbD _ inside, ih (Nat.mod_lt _ (by decide))]
      congr 1
      omega

/-- The octet sent at each place of the insertion. -/
theorem rotate_top (hw : BitVec 48) {index : Nat} (inside : index < 6) :
    (rotate^[6 + index] hw).extractLsb' 40 8 = macByte hw index := by
  apply BitVec.eq_of_getLsbD_eq
  intro place below
  have around : (40 + place + 40 * (6 + index)) % 48 = 8 * (5 - index) + place := by omega
  rw [BitVec.getLsbD_extractLsb', rotate_iterate_getLsbD _ _ (by omega), around]
  simp [macByte, octet, below]

theorem extract_macByte (hw : BitVec 48) : hw.extractLsb' 40 8 = macByte hw 0 := by
  apply BitVec.eq_of_getLsbD_eq
  intro place below
  simp [macByte, octet, below]

theorem inserted_getElem? (hw : BitVec 48) (length : Nat) {index : Nat} (inside : index < 6) :
    (inserted hw length)[index]? =
      some (macByte hw (if 6 + index ≤ length then index else 0)) := by
  rw [inserted, List.getElem?_map, List.getElem?_range inside]
  rfl

theorem sends_getElem? (hw : BitVec 48) (long : 6 ≤ packet.length) (time : Nat) :
    (sends true hw packet)[time]? =
      if time < 6 then packet[time]?
      else if time < 12 then (inserted hw packet.length)[time - 6]?
      else packet[time - 6]? := by
  have front : (packet.take 6).length = 6 := by rw [List.length_take]; omega
  have middle : (packet.take 6 ++ inserted hw packet.length).length = 12 := by
    rw [List.length_append, front]
    simp [inserted]
  rw [sends, if_pos rfl]
  split
  case isTrue early =>
    rw [List.getElem?_append_left (by omega), List.getElem?_append_left (by omega),
      List.getElem?_take_of_lt early]
  case isFalse late =>
    split
    case isTrue within =>
      rw [List.getElem?_append_left (by omega), List.getElem?_append_right (by omega), front]
    case isFalse beyond =>
      rw [List.getElem?_append_right (by omega), middle, List.getElem?_drop]
      congr 1
      omega

structure Resting (hw : BitVec 48) (mac : AddEMac) : Prop where
  rHw : mac.rHw = hw
  rBuf : ∀ place, (mac.rBuf place).v = false
  rPos : mac.rPos = 0
  oV : mac.oV = false

structure During (en : Bool) (hw : BitVec 48) (packet : List Byte) (time : Nat) (mac : AddEMac) :
    Prop where
  rHw : mac.rHw = if time ≤ packet.length then rotate^[time] hw else hw
  rBuf : ∀ place : Fin 6,
    carried (mac.rBuf place).v (mac.rBuf place).d = shown packet (time - place.val)
  rPos : mac.rPos.toNat = min time 31
  output : carried mac.oV mac.oByte = shown (sends en hw packet) time

/-- From the first byte until the stage rests again. -/
structure After (en : Bool) (hw : BitVec 48) (packet : List Byte) (time : Nat) (mac : AddEMac) :
    Prop where
  during : time ≤ (sends en hw packet).length + 1 → During en hw packet time mac
  done : (sends en hw packet).length + 1 < time → Resting hw mac

variable {en : Bool} {hw : BitVec 48} {mac : AddEMac}

theorem Resting.reset (mac : AddEMac) (iCe iEn : Bool) (hw : BitVec 48) (iV : Bool) (iD : Byte) :
    (mac.step true iCe iEn hw iV iD).Resting hw :=
  ⟨rfl, fun _ => rfl, rfl, rfl⟩

theorem Resting.idle {old : BitVec 48} (resting : mac.Resting old) (en : Bool) (hw : BitVec 48)
    (iD : Byte) : (mac.step false true en hw false iD).Resting hw := by
  constructor
  · simp [AddEMac.step]
  · intro place
    simp [AddEMac.step, resting.oV]
  · simp [AddEMac.step, resting.oV]
  · cases en <;> simp [AddEMac.step, resting.oV]

theorem Resting.during (resting : mac.Resting hw) (en : Bool) (packet : List Byte) :
    During en hw packet 0 mac where
  rHw := by simp [resting.rHw]
  rBuf place := by simp [carried, resting.rBuf place, shown]
  rPos := by simp [resting.rPos]
  output := by simp [carried, resting.oV, shown]

theorem Resting.after (resting : mac.Resting hw) (en : Bool) (packet : List Byte) :
    After en hw packet 0 mac :=
  ⟨fun _ => resting.during en packet, fun late => absurd late (by omega)⟩

private theorem rPos_lt (during : During en hw packet time mac) (bound : Nat) (small : bound ≤ 31) :
    mac.rPos.ult (BitVec.ofNat 5 bound) = decide (time < bound) := by
  rw [BitVec.ult, during.rPos, BitVec.toNat_ofNat, Nat.mod_eq_of_lt (by omega)]
  congr 1
  rw [eq_iff_iff]
  omega

private theorem rPos_next (during : During en hw packet time mac) :
    (if mac.rPos = 31 then mac.rPos else mac.rPos + 1).toNat = min (time + 1) 31 := by
  have count := during.rPos
  split
  case isTrue full =>
    have value : mac.rPos.toNat = 31 := by rw [full]; rfl
    omega
  case isFalse room =>
    have value : mac.rPos.toNat ≠ 31 := fun same => room (BitVec.eq_of_toNat_eq same)
    have one : (1 : BitVec 5).toNat = 1 := rfl
    rw [BitVec.toNat_add, one]
    omega

theorem During.step (during : During en hw packet time mac)
    (input : carried iV iD = packet[time]?) (long : (if en then 6 else 1) ≤ packet.length)
    (running : time ≤ (sends en hw packet).length) :
    During en hw packet (time + 1) (mac.step false true en hw iV iD) := by
  have some : 0 < packet.length := by
    cases en with
    | false => exact long
    | true => exact Nat.lt_of_lt_of_le (by decide) long
  -- While the packet passes, the stage never sees both sides silent.
  have active : (!iV && !mac.oV) = false := by
    rcases carried_cases input with ⟨_, up, _⟩ | ⟨past, _⟩
    · simp [up]
    · have up := output_up during.output (by omega) running
      simp [up]
  simp only [AddEMac.step, active, Bool.false_eq_true, if_false, if_true]
  constructor
  · rcases carried_cases input with ⟨inside, up, _⟩ | ⟨past, down⟩
    · have before : time ≤ packet.length := by omega
      have now : time + 1 ≤ packet.length := inside
      simp only [up, Bool.not_true, Bool.false_eq_true, if_false]
      rw [during.rHw, if_pos before, if_pos now, Function.iterate_succ_apply']
    · have now : ¬ time + 1 ≤ packet.length := by omega
      simp only [down, Bool.not_false, if_true]
      rw [if_neg now]
  · intro place
    by_cases first : place.val = 0
    · have new : carried iV (if iV then iD else 0xff) = carried iV iD := by cases iV <;> rfl
      simp only [shiftIn, first, if_true, Nat.sub_zero]
      exact new.trans input
    · have earlier := during.rBuf ⟨place.val - 1, by omega⟩
      have back : time + 1 - place.val = time - (place.val - 1) := by omega
      simp only [shiftIn, first, if_false]
      rw [earlier, back]
  · exact rPos_next during
  · cases en with
    | false => exact input
    | true =>
        have six := rPos_lt during 6 (by decide)
        have twelve := rPos_lt during 12 (by decide)
        have last := during.rBuf 5
        change carried _ _ = (sends true hw packet)[time]?
        rw [sends_getElem? hw long]
        simp only [if_true]
        rw [show (6 : BitVec 5) = BitVec.ofNat 5 6 from rfl,
          show (12 : BitVec 5) = BitVec.ofNat 5 12 from rfl, six, twelve]
        by_cases early : time < 6
        · simp only [early, decide_true, if_true]
          exact input
        · by_cases within : time < 12
          · simp only [early, within, decide_true, decide_false, Bool.false_eq_true, if_false, if_true]
            rw [inserted_getElem? hw _ (by omega), during.rHw]
            have place : 6 + (time - 6) = time := by omega
            by_cases before : time ≤ packet.length
            · rw [if_pos before, place, if_pos before, ← rotate_top hw (by omega), place]
              rfl
            · rw [if_neg before, place, if_neg before, extract_macByte]
              rfl
          · simp only [early, within, decide_false, Bool.false_eq_true, if_false]
            rw [last]
            have back : time - 5 = time - 6 + 1 := by omega
            change shown packet (time - 5) = _
            rw [back]
            rfl

theorem During.rests (during : During en hw packet ((sends en hw packet).length + 1) mac)
    (iD : Byte) : (mac.step false true en hw false iD).Resting hw := by
  have silent : mac.oV = false := carried_eq_none (during.output.trans (shown_none (by omega)))
  constructor
  · simp [AddEMac.step]
  · intro place
    simp [AddEMac.step, silent]
  · simp [AddEMac.step, silent]
  · cases en <;> simp [AddEMac.step, silent]

theorem After.step (after : After en hw packet time mac) (input : carried iV iD = packet[time]?)
    (long : (if en then 6 else 1) ≤ packet.length) :
    After en hw packet (time + 1) (mac.step false true en hw iV iD) where
  during early := (after.during (by omega)).step input long (by omega)
  done late := by
    have past : packet.length ≤ time := by
      rw [sends_length] at late
      omega
    have silent : iV = false := carried_eq_none (input.trans (List.getElem?_eq_none past))
    rw [silent]
    by_cases last : time = (sends en hw packet).length + 1
    · subst last
      exact (after.during (Nat.le_refl _)).rests iD
    · exact (after.done (by omega)).idle en hw iD

theorem After.output (after : After en hw packet time mac) :
    carried mac.oV mac.oByte = shown (sends en hw packet) time := by
  by_cases early : time ≤ (sends en hw packet).length + 1
  · exact (after.during early).output
  · rw [shown_none (by omega), (after.done (by omega)).oV]
    rfl

end AddEMac

namespace AddEPad

/-! ### `addepad` -/

def sends (packet : List Byte) : List Byte :=
  packet ++ List.replicate (minOctets - packet.length) 0

theorem sends_length (packet : List Byte) :
    (sends packet).length = max packet.length 60 := by
  simp [sends, minOctets]
  omega

structure During (packet : List Byte) (time : Nat) (pad : AddEPad) : Prop where
  rNcnt : 0 < time → pad.rNcnt.toNat = min (time - 1) 60
  output : carried pad.oV pad.oD = shown (sends packet) time

structure After (packet : List Byte) (time : Nat) (pad : AddEPad) : Prop where
  during : time ≤ (sends packet).length → During packet time pad
  done : (sends packet).length < time → pad.oV = false

variable {pad : AddEPad}

theorem rests_after (rests : pad.oV = false) (packet : List Byte) : After packet 0 pad where
  during _ := ⟨fun now => absurd now (by omega), by simp [carried, rests, shown]⟩
  done _ := rests

theorem rests_idle (rests : pad.oV = false) (iD : Byte) :
    (pad.step false true false iD).oV = false := by
  simp [AddEPad.step, rests]

private theorem rNcnt_next (during : During packet time pad) (up : 0 < time → pad.oV = true)
    (rests : time = 0 → pad.oV = false) (iV : Bool) (iD : Byte) :
    (pad.step false true iV iD).rNcnt.toNat = min time 60 := by
  simp only [AddEPad.step, Bool.false_eq_true, if_false, if_true]
  cases time with
  | zero => simp [rests rfl]
  | succ time =>
      have count := during.rNcnt (by omega)
      rw [Nat.add_sub_cancel] at count
      simp only [up (by omega), Bool.not_true, Bool.false_eq_true, if_false]
      have one : (1 : BitVec 6).toNat = 1 := rfl
      by_cases room : pad.rNcnt.toNat < minOctets
      · rw [if_pos room, BitVec.toNat_add, one]
        simp only [minOctets] at room
        omega
      · rw [if_neg room]
        simp only [minOctets] at room
        omega

theorem During.step (during : During packet time pad) (input : carried iV iD = packet[time]?)
    (some : 0 < packet.length) (running : time < (sends packet).length) :
    During packet (time + 1) (pad.step false true iV iD) := by
  have up : 0 < time → pad.oV = true := fun first =>
    output_up during.output first (by omega)
  have rests : time = 0 → pad.oV = false := by
    rintro rfl
    exact carried_eq_none during.output
  refine ⟨fun _ => rNcnt_next during up rests iV iD, ?_⟩
  simp only [AddEPad.step, Bool.false_eq_true, if_false, if_true]
  change carried _ _ = (sends packet)[time]?
  rcases carried_cases input with ⟨inside, valid, data⟩ | ⟨past, silent⟩
  · rw [sends, List.getElem?_append_left inside, List.getElem?_eq_getElem inside]
    simp [valid, data, carried]
  · have first : 0 < time := by omega
    have count := during.rNcnt first
    rw [sends_length] at running
    have early : pad.rNcnt.toNat < minOctets - 1 := by
      simp only [minOctets]
      omega
    rw [sends, List.getElem?_append_right past, List.getElem?_replicate]
    have within : time - packet.length < minOctets - packet.length := by
      simp only [minOctets]
      omega
    rw [if_pos within]
    simp [silent, up first, early, carried]

theorem After.step (after : After packet time pad) (input : carried iV iD = packet[time]?)
    (some : 0 < packet.length) : After packet (time + 1) (pad.step false true iV iD) where
  during early := (after.during (by omega)).step input some (by omega)
  done late := by
    have size := sends_length packet
    have silent : iV = false := carried_eq_none (input.trans (List.getElem?_eq_none (by omega)))
    rw [silent]
    by_cases last : time = (sends packet).length
    · have count := (after.during (by omega)).rNcnt (by omega)
      have full : ¬ pad.rNcnt.toNat < minOctets - 1 := by
        simp only [minOctets]
        omega
      simp [AddEPad.step, full]
    · exact rests_idle (after.done (by omega)) iD

theorem After.output (after : After packet time pad) :
    carried pad.oV pad.oD = shown (sends packet) time := by
  by_cases early : time ≤ (sends packet).length
  · exact (after.during early).output
  · rw [shown_none (by omega), after.done (by omega)]
    rfl

/-- Behind other stages, a packet comes `lag` enabled clocks late. -/
theorem After.follow {lag : Nat} (after : After packet (time - lag) pad)
    (input : carried iV iD = shown packet (time + 1 - lag)) (some : 0 < packet.length) :
    After packet (time + 1 - lag) (pad.step false true iV iD) := by
  by_cases early : time < lag
  · have before : time - lag = 0 := by omega
    have now : time + 1 - lag = 0 := by omega
    rw [before] at after
    rw [now] at input ⊢
    rw [carried_eq_none input]
    exact rests_after (rests_idle (carried_eq_none after.output) iD) packet
  · have now : time + 1 - lag = time - lag + 1 := by omega
    rw [now] at input ⊢
    exact after.step input some

end AddEPad

namespace AddECrc

/-! ### `addecrc` -/

/-- The equations of the circuit are the table of the IEEE check. -/
theorem eqn_eq (low : Byte) : eqn low = crcShifts ieeePoly 8 (low.setWidth 32) := by
  revert low
  decide +kernel

theorem crcNext_eq (register : BitVec 32) (byte : Byte) :
    crcNext register byte = crcByte ieeePoly register byte := by
  rw [crcByte_table, ← eqn_eq]
  rfl

/-- The register after some bytes, whatever it started from. -/
def checked (register : BitVec 32) (bytes : List Byte) : BitVec 32 :=
  bytes.foldl crcNext register

theorem checked_eq (register : BitVec 32) (bytes : List Byte) :
    checked register bytes = bytes.foldl (crcByte ieeePoly) register := by
  have same : crcNext = crcByte ieeePoly := by
    funext left right
    exact crcNext_eq left right
  rw [checked, same]

theorem checked_injective (bytes : List Byte) :
    Function.Injective fun register => checked register bytes := by
  intro left right same
  simp only [checked_eq] at same
  exact foldl_crcByte_injective ieeePoly (by decide) bytes same

theorem checked_take_succ (register : BitVec 32) (inside : time < packet.length) :
    checked register (packet.take (time + 1)) =
      crcNext (checked register (packet.take time)) packet[time] := by
  rw [List.take_succ_eq_append_getElem inside, checked, List.foldl_append]
  rfl

/-- The register shifts out to the right, ones coming in. -/
def flushed (register : BitVec 32) : Nat → BitVec 32
  | 0 => register
  | count + 1 => 0xff#8 ++ (flushed register count).extractLsb' 8 24

theorem not_flushed (register : BitVec 32) (count : Nat) :
    ~~~ flushed register count = ~~~ register >>> (8 * count) := by
  induction count with
  | zero => simp [flushed]
  | succ count ih =>
      have shift : ∀ word : BitVec 32, ~~~ (0xff#8 ++ word.extractLsb' 8 24) = ~~~ word >>> 8 := by
        intro word
        apply BitVec.eq_of_getLsbD_eq
        intro place inside
        rw [BitVec.getLsbD_not, BitVec.getLsbD_append, BitVec.getLsbD_ushiftRight,
          BitVec.getLsbD_not]
        by_cases low : place < 24
        · have within : 8 + place < 32 := by omega
          simp [inside, low, within]
        · have ones : (0xff#8).getLsbD (place - 24) = true := by
            have small : place - 24 < 8 := by omega
            have all : ∀ index : Fin 8, (0xff#8).getLsbD index.val = true := by decide
            exact all ⟨place - 24, small⟩
          have beyond : ¬ 8 + place < 32 := by omega
          simp [low, ones, beyond]
      rw [flushed, shift, ih, Nat.mul_succ, BitVec.shiftRight_add]

theorem flushed_low (register : BitVec 32) (count : Nat) :
    (flushed register count).extractLsb' 0 8 ^^^ 0xff = octet (~~~ register) count := by
  have not : ∀ word : BitVec 32, word.extractLsb' 0 8 ^^^ 0xff = (~~~ word).setWidth 8 := by
    intro word
    have ones : (0xff : Byte) = BitVec.allOnes 8 := rfl
    rw [ones, BitVec.xor_allOnes]
    apply BitVec.eq_of_getLsbD_eq
    intro place inside
    have within : place < 32 := by omega
    simp [inside, within]
  rw [not, not_flushed, octet]

theorem flushed_five (register : BitVec 32) : flushed register 5 = 0xffffffff := by
  have out : ~~~ flushed register 5 = 0 := by
    rw [not_flushed]
    apply BitVec.eq_of_getLsbD_eq
    intro place inside
    rw [BitVec.getLsbD_ushiftRight, BitVec.getLsbD_of_ge _ _ (by omega)]
    exact (BitVec.getLsbD_zero).symm
  have ones : (0xffffffff : BitVec 32) = ~~~ 0 := rfl
  rw [ones, ← out, BitVec.not_not]

/-- The packet with the check computed from the register it found. -/
def sends (en : Bool) (register : BitVec 32) (packet : List Byte) : List Byte :=
  packet ++ if en then (List.range 4).map (octet (~~~ checked register packet)) else []

/-- The register a packet leaves behind: all ones when its check has been sent. -/
def leaves (en : Bool) (register : BitVec 32) (packet : List Byte) : BitVec 32 :=
  if en then 0xffffffff else flushed (checked register packet) 1

theorem sends_length (en : Bool) (register : BitVec 32) (packet : List Byte) :
    (sends en register packet).length = packet.length + if en then 4 else 0 := by
  cases en <;> simp [sends]

structure Resting (register : BitVec 32) (crc : AddECrc) : Prop where
  rCrc : crc.rCrc = register
  oV : crc.oV = false

structure During (en : Bool) (register : BitVec 32) (packet : List Byte) (time : Nat)
    (crc : AddECrc) : Prop where
  rCrc : crc.rCrc = flushed (checked register (packet.take time)) (time - packet.length)
  rP : 0 < time → crc.rP = 15#4 <<< (time - packet.length)
  output : carried crc.oV crc.oD = shown (sends en register packet) time

structure After (en : Bool) (register : BitVec 32) (packet : List Byte) (time : Nat)
    (crc : AddECrc) : Prop where
  during : time ≤ (sends en register packet).length → During en register packet time crc
  done : (sends en register packet).length < time → Resting (leaves en register packet) crc

variable {en : Bool} {register : BitVec 32} {crc : AddECrc}

theorem Resting.idle (resting : crc.Resting register) (en : Bool) (iD : Byte) :
    (crc.step false true en false iD).Resting register := by
  constructor <;> simp [AddECrc.step, resting.oV, resting.rCrc]

theorem Resting.after (resting : crc.Resting register) (en : Bool) (some : 0 < packet.length) :
    After en register packet 0 crc where
  during _ := ⟨by simp [flushed, checked, resting.rCrc], fun now => absurd now (by omega),
    by simp [carried, resting.oV, shown]⟩
  done late := by
    rw [sends_length] at late
    omega

/-- A byte of the packet. -/
theorem During.byte (during : During en register packet time crc) (inside : time < packet.length) :
    During en register packet (time + 1) (crc.step false true en true packet[time]) := by
  have before : time - packet.length = 0 := by omega
  have now : time + 1 - packet.length = 0 := by omega
  constructor
  · have old := during.rCrc
    rw [before, flushed] at old
    rw [now, flushed, checked_take_succ register inside, ← old]
    rfl
  · intro _
    rw [now]
    rfl
  · change carried true packet[time] = (sends en register packet)[time]?
    rw [sends, List.getElem?_append_left inside, List.getElem?_eq_getElem inside]
    rfl

/-- An octet of the check. -/
theorem During.check (during : During true register packet time crc) (some : 0 < packet.length)
    (past : packet.length ≤ time) (running : time < packet.length + 4) :
    During true register packet (time + 1) (crc.step false true true false iD) := by
  have up : crc.oV = true := output_up during.output (by omega) (by rw [sends_length, if_pos rfl]; omega)
  have whole : packet.take time = packet := List.take_of_length_le past
  have next : packet.take (time + 1) = packet := List.take_of_length_le (by omega)
  have count : time + 1 - packet.length = time - packet.length + 1 := by omega
  have register' := during.rCrc
  have place := during.rP (by omega)
  rw [whole] at register'
  constructor
  · rw [next, count, flushed, ← register']
    simp [AddECrc.step, up]
  · intro _
    rw [count, BitVec.shiftLeft_add, ← place]
    simp [AddECrc.step, up]
  · have bit : crc.rP.getLsbD 3 = true := by
      have all : ∀ count : Fin 4, (15#4 <<< count.val).getLsbD 3 = true := by decide
      rw [place]
      exact all ⟨time - packet.length, by omega⟩
    change carried _ _ = (sends true register packet)[time]?
    rw [sends, if_pos rfl, List.getElem?_append_right past, List.getElem?_map,
      List.getElem?_range (by omega), Option.map_some, ← flushed_low, ← register']
    simp [AddECrc.step, up, bit, carried]

theorem During.step (during : During en register packet time crc)
    (input : carried iV iD = packet[time]?) (some : 0 < packet.length)
    (running : time < (sends en register packet).length) :
    During en register packet (time + 1) (crc.step false true en iV iD) := by
  rw [sends_length] at running
  rcases carried_cases input with ⟨inside, rfl, rfl⟩ | ⟨past, rfl⟩
  · exact during.byte inside
  · cases en with
    | false =>
        rw [if_neg Bool.false_ne_true] at running
        omega
    | true =>
        rw [if_pos rfl] at running
        exact during.check some past running

theorem During.rests (during : During en register packet (sends en register packet).length crc)
    (some : 0 < packet.length) (iD : Byte) :
    (crc.step false true en false iD).Resting (leaves en register packet) := by
  have size := sends_length en register packet
  have up : crc.oV = true := output_up during.output (by omega) (Nat.le_refl _)
  have register' := during.rCrc
  have place := during.rP (by omega)
  rw [List.take_of_length_le (by omega)] at register'
  rw [size] at register' place
  rw [Nat.add_sub_cancel_left] at register' place
  cases en with
  | false =>
      rw [if_neg Bool.false_ne_true, flushed] at register'
      constructor
      · rw [leaves, if_neg Bool.false_ne_true, flushed, flushed, ← register']
        simp [AddECrc.step, up]
      · simp [AddECrc.step, up]
  | true =>
      rw [if_pos rfl] at register' place
      constructor
      · rw [leaves, if_pos rfl, ← flushed_five (checked register packet), flushed, ← register']
        simp [AddECrc.step, up]
      · have bit : crc.rP.getLsbD 3 = false := by
          rw [place]
          decide
        simp only [AddECrc.step, up, bit]
        rfl

theorem After.step (after : After en register packet time crc)
    (input : carried iV iD = packet[time]?) (some : 0 < packet.length) :
    After en register packet (time + 1) (crc.step false true en iV iD) where
  during early := (after.during (by omega)).step input some (by omega)
  done late := by
    have size := sends_length en register packet
    have silent : iV = false := carried_eq_none (input.trans (List.getElem?_eq_none (by omega)))
    rw [silent]
    by_cases last : time = (sends en register packet).length
    · subst last
      exact (after.during (Nat.le_refl _)).rests some iD
    · exact (after.done (by omega)).idle en iD

theorem After.output (after : After en register packet time crc) :
    carried crc.oV crc.oD = shown (sends en register packet) time := by
  by_cases early : time ≤ (sends en register packet).length
  · exact (after.during early).output
  · rw [shown_none (by omega), (after.done (by omega)).oV]
    rfl

theorem After.follow {lag : Nat} (after : After en register packet (time - lag) crc)
    (input : carried iV iD = shown packet (time + 1 - lag)) (some : 0 < packet.length) :
    After en register packet (time + 1 - lag) (crc.step false true en iV iD) := by
  by_cases early : time < lag
  · have before : time - lag = 0 := by omega
    have now : time + 1 - lag = 0 := by omega
    rw [before] at after
    rw [now] at input ⊢
    rw [carried_eq_none input]
    have resting : crc.Resting register :=
      ⟨by simpa [flushed, checked] using (after.during (Nat.zero_le _)).rCrc,
        carried_eq_none after.output⟩
    exact (resting.idle en iD).after en some
  · have now : time + 1 - lag = time - lag + 1 := by omega
    rw [now] at input ⊢
    exact after.step input some

end AddECrc

namespace AddEPreamble

/-! ### `addepreamble` -/

def preamble : List Byte := List.replicate 7 0x55 ++ [0xd5]

def sends (packet : List Byte) : List Byte := preamble ++ packet

theorem sends_length (packet : List Byte) : (sends packet).length = packet.length + 8 := by
  simp [sends, preamble]

structure Resting (pre : AddEPreamble) : Prop where
  shiftreg : pre.shiftreg = preset true
  oV : pre.oV = false

structure During (packet : List Byte) (time : Nat) (pre : AddEPreamble) : Prop where
  shiftreg : ∀ place : Fin 8, carried (pre.shiftreg place).v (pre.shiftreg place).d =
    (sends packet)[time + 7 - place.val]?
  output : carried pre.oV pre.oD = shown (sends packet) time

structure After (packet : List Byte) (time : Nat) (pre : AddEPreamble) : Prop where
  during : time ≤ (sends packet).length + 1 → During packet time pre
  done : (sends packet).length + 1 < time → Resting pre

variable {pre : AddEPreamble}

theorem rests_idle (rests : pre.oV = false) (iD : Byte) :
    (pre.step false true true false iD).Resting := by
  constructor <;> simp [AddEPreamble.step, rests]

theorem Resting.after (resting : pre.Resting) (packet : List Byte) : After packet 0 pre where
  during _ := by
    refine ⟨?_, by simp [carried, resting.oV, shown]⟩
    intro place
    have bytes : ∀ place : Fin 8, carried (preset true place).v (preset true place).d =
        preamble[7 - place.val]? := by decide
    have size : preamble.length = 8 := rfl
    rw [resting.shiftreg, bytes, sends, Nat.zero_add, List.getElem?_append_left (by omega)]
  done late := absurd late (by omega)

theorem During.step (during : During packet time pre) (input : carried iV iD = packet[time]?)
    (some : 0 < packet.length) (running : time ≤ (sends packet).length) :
    During packet (time + 1) (pre.step false true true iV iD) := by
  have size := sends_length packet
  have active : (!iV && !pre.oV) = false := by
    rcases carried_cases input with ⟨_, up, _⟩ | ⟨past, _⟩
    · simp [up]
    · have up := output_up during.output (by omega) running
      simp [up]
  have lasting : (pre.oV || iV) = true := by
    cases iV <;> simp_all
  simp only [AddEPreamble.step, active, lasting, Bool.false_eq_true, if_false, if_true,
    Bool.and_true]
  constructor
  · intro place
    by_cases first : place.val = 0
    · have count : time + 1 + 7 = 8 + time := by omega
      have eight : preamble.length = 8 := rfl
      simp only [shiftIn, first, if_true, Nat.sub_zero]
      rw [input, count, sends, List.getElem?_append_right (by omega), eight, Nat.add_sub_cancel_left]
    · have earlier := during.shiftreg ⟨place.val - 1, by omega⟩
      have back : time + 1 + 7 - place.val = time + 7 - (place.val - 1) := by omega
      simp only [shiftIn, first, if_false]
      rw [earlier, back]
  · exact during.shiftreg 7

theorem During.rests (during : During packet ((sends packet).length + 1) pre) (iD : Byte) :
    (pre.step false true true false iD).Resting :=
  rests_idle (carried_eq_none (during.output.trans (shown_none (by omega)))) iD

theorem After.step (after : After packet time pre) (input : carried iV iD = packet[time]?)
    (some : 0 < packet.length) : After packet (time + 1) (pre.step false true true iV iD) where
  during early := (after.during (by omega)).step input some (by omega)
  done late := by
    have size := sends_length packet
    have silent : iV = false := carried_eq_none (input.trans (List.getElem?_eq_none (by omega)))
    rw [silent]
    by_cases last : time = (sends packet).length + 1
    · subst last
      exact (after.during (Nat.le_refl _)).rests iD
    · exact rests_idle (after.done (by omega)).oV iD

theorem After.output (after : After packet time pre) :
    carried pre.oV pre.oD = shown (sends packet) time := by
  by_cases early : time ≤ (sends packet).length + 1
  · exact (after.during early).output
  · rw [shown_none (by omega), (after.done (by omega)).oV]
    rfl

theorem After.follow {lag : Nat} (after : After packet (time - lag) pre)
    (input : carried iV iD = shown packet (time + 1 - lag)) (some : 0 < packet.length) :
    After packet (time + 1 - lag) (pre.step false true true iV iD) := by
  by_cases early : time < lag
  · have before : time - lag = 0 := by omega
    have now : time + 1 - lag = 0 := by omega
    rw [before] at after
    rw [now] at input ⊢
    rw [carried_eq_none input]
    exact (rests_idle (carried_eq_none after.output) iD).after packet
  · have now : time + 1 - lag = time - lag + 1 := by omega
    rw [now] at input ⊢
    exact after.step input some

end AddEPreamble

end ZipVersa.Enet
