import ZipVersa.Enet.Trimming

/-! The registers of `addecrc` and `rxecrc` beside a register that divides by
the polynomial one bit of the message at a time. -/

set_option autoImplicit false

namespace ZipVersa.Enet

open Lib

theorem crcByte_serial (register : BitVec 32) (byte : Byte) :
    crcByte ieeePoly register byte = crcSerial ieeePoly register [byte] := by
  rw [crcByte_bits ieeePoly (by decide), crcSerial, List.flatMap_singleton]

/-! ### Clock by clock -/

/-- The bytes taken at the enabled clocks. -/
def consumed (clocks : List CrcClock) : List Byte :=
  (clocks.filter fun clock => clock.iCe && clock.iV).map CrcClock.iD

/-- No byte is offered at an enabled clock. -/
def Silent (clocks : List CrcClock) : Prop :=
  ∀ clock ∈ clocks, clock.iCe = true → clock.iV = false

/-- A byte is offered at every enabled clock. -/
def Streams (clocks : List CrcClock) : Prop :=
  ∀ clock ∈ clocks, clock.iCe = true → clock.iV = true

instance (clocks : List CrcClock) : Decidable (Silent clocks) :=
  inferInstanceAs (Decidable (∀ clock ∈ clocks, clock.iCe = true → clock.iV = false))

instance (clocks : List CrcClock) : Decidable (Streams clocks) :=
  inferInstanceAs (Decidable (∀ clock ∈ clocks, clock.iCe = true → clock.iV = true))

variable {clocks : List CrcClock}

/-- A register that takes each byte by the check of the polynomial. -/
theorem streams_serial {State : Type} {clock : State → CrcClock → State} {register : State → BitVec 32}
    (takes : ∀ state input, register (clock state input) =
      if input.iCe then (if input.iV then crcByte ieeePoly (register state) input.iD
        else register (clock state input)) else register state)
    (streams : Streams clocks) (state : State) :
    register (clocked clock state clocks) =
      crcSerial ieeePoly (register state) (consumed clocks) := by
  induction clocks generalizing state with
  | nil => rfl
  | cons input rest ih =>
      have later : Streams rest := fun other member => streams other (.tail _ member)
      rw [clocked_cons, ih later, takes]
      cases enabled : input.iCe with
      | false => simp [consumed, enabled]
      | true =>
          have offered := streams input (.head _) enabled
          rw [if_pos rfl, if_pos offered, crcByte_serial]
          simp [consumed, enabled, offered, crcSerial]

namespace AddECrc

theorem register_takes (crc : AddECrc) (input : CrcClock) : (crc.clock input).rCrc =
    if input.iCe then (if input.iV then crcByte ieeePoly crc.rCrc input.iD
      else (crc.clock input).rCrc) else crc.rCrc := by
  cases enabled : input.iCe with
  | false => rw [clock_disabled crc enabled]; rfl
  | true => cases offered : input.iV <;> simp [clock, step, enabled, offered, crcNext_eq]

/-- Without a byte the circuit waits. -/
theorem silent_clock {crc : AddECrc} (input : CrcClock) (oV : crc.oV = false)
    (silent : input.iCe = true → input.iV = false) :
    (crc.clock input).oV = false ∧ (crc.clock input).rCrc = crc.rCrc := by
  cases enabled : input.iCe with
  | false => rw [clock_disabled crc enabled]; exact ⟨oV, rfl⟩
  | true => simp [clock, step, enabled, silent enabled, oV]

theorem silent_run (silent : Silent clocks) {crc : AddECrc} (oV : crc.oV = false) :
    (clocked clock crc clocks).rCrc = crc.rCrc := by
  induction clocks generalizing crc with
  | nil => rfl
  | cons input rest ih =>
      obtain ⟨stays, holds⟩ := silent_clock input oV (silent input (.head _))
      rw [clocked_cons, ih (fun other member => silent other (.tail _ member)) stays, holds]

end AddECrc

namespace RxeCrc

/-- Nothing is in the lanes. -/
structure Empty (crc : RxeCrc) : Prop where
  rCrc : crc.rCrc = 0xffffffff
  buf0 : crc.buf0.v = false
  buf1 : crc.buf1.v = false
  buf2 : crc.buf2.v = false
  oV : crc.oV = false

theorem register_takes (crc : RxeCrc) (input : CrcClock) : (crc.clock input).rCrc =
    if input.iCe then (if input.iV then crcByte ieeePoly crc.rCrc input.iD
      else (crc.clock input).rCrc) else crc.rCrc := by
  cases enabled : input.iCe with
  | false => rw [clock_disabled crc enabled]; rfl
  | true => cases offered : input.iV <;> simp [clock, step, enabled, offered, crcNext_eq]

theorem reset_empty (crc : RxeCrc) (iCe iEn iV : Bool) (iD : Byte) :
    (crc.step true iCe iEn iV iD).Empty := by
  constructor <;> rfl

theorem Empty.clock {crc : RxeCrc} (empty : crc.Empty) (input : CrcClock)
    (silent : input.iCe = true → input.iV = false) : (crc.clock input).Empty := by
  cases enabled : input.iCe with
  | false => rw [clock_disabled crc enabled]; exact empty
  | true =>
      constructor <;> simp [RxeCrc.clock, step, enabled, silent enabled, empty.buf0, empty.buf1,
        empty.buf2, empty.oV]

theorem Empty.run (silent : Silent clocks) {crc : RxeCrc} (empty : crc.Empty) :
    (clocked RxeCrc.clock crc clocks).Empty :=
  clocked_invariant (fun _ input member before => before.clock input (silent input member)) empty

end RxeCrc

/-! ### The two registers -/

/-- One byte by the equations of either circuit is eight single bits, and from a
reset on both registers hold the remainder of the bytes taken, however the
clocks are enabled. -/
theorem crc_registers_serial :
    (∀ (register : BitVec 32) (byte : Byte),
      AddECrc.crcNext register byte = (byteBits byte).foldl (crcBit ieeePoly) register ∧
        RxeCrc.crcNext register byte = (byteBits byte).foldl (crcBit ieeePoly) register) ∧
    (∀ (crc : AddECrc) (iEn : Bool) (iD : Byte),
      (crc.step false true iEn true iD).rCrc = AddECrc.crcNext crc.rCrc iD) ∧
    (∀ (crc : RxeCrc) (iEn : Bool) (iD : Byte),
      (crc.step false true iEn true iD).rCrc = RxeCrc.crcNext crc.rCrc iD) ∧
    ∀ (tx : AddECrc) (rx : RxeCrc) (reset : CrcClock) (idle packet : List CrcClock),
      Silent idle → Streams packet →
      (clocked AddECrc.clock (tx.step true reset.iCe reset.iEn reset.iV reset.iD)
          (idle ++ packet)).rCrc = crcSerial ieeePoly 0xffffffff (consumed packet) ∧
        (clocked RxeCrc.clock (rx.step true reset.iCe reset.iEn reset.iV reset.iD)
          (idle ++ packet)).rCrc = crcSerial ieeePoly 0xffffffff (consumed packet) := by
  refine ⟨fun register byte => ?_, fun crc iEn iD => rfl, fun crc iEn iD => rfl, ?_⟩
  · rw [AddECrc.crcNext_eq, RxeCrc.crcNext_eq, crcByte_bits ieeePoly (by decide)]
    exact ⟨rfl, rfl⟩
  · intro tx rx reset idle packet silent streams
    constructor
    · rw [clocked_append, streams_serial AddECrc.register_takes streams, AddECrc.silent_run silent rfl]
      rfl
    · rw [clocked_append, streams_serial RxeCrc.register_takes streams,
        ((RxeCrc.reset_empty rx reset.iCe reset.iEn reset.iV reset.iD).run silent).rCrc]

/-- Two bytes behind a silent clock, with a disabled clock between them. -/
theorem two_bytes_serial :
    let packet : List CrcClock :=
      [⟨true, true, true, 0x31⟩, ⟨false, true, false, 0x7f⟩, ⟨true, true, true, 0x32⟩]
    consumed packet = [0x31, 0x32] ∧
      (clocked AddECrc.clock (AddECrc.init.step true true true false 0)
        ([⟨true, true, false, 0⟩] ++ packet)).rCrc =
          crcSerial ieeePoly 0xffffffff [0x31, 0x32] ∧
      (clocked RxeCrc.clock (RxeCrc.init.step true true true false 0)
        ([⟨true, true, false, 0⟩] ++ packet)).rCrc =
          crcSerial ieeePoly 0xffffffff [0x31, 0x32] :=
  ⟨rfl, crc_registers_serial.2.2.2 AddECrc.init RxeCrc.init ⟨true, true, false, 0⟩
    [⟨true, true, false, 0⟩] _ (by decide) (by decide)⟩

end ZipVersa.Enet
