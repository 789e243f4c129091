import ZipVersa.Lib.BigEndian

/-! The FFT server of `fftmain.c`: the globals, `fftpacket` and `ffttimeout`.
Both handlers are given as functions from the globals and a datagram to the
new globals, the accesses to the FFT core and the payload of the reply. The
packet bookkeeping around them is in the network stack. -/

set_option autoImplicit false

namespace ZipVersa.Fft

open Lib

/-- `FFT_LENGTH`, which is also `FFT_SIZE`. -/
def fftLength : Nat := 1024

inductive FftState where
  | input
  | output
  deriving DecidableEq, Repr

/-- The globals `fft_id`, `fft_srcip`, `fft_port`, `fft_posn`, `fft_state`. -/
structure Device where
  fftId : BitVec 32 := -1
  fftSrcip : BitVec 32 := 0
  fftPort : BitVec 32 := 0
  fftPosn : BitVec 32 := 0
  fftState : FftState := .input
  deriving DecidableEq, Repr

/-- An access to the FFT core: `*_wbfft_ctrl = 0` or `_wbfft_data[index] = value`. -/
inductive BusOp where
  | ctrl
  | data (index value : BitVec 32)
  deriving DecidableEq, Repr

structure Outcome where
  device : Device
  ops : List BusOp
  reply : Option (List Byte)
  deriving DecidableEq, Repr

/-- `pkt_uint16(pkt, pos)` on the bytes of `p_user`. -/
def pktUint16 (get : Nat → Byte) (pos : Nat) : BitVec 32 := be16 (get pos) (get (pos + 1))

/-- `pkt_uint32(pkt, pos)`. -/
def pktUint32 (get : Nat → Byte) (pos : Nat) : BitVec 32 :=
  be32 (get pos) (get (pos + 1)) (get (pos + 2)) (get (pos + 3))

/-- `hton32`. -/
def hton32 (value : BitVec 32) : List Byte :=
  [octet value 3, octet value 2, octet value 1, octet value 0]

/-- The four bytes every datagram of the exchange starts with. -/
def header (id posn : BitVec 32) : List Byte :=
  [octet id 1, octet id 0, octet posn 1, octet posn 0]

/-- Words of `_wbfft_data` below the end of the core's address window. -/
def dataWindow : Nat := 0x3fc00

/-- Turns of `for(unsigned k=4; k < pkt->p_length; k+=4)`. -/
def inputWords (length : BitVec 32) : Nat := (length.toNat - 1) / 4

/-- The sample loop of the `FFT_INPUT` branch. A `p_length` that went negative
is a huge unsigned bound: the loop then runs out of the core's window and over
everything else on the bus, and nothing is known afterwards. -/
def takeSamples (device : Device) (get : Nat → Byte) (length : BitVec 32) :
    Option (Device × List BusOp) :=
  if device.fftPosn.toNat + inputWords length ≤ dataWindow then
    some ({ device with fftPosn := device.fftPosn + BitVec.ofNat 32 (inputWords length) },
      (List.range (inputWords length)).map fun turn =>
        .data (device.fftPosn + BitVec.ofNat 32 turn) (pktUint32 get (4 + 4 * turn)))
  else none

/-- `ln` result words read from `_wbfft_data[first]` on. -/
def resultWords (peek : BitVec 32 → BitVec 32) (first ln : BitVec 32) : List Byte :=
  (List.range ln.toNat).flatMap fun turn => hton32 (peek (BitVec.ofNat 32 turn + first))

/-- `if (ln >= 128) ln = 128;` -/
def clampWords (ln : BitVec 32) : BitVec 32 := if 128 ≤ ln then 128 else ln

/-- Whether the `FFT_INPUT` branch takes samples from this datagram. -/
def Device.takes (device : Device) (srcip sport pktId pktPosn : BitVec 32) : Prop :=
  pktId = device.fftId ∧ srcip = device.fftSrcip ∧ device.fftPort = sport ∧
    pktPosn = device.fftPosn

instance (device : Device) (srcip sport pktId pktPosn : BitVec 32) :
    Decidable (device.takes srcip sport pktId pktPosn) :=
  inferInstanceAs (Decidable (_ ∧ _ ∧ _ ∧ _))

/-- The `FFT_INPUT` branch of `fftpacket`. -/
def fftpacketInput (device : Device) (srcip sport : BitVec 32) (get : Nat → Byte)
    (length : BitVec 32) : Option Outcome :=
  let pktId := pktUint16 get 0
  let pktPosn := pktUint16 get 2
  if device.takes srcip sport pktId pktPosn then
    (takeSamples device get length).map fun (taken, ops) =>
      { device := { taken with
          fftState := if taken.fftPosn = 1024 then .output else taken.fftState }
        ops
        reply := some (header device.fftId taken.fftPosn) }
  else if pktId ≠ device.fftId ∨ device.fftPort ≠ sport then
    some {
      device := { device with fftId := pktId, fftSrcip := srcip, fftPort := sport, fftPosn := 0 }
      ops := [.ctrl]
      reply := some (header pktId 0) }
  else
    some { device, ops := [], reply := some (header device.fftId device.fftPosn) }

/-- The `FFT_OUTPUT` branch of `fftpacket`. The reply is labelled with, and
read from, the `fft_posn` of before the request. -/
def fftpacketOutput (device : Device) (peek : BitVec 32 → BitVec 32) (srcip : BitVec 32)
    (get : Nat → Byte) : Outcome :=
  let pktId := pktUint16 get 0
  let pktPosn := pktUint16 get 2
  if pktId = device.fftId ∧ srcip = device.fftSrcip then
    let fftPosn := if device.fftPosn < pktPosn then pktPosn else device.fftPosn
    if 2048 ≤ pktPosn then
      { device := { device with fftState := .input, fftPosn }, ops := [.ctrl], reply := none }
    else
      { device := { device with fftPosn }
        ops := []
        reply := some (header device.fftId device.fftPosn ++
          resultWords peek device.fftPosn (clampWords (1024 - pktPosn))) }
  else if pktId ≠ device.fftId then
    { device := { device with
        fftId := pktId, fftState := .input, fftSrcip := srcip, fftPosn := 0 }
      ops := [.ctrl]
      reply := some (header pktId 0) }
  else { device, ops := [], reply := none }

/-- `fftpacket`: `get` reads `p_user`, `peek` reads `_wbfft_data`. The reply
goes to `fft_srcip`, `fft_port` of the outcome. -/
def fftpacket (device : Device) (peek : BitVec 32 → BitVec 32) (srcip sport : BitVec 32)
    (get : Nat → Byte) (length : BitVec 32) : Option Outcome :=
  match device.fftState with
  | .input => fftpacketInput device srcip sport get length
  | .output => some (fftpacketOutput device peek srcip get)

/-- `ffttimeout`. -/
def ffttimeout (device : Device) (peek : BitVec 32 → BitVec 32) : Outcome :=
  match device.fftState with
  | .input =>
      { device
        ops := []
        reply :=
          if (0#32).slt device.fftPosn then some (header device.fftId device.fftPosn) else none }
  | .output =>
      if device.fftPosn.slt 2048 then
        let ln := clampWords (2048 - device.fftPosn)
        if ln = 0 then { device := { device with fftState := .input }, ops := [], reply := none }
        else
          { device
            ops := []
            reply := some (header device.fftId device.fftPosn ++
              resultWords peek (device.fftPosn - 1024) ln) }
      else { device, ops := [], reply := none }

/-- The server fails to come back from a datagram only in its sample loop. -/
theorem fftpacket_eq_none_iff (device : Device) (peek : BitVec 32 → BitVec 32)
    (srcip sport : BitVec 32) (get : Nat → Byte) (length : BitVec 32) :
    fftpacket device peek srcip sport get length = none ↔
      device.fftState = .input ∧
        device.takes srcip sport (pktUint16 get 0) (pktUint16 get 2) ∧
        dataWindow < device.fftPosn.toNat + inputWords length := by
  unfold fftpacket
  cases state : device.fftState with
  | output => simp
  | input =>
      unfold fftpacketInput
      by_cases taken : device.takes srcip sport (pktUint16 get 0) (pktUint16 get 2)
      · simp [taken, takeSamples]
      · simp only [taken, if_false, false_and, and_false, iff_false]
        split <;> simp

/-- A timeout repeats the last message and changes nothing. -/
theorem ffttimeout_device (device : Device) (peek : BitVec 32 → BitVec 32) :
    (ffttimeout device peek).device = device := by
  unfold ffttimeout
  split
  · rfl
  · split
    · next earlier =>
      have positive : clampWords (2048 - device.fftPosn) ≠ 0 := by
        unfold clampWords
        split
        · decide
        · intro none
          have last : device.fftPosn = 2048 := by
            have := BitVec.sub_eq_iff_eq_add.mp none
            simpa using this.symm
          rw [last] at earlier
          exact absurd earlier (by decide)
      dsimp only
      rw [if_neg positive]
    · rfl

end ZipVersa.Fft
