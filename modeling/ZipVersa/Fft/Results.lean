import Mathlib.Data.List.Basic
import ZipVersa.Fft.Positions
import ZipVersa.Fft.Wbfft

/-! The results as the client gets them: the words `fftpacket` and `ffttimeout`
read through the core's address window, against those of its memory. -/

set_option autoImplicit false

namespace ZipVersa.Fft

open Lib

/-! ### Reading the memory -/

/-- The read of `_wbfft_data[index]`: the core sits at word `0x240000` of the bus
and is given the low eleven bits of the address. -/
def readClock (index : BitVec 32) : FftClock 10 where
  reset := false
  stb := true
  we := false
  addr := (0x240000#32 + 0x400#32 + index).setWidth 11
  data := 0

/-- What the bus answers. -/
def busRead {State : Type} (core : Core State) (ckpce : Nat) (fft : Wbfft 10 State)
    (index : BitVec 32) : BitVec 32 :=
  (fft.step core ckpce (readClock index)).wbData

variable {State : Type} {core : Core State} {ckpce : Nat} {fft : Wbfft 10 State}

/-- The memory does not see how far above it an index is. -/
theorem busRead_eq {index : BitVec 32} {place : Nat} (same : index.toNat % 1024 = place % 1024) :
    busRead core ckpce fft index = fft.mem (BitVec.ofNat 10 place) := by
  have address : (readClock index).addr.setWidth 10 = BitVec.ofNat 10 place := by
    apply BitVec.eq_of_toNat_eq
    simp only [readClock, BitVec.toNat_setWidth, BitVec.toNat_add, BitVec.toNat_ofNat]
    omega
  change fft.mem ((readClock index).addr.setWidth 10) = _
  rw [address]

/-- The result words from a place on. -/
def memoryWords (mem : BitVec 10 → BitVec 32) (first count : Nat) : List Byte :=
  (List.range count).flatMap fun turn => hton32 (mem (BitVec.ofNat 10 (first + turn)))

theorem length_hton32_flatMap (words : Nat → BitVec 32) (count : Nat) :
    ((List.range count).flatMap fun turn => hton32 (words turn)).length = 4 * count := by
  induction count with
  | zero => rfl
  | succ count ih =>
      rw [List.range_succ, List.flatMap_append, List.length_append, ih, Nat.mul_succ]
      rfl

theorem resultWords_memory {first : BitVec 32} {place : Nat} (ln : BitVec 32)
    (same : first.toNat % 1024 = place % 1024) :
    resultWords (busRead core ckpce fft) first ln = memoryWords fft.mem place ln.toNat := by
  refine List.flatMap_congr fun turn _ => congrArg hton32 (busRead_eq ?_)
  rw [BitVec.toNat_add, BitVec.toNat_ofNat]
  omega

/-! ### The states of the server -/

namespace Device

/-- The position while results are asked for. -/
def Posted (device : Device) : Prop :=
  device.fftState = .output → 1024 ≤ device.fftPosn.toNat ∧ device.fftPosn.toNat < 2048

theorem takeSamples_state {device taken : Device} {get : Nat → Byte} {length : BitVec 32}
    {ops : List BusOp} (took : takeSamples device get length = some (taken, ops)) :
    taken.fftState = device.fftState := by
  unfold takeSamples at took
  split_ifs at took
  cases took
  rfl

theorem input_posted {device : Device} {srcip sport : BitVec 32} {get : Nat → Byte}
    {length : BitVec 32} {outcome : Outcome} (state : device.fftState = .input)
    (handled : fftpacketInput device srcip sport get length = some outcome) :
    outcome.device.Posted := by
  unfold fftpacketInput at handled
  dsimp only at handled
  split_ifs at handled with takes other
  · obtain ⟨⟨taken, ops⟩, took, rfl⟩ := Option.map_eq_some_iff.mp handled
    intro output
    dsimp only at output ⊢
    split_ifs at output with full
    · rw [full]
      decide
    · rw [takeSamples_state took, state] at output
      cases output
  · cases handled
    intro output
    cases state.symm.trans output
  · cases handled
    intro output
    cases state.symm.trans output

theorem output_posted {device : Device} (posted : device.Posted) (peek : BitVec 32 → BitVec 32)
    (srcip : BitVec 32) (get : Nat → Byte) :
    (fftpacketOutput device peek srcip get).device.Posted := by
  unfold fftpacketOutput
  dsimp only
  by_cases same : pktUint16 get 0 = device.fftId ∧ srcip = device.fftSrcip
  · rw [if_pos same]
    by_cases past : 2048 ≤ pktUint16 get 2
    · rw [if_pos past]
      intro output
      cases output
    · rw [if_neg past]
      intro output
      obtain ⟨least, below⟩ := posted output
      rw [BitVec.le_def] at past
      dsimp only
      split_ifs with ahead
      · exact ⟨Nat.le_of_lt (Nat.lt_of_le_of_lt least ahead), Nat.not_le.mp past⟩
      · exact ⟨least, below⟩
  · rw [if_neg same]
    split_ifs
    · intro output
      cases output
    · exact posted

theorem handle_posted {device : Device} (posted : device.Posted) {event : Event}
    {outcome : Outcome} (handled : device.handle event = some outcome) :
    outcome.device.Posted := by
  cases event with
  | timeout peek =>
      cases handled
      rw [ffttimeout_device]
      exact posted
  | datagram peek srcip sport get length =>
      simp only [handle, fftpacket] at handled
      cases state : device.fftState with
      | input =>
          rw [state] at handled
          exact input_posted state handled
      | output =>
          rw [state] at handled
          cases handled
          exact output_posted posted peek srcip get

/-- The states after runs from power-up. -/
def Reached (device : Device) : Prop :=
  ∃ events ops, ({} : Device).run events = some (device, ops)

theorem run_posted {device last : Device} {events : List Event} {ops : List BusOp}
    (posted : device.Posted) (ran : device.run events = some (last, ops)) : last.Posted := by
  induction events generalizing device ops with
  | nil =>
      cases ran
      exact posted
  | cons event rest ih =>
      obtain ⟨outcome, handled, after⟩ := Option.bind_eq_some_iff.mp ran
      obtain ⟨⟨halt, more⟩, ranOn, same⟩ := Option.map_eq_some_iff.mp after
      cases same
      exact ih (handle_posted posted handled) ranOn

theorem Reached.posted {device : Device} (reached : device.Reached) : device.Posted := by
  obtain ⟨events, ops, ran⟩ := reached
  refine run_posted ?_ ran
  intro output
  cases output

end Device

/-! ### The reply and its repetition -/

/-- The reply due to a request for position `posn`. -/
def resultReply (mem : BitVec 10 → BitVec 32) (id posn : BitVec 32) : List Byte :=
  header id posn ++ memoryWords mem (posn.toNat - fftLength) (min 128 (2 * fftLength - posn.toNat))

/-- The request is answered with its words, all of them in the memory, and a
timeout sends the same. -/
structure Serves (core : Core State) (ckpce : Nat) (fft : Wbfft 10 State) (posn : BitVec 32)
    (outcome : Outcome) : Prop where
  reply : outcome.reply = some (resultReply fft.mem outcome.device.fftId posn)
  inside : ∀ turn < min 128 (2 * fftLength - posn.toNat),
    posn.toNat - fftLength + turn < fftLength
  repeated : (ffttimeout outcome.device (busRead core ckpce fft)).reply = outcome.reply

theorem pktUint16_lt (get : Nat → Byte) (pos : Nat) : (pktUint16 get pos).toNat < 65536 :=
  be16_lt _ _

/-- The position in a header of four bytes. -/
theorem header_posn {id posn other : BitVec 32} {first second : List Byte}
    (small : posn.toNat < 65536) (little : other.toNat < 65536)
    (same : header id posn ++ first = header id other ++ second) :
    posn = other ∧ first = second := by
  obtain ⟨heads, tails⟩ := List.append_inj same rfl
  refine ⟨?_, tails⟩
  have high : octet posn 1 = octet other 1 := Option.some.inj (congrArg (·[2]?) heads)
  have low : octet posn 0 = octet other 0 := Option.some.inj (congrArg (·[3]?) heads)
  rw [← be16_octets_of_lt posn small, ← be16_octets_of_lt other little, high, low]

theorem clampWords_toNat (ln : BitVec 32) : (clampWords ln).toNat = min 128 ln.toNat := by
  unfold clampWords
  split_ifs with long
  · exact (Nat.min_eq_left long).symm
  · exact (Nat.min_eq_right (Nat.le_of_not_le long)).symm

/-- The length `fftpacket` takes is the right one for full blocks other than
the first. -/
theorem clampWords_eq_iff {posn : BitVec 32} (least : 1024 ≤ posn.toNat) (below : posn.toNat < 2048) :
    (clampWords (1024 - posn)).toNat = min 128 (2 * fftLength - posn.toNat) ↔
      1024 < posn.toNat ∧ posn.toNat ≤ 1920 := by
  rw [clampWords_toNat, BitVec.toNat_sub]
  have first : (1024 : BitVec 32).toNat = 1024 := rfl
  unfold fftLength
  omega

/-- A request that matches in `FFT_OUTPUT`. -/
theorem fftpacketOutput_matching {device : Device} (peek : BitVec 32 → BitVec 32) {srcip : BitVec 32}
    {get : Nat → Byte} (id : pktUint16 get 0 = device.fftId) (source : srcip = device.fftSrcip)
    (below : (pktUint16 get 2).toNat < 2048) :
    fftpacketOutput device peek srcip get =
      { device := { device with
          fftPosn := if device.fftPosn < pktUint16 get 2 then pktUint16 get 2 else device.fftPosn }
        ops := []
        reply := some (header device.fftId device.fftPosn ++
          resultWords peek device.fftPosn (clampWords (1024 - pktUint16 get 2))) } := by
  have within : ¬2048 ≤ pktUint16 get 2 := Nat.not_le.mpr below
  unfold fftpacketOutput
  dsimp only
  rw [if_pos ⟨id, source⟩, if_neg within]

/-- What a timeout sends, at any position of the results. -/
theorem ffttimeout_reply {device : Device} (state : device.fftState = .output)
    (least : 1024 ≤ device.fftPosn.toNat) (below : device.fftPosn.toNat < 2048) :
    (ffttimeout device (busRead core ckpce fft)).reply =
      some (resultReply fft.mem device.fftId device.fftPosn) := by
  have top : (2048 : BitVec 32).toNat = 2048 := rfl
  have first : (1024 : BitVec 32).toNat = 1024 := rfl
  have earlier : device.fftPosn.slt 2048 = true := by
    have positive : 2 * device.fftPosn.toNat < 2 ^ 32 := by omega
    rw [BitVec.slt_eq_decide, BitVec.toInt_eq_toNat_of_lt positive, decide_eq_true_iff]
    exact Int.ofNat_lt.mpr below
  have length : (clampWords (2048 - device.fftPosn)).toNat =
      min 128 (2 * fftLength - device.fftPosn.toNat) := by
    rw [clampWords_toNat, BitVec.toNat_sub]
    unfold fftLength
    omega
  have left : clampWords (2048 - device.fftPosn) ≠ 0 := by
    intro none
    rw [none] at length
    unfold fftLength at length
    have zero : (0 : BitVec 32).toNat = 0 := rfl
    omega
  have place : (device.fftPosn - 1024).toNat % 1024 = (device.fftPosn.toNat - fftLength) % 1024 := by
    rw [BitVec.toNat_sub]
    unfold fftLength
    omega
  unfold ffttimeout
  rw [state]
  dsimp only
  rw [if_pos earlier, if_neg left, resultReply, ← length, resultWords_memory _ place]

/-- In a state of `FFT_OUTPUT` that a run from power-up can reach, a matching
request is served exactly when it repeats the position the server is at, and
asks for a full block that is not the first. -/
theorem result_request_served_iff {device : Device} (reached : device.Reached)
    (state : device.fftState = .output) {srcip : BitVec 32} {get : Nat → Byte}
    (id : pktUint16 get 0 = device.fftId) (source : srcip = device.fftSrcip)
    (least : 1024 ≤ (pktUint16 get 2).toNat) (below : (pktUint16 get 2).toNat < 2048)
    (sport length : BitVec 32) (core : Core State) (ckpce : Nat) (fft : Wbfft 10 State) :
    ∃ outcome, fftpacket device (busRead core ckpce fft) srcip sport get length = some outcome ∧
      (Serves core ckpce fft (pktUint16 get 2) outcome ↔
        device.fftPosn = pktUint16 get 2 ∧ 1024 < (pktUint16 get 2).toNat ∧
          (pktUint16 get 2).toNat ≤ 1920) := by
  obtain ⟨floor, ceiling⟩ := reached.posted state
  have matched := fftpacketOutput_matching (busRead core ckpce fft) id source below
  have small := pktUint16_lt get 2
  generalize pktUint16 get 2 = posn at least below matched small ⊢
  refine ⟨fftpacketOutput device (busRead core ckpce fft) srcip get, ?_, ?_⟩
  · rw [fftpacket, state]
  rw [matched]
  constructor
  · intro serves
    have little : device.fftPosn.toNat < 65536 := Nat.lt_trans ceiling (by decide)
    obtain ⟨label, words⟩ := header_posn little small (Option.some.inj serves.reply)
    refine ⟨label, (clampWords_eq_iff least below).mp ?_⟩
    have lengths := congrArg List.length words
    rw [resultWords, memoryWords, length_hton32_flatMap, length_hton32_flatMap] at lengths
    exact Nat.eq_of_mul_eq_mul_left (by decide) lengths
  · rintro ⟨rfl, full⟩
    have length := (clampWords_eq_iff least below).mpr full
    have place : device.fftPosn.toNat % 1024 = (device.fftPosn.toNat - fftLength) % 1024 := by
      unfold fftLength
      omega
    have reply : some (header device.fftId device.fftPosn ++ resultWords (busRead core ckpce fft)
        device.fftPosn (clampWords (1024 - device.fftPosn))) =
        some (resultReply fft.mem device.fftId device.fftPosn) := by
      rw [resultWords_memory _ place, length, resultReply]
    rw [ite_self]
    refine ⟨reply, ?_, ?_⟩
    · intro turn within
      unfold fftLength at within ⊢
      omega
    · rw [reply]
      exact ffttimeout_reply state least below

/-- A core that has finished: every place holds its own number. -/
def ramp : Wbfft 10 Butterfly :=
  { fftReset := false, wbStall := false, stallCount := 0, fftCeCount := 0, fsmState := .idle,
    samplesIn := 0, fftCe := false, fftInput := 0, fft := ⟨0, 0, 0, 0⟩, syncd := true, wrAddr := 0,
    mem := fun place => place.setWidth 32, wbData := 0, wbAck := false, int := true }

/-- All samples, in four datagrams. -/
def loading : List Event :=
  [zeros (0, 0) 0, zeros (0, 0) 256, zeros (1, 0) 256, zeros (2, 0) 256, zeros (3, 0) 256]

def requestBytes (high low : Byte) (index : Nat) : Byte :=
  if index = 2 then high else if index = 3 then low else 0

theorem reached_of_run {device : Device} {events : List Event}
    (ran : (({} : Device).run events).map Prod.fst = some device) : device.Reached := by
  obtain ⟨⟨last, ops⟩, all, rfl⟩ := Option.map_eq_some_iff.mp ran
  exact ⟨events, ops, all⟩

/-- Position 1152 asked for a second time. -/
theorem second_block_served : ∃ outcome,
    fftpacket ⟨0, 0xc0a80f01, 4000, 1152, .output⟩ (busRead butterfly 3 ramp) 0xc0a80f01 4000
      (requestBytes 0x04 0x80) 4 = some outcome ∧
    Serves butterfly 3 ramp (pktUint16 (requestBytes 0x04 0x80) 2) outcome := by
  have reached : Device.Reached ⟨0, 0xc0a80f01, 4000, 1152, .output⟩ :=
    @reached_of_run _ (loading ++ [zeros (0x04, 0x80) 0]) (by decide +kernel)
  obtain ⟨outcome, handled, served⟩ := @result_request_served_iff _ _ reached rfl 0xc0a80f01
    (requestBytes 0x04 0x80) (by decide) rfl (by decide) (by decide) 4000 4 butterfly 3 ramp
  exact ⟨outcome, handled, served.mpr (by decide)⟩

/-- The first request for results is answered with none. -/
theorem first_block_empty : Device.Reached ⟨0, 0xc0a80f01, 4000, 1024, .output⟩ ∧ ∃ outcome,
    fftpacket ⟨0, 0xc0a80f01, 4000, 1024, .output⟩ (busRead butterfly 3 ramp) 0xc0a80f01 4000
      (requestBytes 0x04 0x00) 4 = some outcome ∧
    outcome.reply = some [0x00, 0x00, 0x04, 0x00] ∧
    ¬Serves butterfly 3 ramp (pktUint16 (requestBytes 0x04 0x00) 2) outcome := by
  refine ⟨@reached_of_run _ loading (by decide +kernel), _, rfl, rfl, fun serves => ?_⟩
  have lengths := congrArg (Option.map List.length) serves.reply
  rw [Option.map_some, resultReply, List.length_append, memoryWords, length_hton32_flatMap] at lengths
  exact absurd lengths (by decide)

end ZipVersa.Fft
