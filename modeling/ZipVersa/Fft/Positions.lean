import ZipVersa.Fft.Device

/-! Runs of the FFT server: where its samples go. -/

set_option autoImplicit false

namespace ZipVersa.Fft

open Lib

/-- What the server reacts to; `peek` is what `_wbfft_data` reads at the time. -/
inductive Event where
  | datagram (peek : BitVec 32 → BitVec 32) (srcip sport : BitVec 32) (get : Nat → Byte)
      (length : BitVec 32)
  | timeout (peek : BitVec 32 → BitVec 32)

namespace Device

def handle (device : Device) : Event → Option Outcome
  | .datagram peek srcip sport get length => fftpacket device peek srcip sport get length
  | .timeout peek => some (ffttimeout device peek)

/-- The globals after a run, and all accesses to the core; `none` when the
server does not come back. -/
def run (device : Device) : List Event → Option (Device × List BusOp)
  | [] => some (device, [])
  | event :: rest =>
      (device.handle event).bind fun outcome =>
        (outcome.device.run rest).map fun (last, ops) => (last, outcome.ops ++ ops)

/-- Samples are taken only as far as they fit, and no request asks for more
than there is. -/
def Fits (device : Device) : Event → Prop
  | .datagram _ srcip sport get length =>
      match device.fftState with
      | .input =>
          device.takes srcip sport (pktUint16 get 0) (pktUint16 get 2) →
            device.fftPosn.toNat + inputWords length ≤ fftLength
      | .output =>
          pktUint16 get 0 = device.fftId → srcip = device.fftSrcip →
            (pktUint16 get 2).toNat < 2 * fftLength
  | .timeout _ => True

/-- `Fits` along a run. -/
def AllFit (device : Device) : List Event → Prop
  | [] => True
  | event :: rest =>
      device.Fits event ∧ ∀ outcome, device.handle event = some outcome → outcome.device.AllFit rest

end Device

/-- Words written since the last `reset_fft`, `count` of them before. -/
def written (count : Nat) : List BusOp → Nat
  | [] => count
  | .ctrl :: rest => written 0 rest
  | .data _ _ :: rest => written (count + 1) rest

/-- Every word goes to the place of its number since the last `reset_fft`, which
is below `FFT_LENGTH`. -/
def inPlace (count : Nat) : List BusOp → Bool
  | [] => true
  | .ctrl :: rest => inPlace 0 rest
  | .data index _ :: rest => index.toNat == count && decide (count < fftLength) &&
      inPlace (count + 1) rest

theorem written_append (count : Nat) (first second : List BusOp) :
    written count (first ++ second) = written (written count first) second := by
  induction first generalizing count with
  | nil => rfl
  | cons op rest ih => cases op <;> exact ih _

theorem inPlace_append (count : Nat) (first second : List BusOp) :
    inPlace count (first ++ second) =
      (inPlace count first && inPlace (written count first) second) := by
  induction first generalizing count with
  | nil => rfl
  | cons op rest ih =>
      cases op with
      | ctrl => exact ih 0
      | data index value => simp only [List.cons_append, inPlace, written, ih, Bool.and_assoc]

/-- A row of samples. -/
theorem samples_inPlace {posn : BitVec 32} (value : Nat → BitVec 32) (start count : Nat)
    (inside : posn.toNat + start + count ≤ fftLength) :
    inPlace (posn.toNat + start) ((List.range' start count).map fun turn =>
        .data (posn + BitVec.ofNat 32 turn) (value turn)) = true ∧
      written (posn.toNat + start) ((List.range' start count).map fun turn =>
        .data (posn + BitVec.ofNat 32 turn) (value turn)) = posn.toNat + start + count := by
  unfold fftLength at inside
  induction count generalizing start with
  | zero => exact ⟨rfl, rfl⟩
  | succ count ih =>
      have place : (posn + BitVec.ofNat 32 start).toNat = posn.toNat + start := by
        rw [BitVec.toNat_add, BitVec.toNat_ofNat]
        omega
      obtain ⟨placed, counted⟩ := ih (start + 1) (by omega)
      have below : posn.toNat + start < fftLength := by
        unfold fftLength
        omega
      rw [← Nat.add_assoc] at placed counted
      rw [List.range'_succ, List.map_cons, inPlace, written, place, placed, counted,
        decide_eq_true below, beq_self_eq_true]
      exact ⟨rfl, by omega⟩

namespace Device

variable {device : Device} {count : Nat}

/-- The samples of one datagram. -/
theorem takeSamples_keeps (get : Nat → Byte) {length : BitVec 32}
    (fits : device.fftPosn.toNat + inputWords length ≤ fftLength) :
    ∃ taken ops, takeSamples device get length = some (taken, ops) ∧
      inPlace device.fftPosn.toNat ops = true ∧
      taken.fftPosn.toNat = written device.fftPosn.toNat ops := by
  obtain ⟨placed, counted⟩ := samples_inPlace (fun turn => pktUint32 get (4 + 4 * turn)) 0
    (inputWords length) fits
  rw [Nat.add_zero, ← List.range_eq_range'] at placed counted
  have room : device.fftPosn.toNat + inputWords length ≤ dataWindow :=
    Nat.le_trans fits (by decide)
  refine ⟨_, _, if_pos room, placed, ?_⟩
  rw [counted, BitVec.toNat_add, BitVec.toNat_ofNat]
  unfold fftLength at fits
  omega

theorem ffttimeout_ops (device : Device) (peek : BitVec 32 → BitVec 32) :
    (ffttimeout device peek).ops = [] := by
  unfold ffttimeout
  split
  · rfl
  · split
    · dsimp only
      split <;> rfl
    · rfl

theorem input_keeps {srcip sport : BitVec 32} {get : Nat → Byte} {length : BitVec 32}
    (fits : device.takes srcip sport (pktUint16 get 0) (pktUint16 get 2) →
      device.fftPosn.toNat + inputWords length ≤ fftLength) :
    ∃ outcome, fftpacketInput device srcip sport get length = some outcome ∧
      inPlace device.fftPosn.toNat outcome.ops = true ∧
      outcome.device.fftPosn.toNat = written device.fftPosn.toNat outcome.ops := by
  unfold fftpacketInput
  by_cases taken : device.takes srcip sport (pktUint16 get 0) (pktUint16 get 2)
  · obtain ⟨after, ops, took, placed, counted⟩ := takeSamples_keeps get (fits taken)
    simp only [if_pos taken, took, Option.map_some]
    exact ⟨_, rfl, placed, counted⟩
  · simp only [if_neg taken]
    split
    · exact ⟨_, rfl, rfl, rfl⟩
    · exact ⟨_, rfl, rfl, rfl⟩

theorem output_keeps {srcip : BitVec 32} {get : Nat → Byte} (peek : BitVec 32 → BitVec 32)
    (count : Nat) (state : device.fftState = .output)
    (fits : pktUint16 get 0 = device.fftId → srcip = device.fftSrcip →
      (pktUint16 get 2).toNat < 2 * fftLength) :
    inPlace count (fftpacketOutput device peek srcip get).ops = true ∧
      ((fftpacketOutput device peek srcip get).device.fftState = .input →
        (fftpacketOutput device peek srcip get).device.fftPosn.toNat =
          written count (fftpacketOutput device peek srcip get).ops) := by
  unfold fftpacketOutput
  dsimp only
  split
  · next same =>
      have below : ¬ (2048 : BitVec 32) ≤ pktUint16 get 2 := by
        have := fits same.1 same.2
        rw [BitVec.le_def]
        exact Nat.not_le.mpr this
      rw [if_neg below]
      refine ⟨rfl, fun input => ?_⟩
      dsimp only at input
      rw [state] at input
      cases input
  · split
    · exact ⟨rfl, fun _ => rfl⟩
    · refine ⟨rfl, fun input => ?_⟩
      dsimp only at input
      rw [state] at input
      cases input

theorem handle_keeps {event : Event}
    (counted : device.fftState = .input → device.fftPosn.toNat = count)
    (fits : device.Fits event) :
    ∃ outcome, device.handle event = some outcome ∧ inPlace count outcome.ops = true ∧
      (outcome.device.fftState = .input →
        outcome.device.fftPosn.toNat = written count outcome.ops) := by
  cases event with
  | timeout peek =>
      refine ⟨_, rfl, by rw [ffttimeout_ops]; rfl, ?_⟩
      rw [ffttimeout_ops, ffttimeout_device]
      exact counted
  | datagram peek srcip sport get length =>
      unfold Fits at fits
      simp only [handle, fftpacket]
      cases state : device.fftState with
      | input =>
          rw [state] at fits
          rw [← counted state]
          obtain ⟨outcome, handled, placed, after⟩ := input_keeps fits
          exact ⟨outcome, handled, placed, fun _ => after⟩
      | output =>
          rw [state] at fits
          exact ⟨_, rfl, output_keeps peek count state fits⟩

theorem run_keeps {events : List Event}
    (counted : device.fftState = .input → device.fftPosn.toNat = count)
    (fits : device.AllFit events) :
    ∃ last ops, device.run events = some (last, ops) ∧ inPlace count ops = true ∧
      (last.fftState = .input → last.fftPosn.toNat = written count ops) := by
  induction events generalizing device count with
  | nil => exact ⟨device, [], rfl, rfl, counted⟩
  | cons event rest ih =>
      obtain ⟨outcome, handled, placed, after⟩ := handle_keeps counted fits.1
      obtain ⟨last, ops, ran, later, ends⟩ := ih after (fits.2 outcome handled)
      refine ⟨last, outcome.ops ++ ops, ?_, ?_, ?_⟩
      · rw [run, handled, Option.bind_some, ran, Option.map_some]
      · rw [inPlace_append, placed, later, Bool.and_self]
      · rw [written_append]
        exact ends

end Device

/-- From power-up on, as long as datagrams fit, every sample goes to its place
and `fft_posn` counts the samples. -/
theorem samples_counted {events : List Event} (fits : ({} : Device).AllFit events) :
    ∃ last ops, ({} : Device).run events = some (last, ops) ∧ inPlace 0 ops = true ∧
      (last.fftState = .input → last.fftPosn.toNat = written 0 ops) :=
  Device.run_keeps (fun _ => rfl) fits

/-- A datagram of zeros but for its position, of `words` samples. -/
def zeros (posn : Byte × Byte) (words : Nat) : Event :=
  .datagram (fun _ => 0) 0xc0a80f01 4000
    (fun i => if i = 2 then posn.1 else if i = 3 then posn.2 else 0) (BitVec.ofNat 32 (4 + 4 * words))

/-- The first datagram resets the core, the second brings four samples. -/
theorem four_samples_counted :
    ∃ last ops, ({} : Device).run [zeros (0, 0) 0, zeros (0, 0) 4] = some (last, ops) ∧
      inPlace 0 ops = true ∧ (last.fftState = .input → last.fftPosn.toNat = written 0 ops) := by
  refine samples_counted ⟨nofun, fun outcome handled => ⟨?_, fun outcome handled => trivial⟩⟩
  have first : ({} : Device).handle (zeros (0, 0) 0) =
      some ⟨⟨0, 0xc0a80f01, 4000, 0, .input⟩, [.ctrl], some [0, 0, 0, 0]⟩ := by decide
  cases first.symm.trans handled
  intro _
  decide

/-- Four datagrams of 300 samples: the position steps over `FFT_LENGTH`. -/
theorem long_datagrams_overrun :
    ∃ last ops, ({} : Device).run [zeros (0, 0) 0, zeros (0, 0) 300, zeros (1, 0x2c) 300,
        zeros (2, 0x58) 300, zeros (3, 0x84) 300] = some (last, ops) ∧ inPlace 0 ops = false := by
  have overrun : (({} : Device).run [zeros (0, 0) 0, zeros (0, 0) 300, zeros (1, 0x2c) 300,
      zeros (2, 0x58) 300, zeros (3, 0x84) 300]).map (fun last => inPlace 0 last.2) =
        some false := by
    decide +kernel
  obtain ⟨⟨last, ops⟩, ran, placed⟩ := Option.map_eq_some_iff.mp overrun
  exact ⟨last, ops, ran, placed⟩

end ZipVersa.Fft
