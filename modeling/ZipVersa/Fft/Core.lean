import Mathlib.Tactic.Common
import ZipVersa.Fft.Butterfly
import ZipVersa.Fft.LastStages
import ZipVersa.Fft.Stage
import ZipVersa.Lib.Dif

/-! `fftmain`: the ten stages in series, and that they compute the network of
decimation in frequency on the blocks of 1024 samples. -/

set_option autoImplicit false

namespace ZipVersa.Fft

open Lib

/-- The contents of `cmem_1024.hex` to `cmem_8.hex`. -/
structure Coefficients where
  cmem1024 : BitVec 9 → Sample 18
  cmem512 : BitVec 8 → Sample 20
  cmem256 : BitVec 7 → Sample 20
  cmem128 : BitVec 6 → Sample 20
  cmem64 : BitVec 5 → Sample 20
  cmem32 : BitVec 4 → Sample 20
  cmem16 : BitVec 3 → Sample 20
  cmem8 : BitVec 2 → Sample 20

/-- `o_sync` and `o_result`. -/
def outputRegister : Enabled (Marked (Sample 16)) (Marked (Sample 16)) (Marked (Sample 16)) where
  step result reset ce input :=
    { sync := if reset then false else if ce then input.sync else result.sync
      data := if ce then input.data else result.data }
  out result := result

abbrev FftStage (iwidth cwidth owidth lgspan : Nat) : Type :=
  StageFeed iwidth cwidth lgspan × HwBfly iwidth cwidth owidth × StageDrain owidth lgspan

abbrev FftMain : Type :=
  FftStage 16 18 18 9 × FftStage 18 20 18 8 × FftStage 18 20 18 7 × FftStage 18 20 18 6 ×
    FftStage 18 20 18 5 × FftStage 18 20 18 4 × FftStage 18 20 18 3 × FftStage 18 20 18 2 ×
      QtrStage 18 18 10 × LastStage 18 16 × Marked (Sample 16)

variable (cmem : Coefficients)

/-- `stage_1024` to `stage_2` and the output register. -/
def stages : Enabled FftMain (Marked (Sample 16)) (Marked (Sample 16)) :=
  (fftstage 16 18 0 cmem.cmem1024).series
    ((fftstage 18 18 0 cmem.cmem512).series
      ((fftstage 18 18 0 cmem.cmem256).series
        ((fftstage 18 18 0 cmem.cmem128).series
          ((fftstage 18 18 0 cmem.cmem64).series
            ((fftstage 18 18 0 cmem.cmem32).series
              ((fftstage 18 18 0 cmem.cmem16).series
                ((fftstage 18 18 0 cmem.cmem8).series
                  ((qtrstage 18 18 10 false 0).series
                    ((laststage 18 16 1).series outputRegister)))))))))

/-- A word of the bus: the real half over the imaginary one. -/
def unpack (word : BitVec 32) : Sample 16 := ⟨word.extractLsb' 16 16, word.extractLsb' 0 16⟩

def pack (sample : Sample 16) : BitVec 32 := sample.re ++ sample.im

/-- `fftmain`; the first stage has `!i_reset` for its `i_sync`. -/
def fftmain : Enabled FftMain (BitVec 32) (Marked (Sample 16)) where
  step state reset ce sample := (stages cmem).step state reset ce ⟨!reset, unpack sample⟩
  out := (stages cmem).out

/-- What the stages make of a stream of samples. -/
def fftStream (stream : Nat → Sample 16) : Nat → Sample 16 :=
  lastStream 16 1 (qtrStream false 18 0 (stageStream 18 0 cmem.cmem8 (stageStream 18 0 cmem.cmem16
    (stageStream 18 0 cmem.cmem32 (stageStream 18 0 cmem.cmem64 (stageStream 18 0 cmem.cmem128
      (stageStream 18 0 cmem.cmem256 (stageStream 18 0 cmem.cmem512
        (stageStream 18 0 cmem.cmem1024 stream)))))))))

/-- The register behind a number of items. -/
structure Showing (stream : Nat → Marked (Sample 16)) (count : Nat) (result : Marked (Sample 16)) :
    Prop where
  silent : count = 0 → result.sync = false
  shown : ∀ last, count = last + 1 → result = stream last

theorem outputRegister_tracks (stream : Nat → Marked (Sample 16)) :
    Tracks outputRegister stream (Showing stream) where
  reset _ _ _ := ⟨fun _ => rfl, fun last same => absurd same.symm (Nat.succ_ne_zero last)⟩
  idle _ _ _ showing := showing
  waits _ _ unmarked _ :=
    ⟨fun _ => unmarked, fun last same => absurd same.symm (Nat.succ_ne_zero last)⟩
  takes count _ _ := by
    refine ⟨fun none => absurd none (Nat.succ_ne_zero count), fun last same => ?_⟩
    obtain rfl : count = last := by omega
    rfl

theorem outputRegister_relays (period : Nat) :
    Relays outputRegister period 1 (fun stream index => stream index) := by
  refine Tracks.relays Nat.one_pos (fun stream _ => outputRegister_tracks stream) ?_ ?_ ?_ period
  · intro stream marked
    exact marked
  · intro stream count result showing short
    exact showing.silent (by omega)
  · intro stream index result showing
    exact showing.shown index (Nat.add_comm 1 index)

/-- Enables until the first result shows. -/
def fftDelay : Nat := 1094

/-- A stage in front of the later ones. -/
theorem stage_before {State : Type} {cwidth owidth lgspan delay : Nat} (iwidth : Nat)
    (stageCmem : BitVec lgspan → Sample cwidth)
    {later : Enabled State (Marked (Sample owidth)) (Marked (Sample 16))}
    (image : (Nat → Sample owidth) → Nat → Sample 16) (positive : 0 < lgspan)
    (relays : Relays later 3 delay (fun stream index =>
      ⟨decide (index % 8 = 0), image (fun index => (stream index).data) index⟩)) :
    Relays ((fftstage iwidth owidth 0 stageCmem).series later) 3 (2 ^ lgspan + 8 + delay)
      (fun stream index => ⟨decide (index % 8 = 0),
        image (stageStream owidth 0 stageCmem fun index => (stream index).data) index⟩) :=
  (fftstage_relays iwidth owidth 0 stageCmem positive).series relays

theorem stages_relay :
    Relays (stages cmem) 3 fftDelay (fun stream index =>
      ⟨decide (index % 8 = 0), fftStream cmem (fun index => (stream index).data) index⟩) := by
  let tail (stream : Nat → Sample 18) : Nat → Sample 16 :=
    lastStream 16 1 (qtrStream false 18 0 stream)
  let tail8 (stream : Nat → Sample 18) := tail (stageStream 18 0 cmem.cmem8 stream)
  let tail16 (stream : Nat → Sample 18) := tail8 (stageStream 18 0 cmem.cmem16 stream)
  let tail32 (stream : Nat → Sample 18) := tail16 (stageStream 18 0 cmem.cmem32 stream)
  let tail64 (stream : Nat → Sample 18) := tail32 (stageStream 18 0 cmem.cmem64 stream)
  let tail128 (stream : Nat → Sample 18) := tail64 (stageStream 18 0 cmem.cmem128 stream)
  let tail256 (stream : Nat → Sample 18) := tail128 (stageStream 18 0 cmem.cmem256 stream)
  let tail512 (stream : Nat → Sample 18) := tail256 (stageStream 18 0 cmem.cmem512 stream)
  have last : Relays _ 3 10 (fun stream index =>
      ⟨decide (index % 8 = 0), tail (fun index => (stream index).data) index⟩) :=
    (qtrstage_relays 18 18 false 0 3 (by decide : 3 ≤ 10)).series
      ((laststage_relays 18 16 1 3).series (outputRegister_relays 3))
  have from8 := stage_before 18 cmem.cmem8 tail (by decide) last
  have from16 := stage_before 18 cmem.cmem16 tail8 (by decide) from8
  have from32 := stage_before 18 cmem.cmem32 tail16 (by decide) from16
  have from64 := stage_before 18 cmem.cmem64 tail32 (by decide) from32
  have from128 := stage_before 18 cmem.cmem128 tail64 (by decide) from64
  have from256 := stage_before 18 cmem.cmem256 tail128 (by decide) from128
  have from512 := stage_before 18 cmem.cmem512 tail256 (by decide) from256
  exact stage_before 16 cmem.cmem1024 tail512 (by decide) from512

end ZipVersa.Fft
