import Mathlib.Tactic.Common
import ZipVersa.Fft.Core
import ZipVersa.Fft.Wbfft

/-! The stages as layers of a network on complex integers, and the memory of
`wbfft` behind a transform. -/

set_option autoImplicit false

namespace ZipVersa.Fft

open Lib

/-! ### The layers -/

/-- The twiddle factor of a place in the layer of blocks of `2 ^ (level + 1)`. -/
def Coefficients.value (cmem : Coefficients) (level place : Nat) : ℤ√(-1) :=
  match level with
  | 9 => (cmem.cmem1024 (BitVec.ofNat 9 place)).value
  | 8 => (cmem.cmem512 (BitVec.ofNat 8 place)).value
  | 7 => (cmem.cmem256 (BitVec.ofNat 7 place)).value
  | 6 => (cmem.cmem128 (BitVec.ofNat 6 place)).value
  | 5 => (cmem.cmem64 (BitVec.ofNat 5 place)).value
  | 4 => (cmem.cmem32 (BitVec.ofNat 4 place)).value
  | 3 => (cmem.cmem16 (BitVec.ofNat 3 place)).value
  | 2 => (cmem.cmem8 (BitVec.ofNat 2 place)).value
  | _ => 0

/-- The butterfly of `qtrstage`, whose second place is turned by `-j`. -/
def quarterBfly (place : Nat) (left right : ℤ√(-1)) : (ℤ√(-1)) × ℤ√(-1) :=
  let diff := rounded 1 18 (left - right)
  (rounded 1 18 (left + right),
    if place = 0 then diff else ⟨diff.im, (-diff.re).bmod (2 ^ 18)⟩)

/-- The butterflies of `fftmain`, layer by layer. -/
def fftBfly (coef : Nat → Nat → ℤ√(-1)) (level place : Nat) (left right : ℤ√(-1)) :
    (ℤ√(-1)) × ℤ√(-1) :=
  match level with
  | 0 => (rounded 2 16 (left + right), rounded 2 16 (left - right))
  | 1 => quarterBfly place left right
  | 9 => difButterfly 16 18 18 0 (coef 9 place) left right
  | level => difButterfly 18 20 18 0 (coef level place) left right

theorem ofNat_mod (lgspan index : Nat) :
    BitVec.ofNat lgspan (index % 2 ^ lgspan) = BitVec.ofNat lgspan index :=
  BitVec.eq_of_toNat_eq (by rw [BitVec.toNat_ofNat, BitVec.toNat_ofNat, Nat.mod_mod])

theorem stageStream_value {iwidth cwidth owidth lgspan shift : Nat} (positive : 0 < owidth)
    (drops : owidth + shift ≤ iwidth + cwidth + 2) (cmem : BitVec lgspan → Sample (cwidth + 2))
    (stream : Nat → Sample (iwidth + 1)) (index : Nat) :
    (stageStream owidth shift cmem stream index).value =
      layer lgspan (fun place => difButterfly (iwidth + 1) (cwidth + 2) owidth shift
        (cmem (BitVec.ofNat lgspan place)).value) (fun index => (stream index).value) index := by
  have exact (input : BflyInput (iwidth + 1) (cwidth + 2)) :=
    @HwBfly.result_value iwidth cwidth owidth shift input positive drops
  simp only [stageStream, layer, ofNat_mod]
  split_ifs with low
  · exact congrArg Prod.fst (exact ⟨_, stream index, stream (index + 2 ^ lgspan)⟩)
  · obtain ⟨enough, _⟩ := sub_half_mod (Nat.le_of_not_lt low)
    rw [place_sub enough, Nat.sub_add_cancel enough]
    exact congrArg Prod.snd (exact ⟨_, stream (index - 2 ^ lgspan), stream index⟩)

theorem roundedSum_value {iwidth owidth shift : Nat} (positive : 0 < owidth)
    (drops : owidth + shift ≤ iwidth + 1) (first second : Sample iwidth) :
    (roundedSum owidth shift first second).value =
      rounded (iwidth + 1 - shift - owidth) owidth (first.value + second.value) := by
  refine Zsqrtd.ext ?_ ?_
  · exact (toInt_convround positive drops).trans (by rw [toInt_wideAdd]; rfl)
  · exact (toInt_convround positive drops).trans (by rw [toInt_wideAdd]; rfl)

theorem roundedDiff_value {iwidth owidth shift : Nat} (positive : 0 < owidth)
    (drops : owidth + shift ≤ iwidth + 1) (first second : Sample iwidth) :
    (roundedDiff owidth shift first second).value =
      rounded (iwidth + 1 - shift - owidth) owidth (first.value - second.value) := by
  refine Zsqrtd.ext ?_ ?_
  · exact (toInt_convround positive drops).trans (by rw [toInt_wideSub]; rfl)
  · exact (toInt_convround positive drops).trans (by rw [toInt_wideSub]; rfl)

theorem lastStream_value (stream : Nat → Sample 18) (index : Nat) :
    (lastStream 16 1 stream index).value =
      layer 0 (fun _ left right => (rounded 2 16 (left + right), rounded 2 16 (left - right)))
        (fun index => (stream index).value) index := by
  rw [lastStream, layer]
  by_cases even : index % 2 = 0
  · rw [if_pos even, if_pos (by simp [even])]
    exact roundedSum_value (by decide) (by decide) _ _
  · rw [if_neg even, if_neg (by simp; omega)]
    exact roundedDiff_value (by decide) (by decide) _ _

theorem qtrStream_value (stream : Nat → Sample 18) (index : Nat) :
    (qtrStream false 18 0 stream index).value =
      layer 1 quarterBfly (fun index => (stream index).value) index := by
  have diff : (roundedDiff 18 0 (stream (index - 2)) (stream index)).value =
      rounded 1 18 ((stream (index - 2)).value - (stream index).value) :=
    roundedDiff_value (by decide) (by decide) _ _
  have parity : index % 2 ^ 1 = index % 2 := by rw [Nat.pow_one]
  rw [qtrStream, layer, parity]
  by_cases low : index % 4 < 2
  · have first : index % 2 ^ (1 + 1) < 2 ^ 1 := low
    rw [if_pos low, if_pos first]
    exact roundedSum_value (by decide) (by decide) _ _
  · have second : ¬ index % 2 ^ (1 + 1) < 2 ^ 1 := low
    rw [if_neg low, if_neg second, turned, quarterBfly]
    by_cases even : index % 2 = 0
    · rw [if_pos even, if_pos even]
      exact diff
    · rw [if_neg even, if_neg even, Nat.pow_one, ← diff]
      refine Zsqrtd.ext rfl ?_
      exact BitVec.toInt_neg

/-- The stream of results is that of the layers. -/
theorem fftStream_value (cmem : Coefficients) (stream : Nat → Sample 16) (index : Nat) :
    (fftStream cmem stream index).value =
      dif 10 (fftBfly cmem.value) (fun index => (stream index).value) index := by
  have quarter (stream : Nat → Sample 18) : (fun index => (qtrStream false 18 0 stream index).value) =
      layer 1 quarterBfly (fun index => (stream index).value) := funext (qtrStream_value stream)
  have stage {lgspan : Nat} (cmem : BitVec lgspan → Sample 20) (stream : Nat → Sample 18) :
      (fun index => (stageStream 18 0 cmem stream index).value) =
        layer lgspan (fun place => difButterfly 18 20 18 0 (cmem (BitVec.ofNat lgspan place)).value)
          (fun index => (stream index).value) :=
    funext (stageStream_value (by decide) (by decide) cmem stream)
  have first : (fun index => (stageStream 18 0 cmem.cmem1024 stream index).value) =
      layer 9 (fun place => difButterfly 16 18 18 0 (cmem.cmem1024 (BitVec.ofNat 9 place)).value)
        (fun index => (stream index).value) :=
    funext (stageStream_value (by decide) (by decide) cmem.cmem1024 stream)
  rw [fftStream, lastStream_value, quarter, stage, stage, stage, stage, stage, stage, stage, first]
  rfl

/-- A stage marks its blocks and makes a layer of rounded butterflies of what it is given. -/
theorem fftstage_is_layer {iwidth cwidth owidth lgspan shift : Nat}
    (cmem : BitVec lgspan → Sample (cwidth + 2)) (wide : 0 < lgspan) (positive : 0 < owidth)
    (drops : owidth + shift ≤ iwidth + cwidth + 2) :
    Relays (fftstage (iwidth + 1) owidth shift cmem) 3 (2 ^ lgspan + 8) (fun stream index =>
        ⟨decide (index % 2 ^ (lgspan + 1) = 0),
          stageStream owidth shift cmem (fun index => (stream index).data) index⟩) ∧
      ∀ (stream : Nat → Sample (iwidth + 1)) (index : Nat),
        (stageStream owidth shift cmem stream index).value =
          layer lgspan (fun place => difButterfly (iwidth + 1) (cwidth + 2) owidth shift
            (cmem (BitVec.ofNat lgspan place)).value) (fun index => (stream index).value) index :=
  ⟨fftstage_relays _ owidth shift cmem wide, stageStream_value positive drops cmem⟩

theorem second_stage_is_layer :
    Relays (fftstage 18 18 0 fun place : BitVec 8 => Sample.mk 0x40000#20 (place.setWidth 20)) 3 264
      (fun stream index => ⟨decide (index % 512 = 0),
        stageStream 18 0 (fun place : BitVec 8 => Sample.mk 0x40000#20 (place.setWidth 20))
          (fun index => (stream index).data) index⟩) :=
  (@fftstage_is_layer 17 18 18 8 0
    (fun place => Sample.mk 0x40000#20 (place.setWidth 20)) (by decide) (by decide) (by decide)).1

/-! ### The core in its device -/

section Device

variable (cmem : Coefficients)

/-- `fftmain` as `wbfft` instantiates it. -/
def fftCore : Core FftMain where
  step := (fftmain cmem).step
  sync state := ((fftmain cmem).out state).sync
  output state := pack ((fftmain cmem).out state).data

variable {cmem}

/-- A sample at the input of the first stage. -/
def sampled (sample : BitVec 32) : Marked (Sample 16) := ⟨true, unpack sample⟩

theorem fftmain_paced {period gap : Nat} {samples : List (BitVec 32)} {state : FftMain}
    (paced : (fftmain cmem).Paced period samples gap state) :
    (stages cmem).Paced period (samples.map sampled) gap state := by
  induction paced with
  | reset state ce input => exact .reset state ce (Marked.mk false (unpack input))
  | idle input _ ih => exact .idle (sampled input) ih
  | ce input _ due ih =>
      rw [List.map_append]
      exact .ce (sampled input) ih due

/-- The core shows nothing for 1094 enables, then the transforms of its blocks. -/
theorem fftmain_shows {gap : Nat} {samples : List (BitVec 32)} {state : FftMain}
    (paced : (fftmain cmem).Paced 3 samples gap state) (words : Nat → BitVec 32)
    (same : ∀ index word, samples[index]? = some word → word = words index) (index : Nat)
    (place : samples.length = fftDelay + index) :
    (fftmain cmem).out state =
      Marked.mk (decide (index % 8 = 0)) (fftStream cmem (fun index => unpack (words index)) index) := by
  have starts : Starts 0 (fun index => sampled (words index)) (samples.map sampled) := by
    refine ⟨fun index below => absurd below (Nat.not_lt_zero index), fun index item found => ?_, rfl⟩
    rw [Nat.zero_add, List.getElem?_map, Option.map_eq_some_iff] at found
    obtain ⟨word, found, rfl⟩ := found
    rw [same index word found]
  have length : (samples.map sampled).length = 0 + fftDelay + index := by
    rw [List.length_map, Nat.zero_add, place]
  exact (stages_relay cmem).shows (samples.map sampled) gap state 0
    (fun index => sampled (words index)) index (fftmain_paced paced) starts length

theorem fftCore_output {gap : Nat} {samples : List (BitVec 32)} {state : FftMain}
    (paced : (fftmain cmem).Paced 3 samples gap state) (words : Nat → BitVec 32)
    (same : ∀ index word, samples[index]? = some word → word = words index) (index : Nat)
    (place : samples.length = fftDelay + index) :
    (fftCore cmem).output state = pack (fftStream cmem (fun index => unpack (words index)) index) := by
  have out := fftmain_shows paced words same index place
  change pack ((fftmain cmem).out state).data = _
  rw [out]

theorem fftmain_quiet {gap : Nat} {samples : List (BitVec 32)} {state : FftMain}
    (paced : (fftmain cmem).Paced 0 samples gap state) (short : samples.length < fftDelay) :
    ((fftmain cmem).out state).sync = false := by
  have length : (samples.map sampled).length < 0 + fftDelay := by
    rwa [List.length_map, Nat.zero_add]
  exact (stages_relay cmem).quiet (samples.map sampled) gap state 0 (fftmain_paced paced)
    (fun index below => absurd below (Nat.not_lt_zero index)) length

theorem reached_paced {count : Nat} {state : FftMain} (reached : (fftCore cmem).Reached count state) :
    ∃ samples gap, samples.length = count ∧ (fftmain cmem).Paced 0 samples gap state := by
  induction reached with
  | reset state ce sample => exact ⟨[], 0, rfl, .reset state ce sample⟩
  | idle sample _ ih =>
      obtain ⟨samples, gap, size, paced⟩ := ih
      exact ⟨samples, gap + 1, size, .idle sample paced⟩
  | ce sample _ ih =>
      obtain ⟨samples, gap, size, paced⟩ := ih
      exact ⟨samples ++ [sample], 1, by simp [size], .ce sample paced (Nat.zero_le gap)⟩

/-- What `wbfft` relies on. -/
theorem fftCore_conforms : (fftCore cmem).Conforms 10 where
  holds _ _ := ⟨rfl, rfl⟩
  late := by
    intro count state reached short
    obtain ⟨samples, gap, size, paced⟩ := reached_paced reached
    refine fftmain_quiet paced (Nat.lt_of_lt_of_le ?_ (by decide : 2 ^ 10 ≤ fftDelay))
    rwa [size]

/-! ### The memory of the device -/

/-- What `fftmain` has been given and has shown: the transforms of any stream
that goes on from its inputs. -/
structure Transforming (cmem : Coefficients) (run : FftRun 10 FftMain) : Prop where
  paced : (fftmain cmem).Paced 3 run.fed run.gap run.device.fft
  count : run.shown.length = run.fed.length + 1 - fftDelay
  shows : ∀ words : Nat → BitVec 32, (∀ index word, run.fed[index]? = some word → word = words index) →
    ∀ index output, run.shown[index]? = some output →
      output = pack (fftStream cmem (fun index => unpack (words index)) index)

variable {run : FftRun 10 FftMain} {clock : FftClock 10}

theorem Transforming.restart (restarts : run.device.fftReset = true) :
    Transforming cmem (run.step (fftCore cmem) 3 clock) := by
  have fed : (run.step (fftCore cmem) 3 clock).fed = [] := by simp [FftRun.step, restarts]
  have gap : (run.step (fftCore cmem) 3 clock).gap = 3 := by simp [FftRun.step, restarts]
  have shown : (run.step (fftCore cmem) 3 clock).shown = [] := by
    simp [FftRun.step, FftRun.nextShown, restarts]
  have fft : (run.step (fftCore cmem) 3 clock).device.fft =
      (fftmain cmem).step run.device.fft true run.device.fftCe run.device.fftInput := by
    simp [FftRun.step, Wbfft.step, restarts, fftCore]
  refine ⟨?_, ?_, ?_⟩
  · rw [fed, gap, fft]
    exact .reset _ _ _
  · rw [fed, shown]
    rfl
  · intro words same index output found
    rw [shown, List.getElem?_nil] at found
    cases found

theorem Transforming.idle (transforming : Transforming cmem run) (live : run.device.fftReset = false)
    (reset : clock.reset = false) (still : run.device.fftCe = false) :
    Transforming cmem (run.step (fftCore cmem) 3 clock) := by
  have fed : (run.step (fftCore cmem) 3 clock).fed = run.fed := by
    rw [FftRun.fed_step _ _ _ live, FftRun.pulses, still, if_neg Bool.false_ne_true, List.append_nil]
  have shown : (run.step (fftCore cmem) 3 clock).shown = run.shown := FftRun.shown_still live still
  have gap : (run.step (fftCore cmem) 3 clock).gap = run.gap + 1 := by
    rw [FftRun.gap_step live reset, still, if_neg Bool.false_ne_true]
  refine ⟨?_, by rw [fed, shown, transforming.count], by rw [fed, shown]; exact transforming.shows⟩
  rw [fed, gap, FftRun.fft_step live, still]
  exact .idle _ transforming.paced

/-- At a clock enable: nothing until the first block is through, then the next item. -/
theorem shown_grown {later : FftRun 10 FftMain} (before : run.shown.length + fftDelay =
      max fftDelay later.fed.length)
    (paced : (fftmain cmem).Paced 3 later.fed later.gap later.device.fft)
    (shown : later.shown =
      if run.shown.isEmpty && !(fftCore cmem).sync later.device.fft then []
      else run.shown ++ [(fftCore cmem).output later.device.fft]) :
    later.fed.length < fftDelay ∧ later.shown = [] ∨
      later.fed.length = fftDelay + run.shown.length ∧
        later.shown = run.shown ++ [(fftCore cmem).output later.device.fft] := by
  rcases Nat.lt_or_ge later.fed.length fftDelay with short | enough
  · obtain ⟨_, any⟩ := paced.relax
    have silent : (fftCore cmem).sync later.device.fft = false := fftmain_quiet any short
    have none : run.shown = [] := List.length_eq_zero_iff.mp (by omega)
    refine .inl ⟨short, ?_⟩
    rw [shown, silent, none]
    rfl
  · have place : later.fed.length = fftDelay + run.shown.length := by omega
    refine .inr ⟨place, ?_⟩
    have out := fftmain_shows paced (fun index => later.fed[index]?.getD 0)
      (fun index word found => by rw [found, Option.getD_some]) run.shown.length place
    rw [shown, if_neg]
    intro waits
    obtain ⟨empty, silent⟩ := Bool.and_eq_true_iff.mp waits
    have sync : (fftCore cmem).sync later.device.fft = decide (run.shown.length % 8 = 0) :=
      congrArg Marked.sync out
    rw [sync, List.isEmpty_iff.mp empty] at silent
    exact Bool.false_ne_true silent

theorem Transforming.ce (transforming : Transforming cmem run) (live : run.device.fftReset = false)
    (reset : clock.reset = false) (fires : run.device.fftCe = true) (due : 3 ≤ run.gap) :
    Transforming cmem (run.step (fftCore cmem) 3 clock) := by
  have fed : (run.step (fftCore cmem) 3 clock).fed = run.fed ++ [run.device.fftInput] := by
    rw [FftRun.fed_step _ _ _ live, FftRun.pulses, fires, if_pos rfl]
  have gap : (run.step (fftCore cmem) 3 clock).gap = 1 := by
    rw [FftRun.gap_step live reset, fires, if_pos rfl]
  have length : (run.step (fftCore cmem) 3 clock).fed.length = run.fed.length + 1 := by
    rw [fed, List.length_append, List.length_singleton]
  have paced : (fftmain cmem).Paced 3 (run.step (fftCore cmem) 3 clock).fed
      (run.step (fftCore cmem) 3 clock).gap (run.step (fftCore cmem) 3 clock).device.fft := by
    rw [fed, gap, FftRun.fft_step live, fires]
    exact .ce _ transforming.paced due
  have count := transforming.count
  rcases shown_grown (by omega) paced (FftRun.shown_ce live fires) with
    ⟨short, none⟩ | ⟨place, grown⟩
  · refine ⟨paced, ?_, fun words same index output found => ?_⟩
    · rw [none, List.length_nil]
      omega
    · rw [none, List.getElem?_nil] at found
      cases found
  · refine ⟨paced, ?_, fun words same index output found => ?_⟩
    · rw [grown, List.length_append, List.length_singleton]
      omega
    · rw [grown, List.getElem?_append] at found
      split_ifs at found with earlier
      · refine transforming.shows words (fun index word fed' => same index word ?_) index output found
        rw [fed, List.getElem?_append_left (List.getElem?_eq_some_iff.mp fed').1, fed']
      · obtain ⟨inside, rfl⟩ := List.getElem?_eq_some_iff.mp found
        rw [List.length_singleton] at inside
        obtain rfl : index = run.shown.length := by omega
        rw [List.getElem_singleton]
        exact fftCore_output paced words same _ place

theorem Transforming.step (transforming : run.device.fftReset = false → Transforming cmem run)
    (sound : run.Sound (fftCore cmem) 3) (later : (run.step (fftCore cmem) 3 clock).device.fftReset = false) :
    Transforming cmem (run.step (fftCore cmem) 3 clock) := by
  have reset : clock.reset = false := by
    revert later
    simp only [FftRun.step, Wbfft.step]
    cases clock.reset <;> simp
  cases live : run.device.fftReset with
  | true => exact .restart live
  | false =>
      cases fires : run.device.fftCe with
      | false => exact (transforming live).idle live reset fires
      | true => exact (transforming live).ce live reset fires ((sound.running live).counted.apart fires)

theorem Transforming.through {clocks : List (FftClock 10)} (sound : run.Sound (fftCore cmem) 3)
    (transforming : run.device.fftReset = false → Transforming cmem run)
    (gentle : ∀ before clock after, clocks = before ++ clock :: after →
      (clocked (FftRun.step (fftCore cmem) 3) run before).Gentle clock) :
    (clocked (FftRun.step (fftCore cmem) 3) run clocks).device.fftReset = false →
      Transforming cmem (clocked (FftRun.step (fftCore cmem) 3) run clocks) := by
  induction clocks generalizing run with
  | nil => exact transforming
  | cons clock rest ih =>
      refine ih (sound.step (by decide) fftCore_conforms (gentle [] clock rest rfl))
        (fun later => Transforming.step transforming sound later) ?_
      intro before other after split
      exact gentle (clock :: before) other after (by rw [split, List.cons_append])

theorem unpack_pack (sample : Sample 16) : unpack (pack sample) = sample := by
  cases sample with
  | mk re im =>
      have high : (re ++ im).extractLsb' 16 16 = re := BitVec.extractLsb'_append_eq_left
      have low : (re ++ im).extractLsb' 0 16 = im := BitVec.extractLsb'_append_eq_right
      rw [pack, unpack, high, low]

/-- With `o_int` the memory holds what the network makes of the first 1024 samples. -/
theorem Transforming.memory (transforming : Transforming cmem run)
    (sound : run.Sound (fftCore cmem) 3) (live : run.device.fftReset = false)
    (high : run.device.int = true) :
    2 ^ 10 ≤ run.written.length ∧ ∀ place : BitVec 10,
      (unpack (run.device.mem place.reverse)).value =
        dif 10 (fftBfly cmem.value) (fun index => (unpack (run.written[index]?.getD 0)).value)
          place.toNat := by
  obtain ⟨idle, holds⟩ := sound.done high
  obtain ⟨_, enough, same⟩ := (sound.running live).delivering.full (by rw [idle]; decide)
  refine ⟨enough, fun place => ?_⟩
  have extends_fed (index : Nat) (word : BitVec 32) (found : run.fed[index]? = some word) :
      word = run.pulses[index]?.getD 0 := by
    rw [FftRun.pulses, List.getElem?_append_left (List.getElem?_eq_some_iff.mp found).1, found,
      Option.getD_some]
  rw [transforming.shows _ extends_fed _ _ (holds place), unpack_pack, fftStream_value]
  refine dif_block fun item inside => ?_
  have start : place.toNat - place.toNat % 2 ^ 10 = 0 := by
    rw [Nat.mod_eq_of_lt place.isLt, Nat.sub_self]
  have equal : run.pulses[item]? = run.written[item]? := by
    rw [← List.getElem?_take_of_lt inside, same, List.getElem?_take_of_lt inside]
  rw [start, Nat.zero_add, equal]

end Device

end ZipVersa.Fft
